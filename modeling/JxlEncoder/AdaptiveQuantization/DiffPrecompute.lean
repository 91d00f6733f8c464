import JxlEncoder.AdaptiveQuantization.Modulation

/-! # The local-difference map of the adaptive quantization

`DiffPrecompute` measures, at every pixel of the opsin `Y` plane, how much the pixel differs from
its four neighbours, weights the difference by the ratio of derivatives of the cubic root to the
simple gamma, clips it at `cutoff`, and pads the map to whole 8×8 blocks with the mean of the last
samples of each row and column.

The rows are computed by independent tasks (`diffPrecomputeRow`), each made of a first-pixel
branch, a SIMD loop of `Lanes(df)` pixels per step, a scalar loop, a last-pixel branch and the
extension of the row to the padded width. The samples are `float`s (`FloatVal`): at a pixel
`P ≤ -match_gamma_offset` the ratio is `+inf`. The scalar branches clip with `std::min`, which
gives `cutoff` there; the SIMD lanes clip with `IfThenElse(diff > cutoff, cutoff, diff)`, which
keeps the NaN of `0 · inf` at such a pixel when it equals its four neighbours (`laneDiff_of_flatDark`).
A task writes a row that `diffRowValue` gives in closed form (`diffPrecomputeRow_row`). The last row
is then recomputed from its right neighbours and the bottom rows are padded; `diffPrecompute_row`
gives every sample of the result. The padding of the last row is computed by its task before the
last row is recomputed, from the samples that the last-row pass then overwrites
(`diffPrecompute_last_row_padding`).
-/

namespace JxlEncoder

variable {F : Type} [LinearOrderedField F]

/-- `RoundUpToBlockDim`: `size` rounded up to a multiple of `kBlockDim`. -/
def roundUpToBlockDim (size : ℕ) : ℕ := divCeil size kBlockDim * kBlockDim

/-- `mul0` and `match_gamma_offset` of `DiffPrecompute`. -/
def diffMul0 : F := 0.030220460298316064

def matchGammaOffset : F := 0.6542639346391887

section Pixel

variable (cutoff : F)

/-- The difference of the first pixel and of the scalar loop at `x` of the row `rowIn`, with the
rows `rowIn1`, `rowIn2` above and below and the columns `x1`, `x2` left and right, weighted by the
ratio of derivatives and clipped by `std::min(cutoff, diff)`. -/
def pixelDiff (rowIn rowIn1 rowIn2 : ℕ → F) (x x1 x2 : ℕ) : FloatVal F :=
  let diff := diffMul0 * (|rowIn x - rowIn x2| + |rowIn x - rowIn2 x| + |rowIn x - rowIn x1| +
    |rowIn x - rowIn1 x| + 3 * (|rowIn2 x - rowIn1 x| + |rowIn x1 - rowIn x2|))
  let diff := .fin diff * ratioOfDerivativesOfCubicRootToSimpleGamma false (rowIn x + matchGammaOffset)
  FloatVal.stdMin (.fin cutoff) diff

/-- One lane of the SIMD loop at `x`: the difference of `pixelDiff` summed in the vector's order
and clipped by `IfThenElse(diff > cutoff, cutoff, diff)`. -/
def laneDiff (rowIn rowIn1 rowIn2 : ℕ → F) (x : ℕ) : FloatVal F :=
  let in0 := rowIn x
  let inR := rowIn (x + 1)
  let inL := rowIn (x - 1)
  let inT := rowIn2 x
  let inB := rowIn1 x
  let diff := diffMul0 * (|in0 - inR| + |in0 - inL| + |in0 - inB| + |in0 - inT| +
    3 * (|inT - inB| + |inL - inR|))
  let diff := .fin diff * ratioOfDerivativesOfCubicRootToSimpleGamma false (in0 + matchGammaOffset)
  if diff > .fin cutoff then .fin cutoff else diff

/-- The difference of a pixel `v` on an edge of the image from its one neighbour `w`:
`std::min(cutoff, 7·mul0·|v - w|·ratio)`. -/
def edgeDiff (v w : F) : FloatVal F :=
  let diff := 7 * diffMul0 * |v - w|
  let diff := .fin diff * ratioOfDerivativesOfCubicRootToSimpleGamma false (v + matchGammaOffset)
  FloatVal.stdMin (.fin cutoff) diff

/-- A pixel where a SIMD lane computes `0 · inf`: at most `-match_gamma_offset`, where the ratio
of derivatives is `+inf`, and equal to its four neighbours, so that the difference is 0. -/
def FlatDark (rowIn rowIn1 rowIn2 : ℕ → F) (x : ℕ) : Prop :=
  rowIn x + matchGammaOffset ≤ 0 ∧ rowIn (x + 1) = rowIn x ∧ rowIn (x - 1) = rowIn x ∧
    rowIn1 x = rowIn x ∧ rowIn2 x = rowIn x

instance (rowIn rowIn1 rowIn2 : ℕ → F) (x : ℕ) : Decidable (FlatDark rowIn rowIn1 rowIn2 x) :=
  instDecidableAnd

theorem diffMul0_pos : (0 : F) < diffMul0 := by
  unfold diffMul0
  norm_num

/-- The stencil of a pixel that differs from one of its four neighbours is positive. -/
theorem stencil_pos (rowIn rowIn1 rowIn2 : ℕ → F) (x : ℕ)
    (differs : ¬ (rowIn (x + 1) = rowIn x ∧ rowIn (x - 1) = rowIn x ∧ rowIn1 x = rowIn x ∧
      rowIn2 x = rowIn x)) :
    0 < |rowIn x - rowIn (x + 1)| + |rowIn x - rowIn2 x| + |rowIn x - rowIn (x - 1)| +
      |rowIn x - rowIn1 x| + 3 * (|rowIn2 x - rowIn1 x| + |rowIn (x - 1) - rowIn (x + 1)|) := by
  have apart : ∀ {a b : F}, ¬ b = a → 0 < |a - b| := fun ne => abs_pos.mpr (sub_ne_zero.mpr (Ne.symm ne))
  have := abs_nonneg (rowIn x - rowIn (x + 1))
  have := abs_nonneg (rowIn x - rowIn2 x)
  have := abs_nonneg (rowIn x - rowIn (x - 1))
  have := abs_nonneg (rowIn x - rowIn1 x)
  have := abs_nonneg (rowIn2 x - rowIn1 x)
  have := abs_nonneg (rowIn (x - 1) - rowIn (x + 1))
  by_contra zero
  refine differs ⟨?_, ?_, ?_, ?_⟩ <;> by_contra ne <;> linarith [apart ne]

/-- `diff · ratio(v)` is not NaN where the difference or the argument is positive. -/
theorem weighted_ne_nan {d v : F} (notBoth : 0 < d ∨ 0 < v) :
    .fin d * ratioOfDerivativesOfCubicRootToSimpleGamma false v ≠ .nan := by
  by_cases bright : 0 < v
  · obtain ⟨r, ratio, -⟩ := ratioOfDerivativesOfCubicRootToSimpleGamma_false_of_pos bright
    rw [ratio, FloatVal.fin_mul_fin]
    exact FloatVal.noConfusion
  · rw [ratioOfDerivativesOfCubicRootToSimpleGamma_false_of_nonpos (not_lt.mp bright),
      FloatVal.fin_mul_inf_of_pos (notBoth.resolve_right bright)]
    exact FloatVal.noConfusion

/-- **A SIMD lane computes the scalar loop's difference** at every pixel that is not flat and dark:
the vector sums the same terms in another order, and its clip is `std::min` away from NaN. -/
theorem laneDiff_eq_pixelDiff (rowIn rowIn1 rowIn2 : ℕ → F) {x : ℕ}
    (notFlat : ¬ FlatDark rowIn rowIn1 rowIn2 x) :
    laneDiff cutoff rowIn rowIn1 rowIn2 x = pixelDiff cutoff rowIn rowIn1 rowIn2 x (x - 1) (x + 1) := by
  have sum : |rowIn x - rowIn (x + 1)| + |rowIn x - rowIn (x - 1)| + |rowIn x - rowIn1 x| +
      |rowIn x - rowIn2 x| = |rowIn x - rowIn (x + 1)| + |rowIn x - rowIn2 x| +
      |rowIn x - rowIn (x - 1)| + |rowIn x - rowIn1 x| := by ring
  have notBoth : 0 < diffMul0 * (|rowIn x - rowIn (x + 1)| + |rowIn x - rowIn2 x| +
      |rowIn x - rowIn (x - 1)| + |rowIn x - rowIn1 x| +
      3 * (|rowIn2 x - rowIn1 x| + |rowIn (x - 1) - rowIn (x + 1)|)) ∨
      0 < rowIn x + matchGammaOffset := by
    by_cases bright : 0 < rowIn x + matchGammaOffset
    · exact .inr bright
    · exact .inl (mul_pos diffMul0_pos (stencil_pos rowIn rowIn1 rowIn2 x
        fun same => notFlat ⟨not_lt.mp bright, same⟩))
  unfold laneDiff pixelDiff
  dsimp only
  rw [sum]
  exact FloatVal.ite_fin_lt_eq_stdMin cutoff (weighted_ne_nan notBoth)

/-- **At a flat dark pixel a SIMD lane stores NaN**: the difference is `0`, the ratio `+inf`, and
`0 · inf` passes the clip, whose comparison is false. -/
theorem laneDiff_of_flatDark (rowIn rowIn1 rowIn2 : ℕ → F) {x : ℕ}
    (flat : FlatDark rowIn rowIn1 rowIn2 x) : laneDiff cutoff rowIn rowIn1 rowIn2 x = .nan := by
  obtain ⟨dark, right, left, up, down⟩ := flat
  simp only [laneDiff, right, left, up, down, sub_self, abs_zero, add_zero, mul_zero,
    ratioOfDerivativesOfCubicRootToSimpleGamma_false_of_nonpos dark, FloatVal.fin_zero_mul_inf,
    gt_iff_lt, FloatVal.not_lt_nan, if_false]

section Bounds

variable {cutoff} (nonneg : 0 ≤ cutoff)
include nonneg

/-- `std::min(cutoff, d · ratio(v))` of a difference `d ≥ 0` is a finite value in `[0, cutoff]`:
`std::min` returns `cutoff` at `+inf` and at the NaN of `0 · inf`. -/
theorem stdMin_weighted_finIn {d : F} (diffNonneg : 0 ≤ d) (v : F) : FloatVal.FinIn 0 cutoff
    (FloatVal.stdMin (.fin cutoff) (.fin d * ratioOfDerivativesOfCubicRootToSimpleGamma false v)) := by
  by_cases bright : 0 < v
  · obtain ⟨r, ratio, positive⟩ := ratioOfDerivativesOfCubicRootToSimpleGamma_false_of_pos bright
    rw [ratio, FloatVal.fin_mul_fin, FloatVal.stdMin_fin_fin, FloatVal.finIn_fin]
    exact ⟨le_min nonneg (mul_nonneg diffNonneg positive.le), min_le_left _ _⟩
  · rw [ratioOfDerivativesOfCubicRootToSimpleGamma_false_of_nonpos (not_lt.mp bright)]
    rcases diffNonneg.eq_or_lt with zero | positive
    · rw [← zero, FloatVal.fin_zero_mul_inf, FloatVal.stdMin_nan]
      exact ⟨nonneg, le_rfl⟩
    · rw [FloatVal.fin_mul_inf_of_pos positive, FloatVal.stdMin_fin_inf_false]
      exact ⟨nonneg, le_rfl⟩

theorem pixelDiff_finIn (rowIn rowIn1 rowIn2 : ℕ → F) (x x1 x2 : ℕ) :
    FloatVal.FinIn 0 cutoff (pixelDiff cutoff rowIn rowIn1 rowIn2 x x1 x2) :=
  stdMin_weighted_finIn nonneg (mul_nonneg diffMul0_pos.le (by positivity)) _

theorem edgeDiff_finIn (v w : F) : FloatVal.FinIn 0 cutoff (edgeDiff cutoff v w) :=
  stdMin_weighted_finIn nonneg (mul_nonneg (mul_nonneg (by norm_num) diffMul0_pos.le) (abs_nonneg _)) _

end Bounds

end Pixel

section Padding

/-- `lastval` of the extension of a row: the mean of its last three (two, one) samples, summed as
the source sums them. -/
def paddingMean (size : ℕ) (sample : ℕ → FloatVal F) : FloatVal F :=
  if size ≥ 3 then (sample (size - 1) + sample (size - 3) + sample (size - 2)) * .fin (1 / 3)
  else if size ≥ 2 then (sample (size - 1) + sample (size - 2)) * .fin 0.5
  else sample (size - 1)

/-- `lastval` of the extension of a column, which sums the same samples in another order. -/
def columnPaddingMean (size : ℕ) (sample : ℕ → FloatVal F) : FloatVal F :=
  if size ≥ 3 then (sample (size - 1) + sample (size - 2) + sample (size - 3)) * .fin (1 / 3)
  else if size ≥ 2 then (sample (size - 1) + sample (size - 2)) * .fin 0.5
  else sample (size - 1)

/-- The two orders give one mean. -/
theorem columnPaddingMean_eq (size : ℕ) (sample : ℕ → FloatVal F) :
    columnPaddingMean size sample = paddingMean size sample := by
  unfold columnPaddingMean paddingMean
  rw [FloatVal.add_add_swap (sample (size - 1))]

/-- The mean reads only the samples up to `size - 1`. -/
theorem paddingMean_congr {size : ℕ} {sample sample' : ℕ → FloatVal F}
    (same : ∀ x ≤ size - 1, sample x = sample' x) :
    paddingMean size sample = paddingMean size sample' := by
  unfold paddingMean
  rw [same (size - 1) le_rfl, same (size - 2) (by omega), same (size - 3) (by omega)]

/-- A mean of finite samples in `[lo, hi]` is a finite value in `[lo, hi]`. -/
theorem paddingMean_finIn {size : ℕ} {sample : ℕ → FloatVal F} {lo hi : F}
    (bounded : ∀ x ≤ size - 1, FloatVal.FinIn lo hi (sample x)) :
    FloatVal.FinIn lo hi (paddingMean size sample) := by
  obtain ⟨a, isA, aIn⟩ := FloatVal.finIn_iff.mp (bounded (size - 1) le_rfl)
  obtain ⟨b, isB, bIn⟩ := FloatVal.finIn_iff.mp (bounded (size - 2) (by omega))
  obtain ⟨c, isC, cIn⟩ := FloatVal.finIn_iff.mp (bounded (size - 3) (by omega))
  unfold paddingMean
  rw [isA, isB, isC]
  split_ifs
  all_goals simp only [FloatVal.fin_add_fin, FloatVal.fin_mul_fin, FloatVal.finIn_fin, Set.mem_Icc]
  all_goals first | exact aIn | constructor <;> linarith only [aIn.1, aIn.2, bIn.1, bIn.2, cIn.1, cIn.2]

end Padding

section Loops

variable (lanes : ℕ+) (xsize : ℕ) (cutoff : F) (rowIn rowIn1 rowIn2 : ℕ → F) (y : ℕ)

/-- The SIMD loop `for (; x + 1 + Lanes(df) < xsize; x += Lanes(df))` of row `y`, storing the
lanes `x, …, x + Lanes(df) - 1`; `fuel` bounds the number of steps. -/
def diffSimdLoop : (fuel x : ℕ) → Plane (FloatVal F) → ℕ × Plane (FloatVal F)
  | 0, x, out => (x, out)
  | fuel + 1, x, out =>
    if x + 1 + lanes < xsize then
      diffSimdLoop fuel (x + lanes) ((List.range lanes).foldl
        (fun out j => out.set (x + j) y (laneDiff cutoff rowIn rowIn1 rowIn2 (x + j))) out)
    else (x, out)

/-- The scalar loop `for (; x + 1 < xsize; ++x)` of row `y`; `fuel` bounds the number of steps. -/
def diffScalarLoop : (fuel x : ℕ) → Plane (FloatVal F) → ℕ × Plane (FloatVal F)
  | 0, x, out => (x, out)
  | fuel + 1, x, out =>
    if x + 1 < xsize then
      diffScalarLoop fuel (x + 1)
        (out.set x y (pixelDiff cutoff rowIn rowIn1 rowIn2 x (x - 1) (x + 1)))
    else (x, out)

/-- Where the SIMD loop stops when it starts at `x`: after `(xsize - x - 2) / Lanes(df)` steps,
the last ones that leave a pixel to the right of every lane. -/
def diffSimdEnd (xsize x : ℕ) : ℕ := x + lanes * ((xsize - x - 2) / lanes)

/-- With enough fuel the SIMD loop writes its lanes on `[x, diffSimdEnd x)` and stops there. -/
theorem diffSimdLoop_eq : ∀ (fuel x : ℕ) (out : Plane (FloatVal F)), xsize ≤ x + fuel →
    diffSimdLoop lanes xsize cutoff rowIn rowIn1 rowIn2 y fuel x out = (diffSimdEnd lanes xsize x,
      out.writeRow y x (diffSimdEnd lanes xsize x) (laneDiff cutoff rowIn rowIn1 rowIn2))
  | 0, x, out, enough => by
    have stop : diffSimdEnd lanes xsize x = x := by
      rw [diffSimdEnd, Nat.div_eq_of_lt (by have := lanes.pos; omega), Nat.mul_zero, Nat.add_zero]
    rw [diffSimdLoop, stop, Plane.writeRow_of_le _ _ le_rfl]
  | fuel + 1, x, out, enough => by
    have := lanes.pos
    rw [diffSimdLoop]
    split_ifs with room
    · have split : (xsize - x - 2) / lanes = (xsize - (x + lanes) - 2) / lanes + 1 := by
        rw [Nat.div_eq_sub_div lanes.pos (by omega : (lanes : ℕ) ≤ xsize - x - 2),
          show xsize - x - 2 - lanes = xsize - (x + lanes) - 2 by omega]
      have step : diffSimdEnd lanes xsize (x + lanes) = diffSimdEnd lanes xsize x := by
        rw [diffSimdEnd, diffSimdEnd, split]
        ring
      have after : x + lanes ≤ diffSimdEnd lanes xsize x := by
        rw [← step, diffSimdEnd]
        exact Nat.le_add_right _ _
      rw [Plane.foldl_set_eq_writeRow y x (laneDiff cutoff rowIn rowIn1 rowIn2),
        diffSimdLoop_eq fuel (x + lanes) _ (by omega), step,
        Plane.writeRow_writeRow _ _ _ (Nat.le_add_right x lanes), max_eq_right after]
    · have stop : diffSimdEnd lanes xsize x = x := by
        rw [diffSimdEnd, Nat.div_eq_of_lt (by omega), Nat.mul_zero, Nat.add_zero]
      rw [stop, Plane.writeRow_of_le _ _ le_rfl]

/-- With enough fuel the scalar loop writes the inner stencil on `[x, xsize - 1)` and stops at
`max x (xsize - 1)`. -/
theorem diffScalarLoop_eq : ∀ (fuel x : ℕ) (out : Plane (FloatVal F)), xsize ≤ x + fuel →
    diffScalarLoop xsize cutoff rowIn rowIn1 rowIn2 y fuel x out = (max x (xsize - 1),
      out.writeRow y x (xsize - 1) fun c => pixelDiff cutoff rowIn rowIn1 rowIn2 c (c - 1) (c + 1))
  | 0, x, out, enough => by
    rw [diffScalarLoop, max_eq_left (by omega), Plane.writeRow_of_le _ _ (by omega)]
  | fuel + 1, x, out, enough => by
    rw [diffScalarLoop]
    split_ifs with room
    · rw [Plane.set_eq_writeRow out y x fun c => pixelDiff cutoff rowIn rowIn1 rowIn2 c (c - 1) (c + 1),
        diffScalarLoop_eq fuel (x + 1) _ (by omega), Plane.writeRow_writeRow _ _ _ (Nat.le_succ x),
        max_eq_right (by omega : x + 1 ≤ xsize - 1), max_eq_right (by omega : x ≤ xsize - 1)]
    · rw [max_eq_left (by omega), Plane.writeRow_of_le _ _ (by omega)]

/-- `lastX`, the column of the last-pixel branch: `xsize - 1`, or 1 in an image of one column,
whose first-pixel branch leaves `x = 1`. -/
def diffLastX (xsize : ℕ) : ℕ := max 1 (xsize - 1)

/-- From `x = 1` the SIMD loop stops between 1 and `lastX`, with room for its last lane's right
neighbour. -/
theorem diffSimdEnd_le : 1 ≤ diffSimdEnd lanes xsize 1 ∧ diffSimdEnd lanes xsize 1 ≤ diffLastX xsize ∧
    (diffSimdEnd lanes xsize 1 = 1 ∨ diffSimdEnd lanes xsize 1 + 2 ≤ xsize) := by
  have steps := Nat.mul_div_le (xsize - 1 - 2) lanes
  unfold diffSimdEnd diffLastX
  omega

/-- **The two loops of a row**: from `x = 1`, the SIMD loop writes its lanes on `[1, simdEnd)`,
the scalar loop the inner stencil on `[simdEnd, lastX)`, and they stop at `lastX`. -/
theorem diffScalarLoop_diffSimdLoop (out : Plane (FloatVal F)) :
    let simd := diffSimdLoop lanes xsize cutoff rowIn rowIn1 rowIn2 y xsize 1 out
    diffScalarLoop xsize cutoff rowIn rowIn1 rowIn2 y xsize simd.1 simd.2 = (diffLastX xsize,
      (out.writeRow y 1 (diffSimdEnd lanes xsize 1) (laneDiff cutoff rowIn rowIn1 rowIn2)).writeRow y
        (diffSimdEnd lanes xsize 1) (diffLastX xsize)
          fun c => pixelDiff cutoff rowIn rowIn1 rowIn2 c (c - 1) (c + 1)) := by
  obtain ⟨start, stop, room⟩ := diffSimdEnd_le lanes xsize
  simp only [diffSimdLoop_eq lanes xsize cutoff rowIn rowIn1 rowIn2 y xsize 1 out (by omega)]
  rw [diffScalarLoop_eq xsize cutoff rowIn rowIn1 rowIn2 y xsize _ _ (by omega)]
  rcases Nat.lt_or_ge xsize 2 with narrow | wide
  · rw [Plane.writeRow_of_le _ _ (by omega : xsize - 1 ≤ diffSimdEnd lanes xsize 1),
      Plane.writeRow_of_le _ _ (by unfold diffLastX; omega : diffLastX xsize ≤ diffSimdEnd lanes xsize 1)]
    unfold diffLastX
    congr 1
    omega
  · have last : diffLastX xsize = xsize - 1 := by unfold diffLastX; omega
    rw [last, max_eq_right (last ▸ stop)]

end Loops

section Row

variable (xyb : Image3 F) (xsize ysize : ℕ) (cutoff : F)

/-- `y2`, the row below `y` in the stencil: `y + 1`, or `y - 1` on the last row, or `y` in an
image of one row. -/
def diffRow2 (y : ℕ) : ℕ := if y + 1 < ysize then y + 1 else if y > 0 then y - 1 else y

/-- `y1`, the row above `y` in the stencil: `y - 1`, or `y + 1` on the first row, or `y` in an
image of one row. -/
def diffRow1 (y : ℕ) : ℕ := if y = 0 ∧ ysize ≥ 2 then y + 1 else if y > 0 then y - 1 else y

variable {ysize} in
/-- Above the last row, the stencil reads the row below and mirrors the row above on the first row. -/
theorem diffRow1_of_lt {y : ℕ} (inner : y + 1 < ysize) :
    diffRow1 ysize y = if y = 0 then y + 1 else y - 1 := by
  unfold diffRow1
  split_ifs <;> omega

variable {ysize} in
theorem diffRow2_of_lt {y : ℕ} (inner : y + 1 < ysize) : diffRow2 ysize y = y + 1 :=
  if_pos inner

/-- **One task of the row pass** of `DiffPrecompute`: row `y` of `out` from row `y` of the opsin
`Y` plane and its neighbours; the first pixel, the SIMD and the scalar loop, the last pixel, and
the extension to the `paddedXsize` columns of `padded_diff` by the mean of the row's last samples. -/
def diffPrecomputeRow (lanes : ℕ+) (paddedXsize y : ℕ) (out : Plane (FloatVal F)) :
    Plane (FloatVal F) :=
  let rowIn := xyb.plane 1 y
  let rowIn1 := xyb.plane 1 (diffRow1 ysize y)
  let rowIn2 := xyb.plane 1 (diffRow2 ysize y)
  -- First pixel of the row.
  let x2 := if xsize < 1 then 0 else 1
  let x1 := x2
  let out := out.set 0 y (pixelDiff cutoff rowIn rowIn1 rowIn2 0 x1 x2)
  let simd := diffSimdLoop lanes xsize cutoff rowIn rowIn1 rowIn2 y xsize 1 out
  let scalar := diffScalarLoop xsize cutoff rowIn rowIn1 rowIn2 y xsize simd.1 simd.2
  -- Last pixel of the row.
  let x := scalar.1
  let out := scalar.2.set x y (edgeDiff cutoff (rowIn x) (rowIn2 x))
  let x := x + 1
  -- Extend to multiple of 8 columns.
  out.fillRect x y (paddedXsize - x) 1 (paddingMean xsize (out.row y))

/-- The samples the row pass computes in row `y`: the first pixel at 0, the SIMD lanes on
`[1, simdEnd)`, the inner stencil on `[simdEnd, lastX)` and the last pixel at `lastX`. -/
def diffRowComputed (lanes : ℕ+) (y x : ℕ) : FloatVal F :=
  let rowIn := xyb.plane 1 y
  let rowIn1 := xyb.plane 1 (diffRow1 ysize y)
  let rowIn2 := xyb.plane 1 (diffRow2 ysize y)
  let x2 := if xsize < 1 then 0 else 1
  if x = 0 then pixelDiff cutoff rowIn rowIn1 rowIn2 0 x2 x2
  else if x < diffSimdEnd lanes xsize 1 then laneDiff cutoff rowIn rowIn1 rowIn2 x
  else if x < diffLastX xsize then pixelDiff cutoff rowIn rowIn1 rowIn2 x (x - 1) (x + 1)
  else edgeDiff cutoff (rowIn x) (rowIn2 x)

/-- **Row `y` after its task**: the computed samples up to `lastX` and, beyond it, the mean of the
row's last computed samples. -/
def diffRowValue (lanes : ℕ+) (y x : ℕ) : FloatVal F :=
  if x ≤ diffLastX xsize then diffRowComputed xyb xsize ysize cutoff lanes y x
  else paddingMean xsize (diffRowComputed xyb xsize ysize cutoff lanes y)

/-- After the last pixel, row `y` holds the computed samples up to `lastX`. -/
theorem diffRowComputed_eq_row (lanes : ℕ+) (y : ℕ) (out : Plane (FloatVal F)) :
    let rowIn := xyb.plane 1 y
    let rowIn1 := xyb.plane 1 (diffRow1 ysize y)
    let rowIn2 := xyb.plane 1 (diffRow2 ysize y)
    let x2 := if xsize < 1 then 0 else 1
    ((((out.set 0 y (pixelDiff cutoff rowIn rowIn1 rowIn2 0 x2 x2)).writeRow y 1
      (diffSimdEnd lanes xsize 1) (laneDiff cutoff rowIn rowIn1 rowIn2)).writeRow y
        (diffSimdEnd lanes xsize 1) (diffLastX xsize)
          fun c => pixelDiff cutoff rowIn rowIn1 rowIn2 c (c - 1) (c + 1)).set (diffLastX xsize) y
        (edgeDiff cutoff (rowIn (diffLastX xsize)) (rowIn2 (diffLastX xsize)))).row =
      fun y' x => if y' = y ∧ x ≤ diffLastX xsize then diffRowComputed xyb xsize ysize cutoff lanes y x
        else out.row y' x := by
  obtain ⟨start, stop, -⟩ := diffSimdEnd_le lanes xsize
  funext y' x
  simp only [Plane.set_row, Plane.writeRow_row]
  by_cases row : y' = y
  · subst row
    simp only [and_true, true_and, diffRowComputed]
    rcases Nat.eq_zero_or_pos x with rfl | pos
    · -- the first pixel
      rw [if_neg (by omega), if_neg (by omega), if_neg (by omega), if_pos rfl, if_pos (Nat.zero_le _),
        if_pos rfl]
    rcases Nat.lt_or_ge x (diffSimdEnd lanes xsize 1) with lane | afterLanes
    · -- the SIMD lanes
      rw [if_neg (by omega), if_neg (by omega), if_pos ⟨pos, lane⟩, if_pos (by omega), if_neg pos.ne',
        if_pos lane]
    rcases Nat.lt_or_ge x (diffLastX xsize) with scalar | afterScalar
    · -- the scalar loop
      rw [if_neg scalar.ne, if_pos ⟨afterLanes, scalar⟩, if_pos scalar.le, if_neg pos.ne',
        if_neg afterLanes.not_lt, if_pos scalar]
    rcases afterScalar.eq_or_lt with rfl | past
    · -- the last pixel
      rw [if_pos rfl, if_pos le_rfl, if_neg pos.ne', if_neg afterLanes.not_lt, if_neg (lt_irrefl _)]
    · -- past the last pixel
      rw [if_neg past.ne', if_neg (by omega), if_neg (by omega), if_neg (by omega), if_neg past.not_le]
  · simp only [row, and_false, false_and, if_false]

@[simp] theorem diffPrecomputeRow_xsize (lanes : ℕ+) (paddedXsize y : ℕ) (out : Plane (FloatVal F)) :
    (diffPrecomputeRow xyb xsize ysize cutoff lanes paddedXsize y out).xsize = out.xsize := by
  unfold diffPrecomputeRow
  simp only [diffScalarLoop_diffSimdLoop, Plane.fillRect_xsize, Plane.set_xsize,
    Plane.writeRow_xsize]

@[simp] theorem diffPrecomputeRow_ysize (lanes : ℕ+) (paddedXsize y : ℕ) (out : Plane (FloatVal F)) :
    (diffPrecomputeRow xyb xsize ysize cutoff lanes paddedXsize y out).ysize = out.ysize := by
  unfold diffPrecomputeRow
  simp only [diffScalarLoop_diffSimdLoop, Plane.fillRect_ysize, Plane.set_ysize,
    Plane.writeRow_ysize]

variable (lanes : ℕ+) {paddedXsize : ℕ} (edge : diffLastX xsize < paddedXsize)
include edge

/-- **The task of row `y` writes `diffRowValue` on the padded width of row `y`** and nothing else. -/
theorem diffPrecomputeRow_row (y : ℕ) (out : Plane (FloatVal F)) (y' x : ℕ) :
    (diffPrecomputeRow xyb xsize ysize cutoff lanes paddedXsize y out).row y' x =
      if y' = y ∧ x < paddedXsize then diffRowValue xyb xsize ysize cutoff lanes y x
      else out.row y' x := by
  have loops := diffScalarLoop_diffSimdLoop lanes xsize cutoff (xyb.plane 1 y)
    (xyb.plane 1 (diffRow1 ysize y)) (xyb.plane 1 (diffRow2 ysize y)) y
    (out.set 0 y (pixelDiff cutoff (xyb.plane 1 y) (xyb.plane 1 (diffRow1 ysize y))
      (xyb.plane 1 (diffRow2 ysize y)) 0 (if xsize < 1 then 0 else 1) (if xsize < 1 then 0 else 1)))
  have lastval : paddingMean xsize (fun x => if y = y ∧ x ≤ diffLastX xsize then
      diffRowComputed xyb xsize ysize cutoff lanes y x else out.row y x) =
      paddingMean xsize (diffRowComputed xyb xsize ysize cutoff lanes y) :=
    paddingMean_congr fun x le => if_pos ⟨rfl, le.trans (le_max_right _ _)⟩
  unfold diffPrecomputeRow
  simp only [loops]
  rw [Plane.fillRect_row, diffRowComputed_eq_row, lastval]
  beta_reduce
  rw [diffRowValue]
  split_ifs <;> first | omega | rfl

end Row

section Image

variable (xyb : Image3 F) (xsize ysize : ℕ) (cutoff : F)

/-- The row pass of `RunOnPool`: the tasks of rows `0, …, ysize - 1` one after the other (each
writes only its own row, so their order does not matter). -/
def diffRowPass (lanes : ℕ+) (paddedXsize : ℕ) (out : Plane (FloatVal F)) : Plane (FloatVal F) :=
  (List.range ysize).foldl
    (fun out y => diffPrecomputeRow xyb xsize ysize cutoff lanes paddedXsize y out) out

/-- The pass over the last row, `7·mul0·|P - P_right|` on `[0, xsize - 1)`, and its last pixel,
a copy of the sample to its left. -/
def diffLastRowPass (out : Plane (FloatVal F)) : Plane (FloatVal F) :=
  let y := ysize - 1
  let rowIn := xyb.plane 1 y
  let out := (List.range (xsize - 1)).foldl
    (fun out x => out.set x y (edgeDiff cutoff (rowIn x) (rowIn (x + 1)))) out
  -- Last pixel of the last row.
  let x := xsize - 1
  if x > 0 then out.set x y (out.row y (x - 1)) else out

/-- The extension to `paddedYsize` rows: each column below row `ysize` gets the mean of its last
samples. -/
def diffExtendRows (paddedXsize paddedYsize : ℕ) (out : Plane (FloatVal F)) : Plane (FloatVal F) :=
  if ysize ≠ paddedYsize then
    (List.range paddedXsize).foldl (fun out x =>
      out.fillRect x ysize 1 (paddedYsize - ysize) (columnPaddingMean ysize fun y => out.row y x)) out
  else out

/-- **`DiffPrecompute`** of the opsin image: the row pass, the last row, the extension to whole
blocks; `garbage` holds the samples of the freshly allocated `padded_diff`. -/
def diffPrecompute (lanes : ℕ+) (garbage : ℕ → ℕ → FloatVal F) : Plane (FloatVal F) :=
  let paddedXsize := roundUpToBlockDim xsize
  let paddedYsize := roundUpToBlockDim ysize
  let paddedDiff : Plane (FloatVal F) := ⟨paddedXsize, paddedYsize, garbage⟩
  diffExtendRows ysize paddedXsize paddedYsize
    (diffLastRowPass xyb xsize ysize cutoff (diffRowPass xyb xsize ysize cutoff lanes paddedXsize paddedDiff))

/-- The last row after its own pass: the right-neighbour difference up to column `xsize - 2`, a
copy of it at `xsize - 1` when `xsize ≥ 2`, and the row pass's samples elsewhere. -/
def diffLastRowValue (lanes : ℕ+) (x : ℕ) : FloatVal F :=
  let rowIn := xyb.plane 1 (ysize - 1)
  if x + 1 < xsize then edgeDiff cutoff (rowIn x) (rowIn (x + 1))
  else if x = xsize - 1 ∧ x > 0 then edgeDiff cutoff (rowIn (x - 1)) (rowIn x)
  else diffRowValue xyb xsize ysize cutoff lanes (ysize - 1) x

/-- The rows of the image after both passes. -/
def diffImageValue (lanes : ℕ+) (y x : ℕ) : FloatVal F :=
  if y + 1 < ysize then diffRowValue xyb xsize ysize cutoff lanes y x
  else diffLastRowValue xyb xsize ysize cutoff lanes x

/-- **Every sample of `DiffPrecompute`**: the rows of the image, and below them the mean of the
last samples of the column. -/
def diffPrecomputeValue (lanes : ℕ+) (y x : ℕ) : FloatVal F :=
  if y < ysize then diffImageValue xyb xsize ysize cutoff lanes y x
  else paddingMean ysize fun y => diffImageValue xyb xsize ysize cutoff lanes y x

section Passes

variable {xsize} (lanes : ℕ+) {paddedXsize : ℕ} (edge : diffLastX xsize < paddedXsize)
include edge

/-- The first `n` tasks write `diffRowValue` on rows `0, …, n - 1`, up to the padded width. -/
theorem foldl_diffPrecomputeRow_row (out : Plane (FloatVal F)) : ∀ (n y x : ℕ),
    ((List.range n).foldl (fun out y => diffPrecomputeRow xyb xsize ysize cutoff lanes paddedXsize y out)
      out).row y x =
      if y < n ∧ x < paddedXsize then diffRowValue xyb xsize ysize cutoff lanes y x else out.row y x
  | 0, y, x => by rw [List.range_zero, List.foldl_nil, if_neg (by omega)]
  | n + 1, y, x => by
    rw [List.range_succ, List.foldl_append, List.foldl_cons, List.foldl_nil,
      diffPrecomputeRow_row xyb xsize ysize cutoff lanes edge, foldl_diffPrecomputeRow_row out n]
    rcases lt_trichotomy y n with before | rfl | after
    · simp only [before.ne, before, before.trans (Nat.lt_succ_self n), false_and, true_and, if_false]
    · simp only [lt_irrefl, Nat.lt_succ_self, true_and, false_and, if_false]
    · simp only [after.ne', after.not_lt, (Nat.succ_le_of_lt after).not_lt, false_and, if_false]

/-- **The row pass writes `diffRowValue` on every row of the image**, up to the padded width. -/
theorem diffRowPass_row (out : Plane (FloatVal F)) (y x : ℕ) :
    (diffRowPass xyb xsize ysize cutoff lanes paddedXsize out).row y x =
      if y < ysize ∧ x < paddedXsize then diffRowValue xyb xsize ysize cutoff lanes y x
      else out.row y x :=
  foldl_diffPrecomputeRow_row xyb ysize cutoff lanes edge out ysize y x

end Passes

/-- **The last-row pass** writes the right-neighbour difference on `[0, xsize - 1)` of row
`ysize - 1` and copies it into column `xsize - 1` when there is a column to its left. -/
theorem diffLastRowPass_row (out : Plane (FloatVal F)) (y x : ℕ) :
    (diffLastRowPass xyb xsize ysize cutoff out).row y x =
      let rowIn := xyb.plane 1 (ysize - 1)
      if y = ysize - 1 ∧ x + 1 < xsize then edgeDiff cutoff (rowIn x) (rowIn (x + 1))
      else if y = ysize - 1 ∧ x = xsize - 1 ∧ x > 0 then edgeDiff cutoff (rowIn (x - 1)) (rowIn x)
      else out.row y x := by
  have loop := Plane.foldl_set_eq_writeRow (ysize - 1) 0
    (fun x => edgeDiff cutoff (xyb.plane 1 (ysize - 1) x) (xyb.plane 1 (ysize - 1) (x + 1)))
    (xsize - 1) out
  simp only [Nat.zero_add] at loop
  unfold diffLastRowPass
  dsimp only
  rw [loop]
  split_ifs with copied <;> simp only [Plane.set_row, Plane.writeRow_row, true_and] <;>
    split_ifs with here <;>
    first | omega | rfl | rw [here.1, Nat.sub_add_cancel (by omega : 1 ≤ xsize - 1)]

/-- The first `n` columns of the extension: each column below row `ysize` gets the mean of its
last samples, which the earlier columns leave unchanged. -/
theorem foldl_fillRect_column_row (paddedYsize : ℕ) (out : Plane (FloatVal F)) : ∀ (n y x : ℕ),
    ((List.range n).foldl (fun out x => out.fillRect x ysize 1 (paddedYsize - ysize)
      (columnPaddingMean ysize fun y => out.row y x)) out).row y x =
      if x < n ∧ ysize ≤ y ∧ y < paddedYsize then columnPaddingMean ysize (fun y => out.row y x)
      else out.row y x
  | 0, y, x => by rw [List.range_zero, List.foldl_nil, if_neg (by omega)]
  | n + 1, y, x => by
    rw [List.range_succ, List.foldl_append, List.foldl_cons, List.foldl_nil, Plane.fillRect_row]
    simp only [foldl_fillRect_column_row paddedYsize out n, lt_irrefl, false_and, if_false]
    split_ifs <;> first | omega | rfl | (obtain rfl : x = n := (by omega); rfl)

/-- The extension of the rows gives every padding sample below row `ysize` the mean of the last
samples of its column. -/
theorem diffExtendRows_row (paddedXsize paddedYsize : ℕ) (out : Plane (FloatVal F)) (y x : ℕ) :
    (diffExtendRows ysize paddedXsize paddedYsize out).row y x =
      if x < paddedXsize ∧ ysize ≤ y ∧ y < paddedYsize then
        columnPaddingMean ysize (fun y => out.row y x)
      else out.row y x := by
  unfold diffExtendRows
  by_cases padded : ysize ≠ paddedYsize
  · rw [if_pos padded, foldl_fillRect_column_row]
  · rw [if_neg padded, if_neg (by omega)]

/-- The passes keep the size of the plane. -/
theorem diffRowPass_size (lanes : ℕ+) (paddedXsize : ℕ) (out : Plane (FloatVal F)) :
    (diffRowPass xyb xsize ysize cutoff lanes paddedXsize out).xsize = out.xsize ∧
      (diffRowPass xyb xsize ysize cutoff lanes paddedXsize out).ysize = out.ysize :=
  Plane.foldl_size _ (fun p y => ⟨diffPrecomputeRow_xsize xyb xsize ysize cutoff lanes paddedXsize y p,
    diffPrecomputeRow_ysize xyb xsize ysize cutoff lanes paddedXsize y p⟩) _ out

theorem diffLastRowPass_size (out : Plane (FloatVal F)) :
    (diffLastRowPass xyb xsize ysize cutoff out).xsize = out.xsize ∧
      (diffLastRowPass xyb xsize ysize cutoff out).ysize = out.ysize := by
  have loop := Plane.foldl_size (fun (p : Plane (FloatVal F)) x => p.set x (ysize - 1)
    (edgeDiff cutoff (xyb.plane 1 (ysize - 1) x) (xyb.plane 1 (ysize - 1) (x + 1))))
    (fun _ _ => ⟨rfl, rfl⟩) (List.range (xsize - 1)) out
  unfold diffLastRowPass
  dsimp only
  split_ifs
  · exact loop
  · exact loop

theorem diffExtendRows_size (paddedXsize paddedYsize : ℕ) (out : Plane (FloatVal F)) :
    (diffExtendRows ysize paddedXsize paddedYsize out).xsize = out.xsize ∧
      (diffExtendRows ysize paddedXsize paddedYsize out).ysize = out.ysize := by
  unfold diffExtendRows
  split_ifs
  · exact Plane.foldl_size _ (fun _ _ => ⟨Plane.fillRect_xsize _ _ _ _ _ _,
      Plane.fillRect_ysize _ _ _ _ _ _⟩) _ out
  · exact ⟨rfl, rfl⟩

/-- `DiffPrecompute` returns a map of the padded size, a whole number of blocks each way. -/
theorem diffPrecompute_size (lanes : ℕ+) (garbage : ℕ → ℕ → FloatVal F) :
    (diffPrecompute xyb xsize ysize cutoff lanes garbage).xsize = roundUpToBlockDim xsize ∧
      (diffPrecompute xyb xsize ysize cutoff lanes garbage).ysize = roundUpToBlockDim ysize := by
  unfold diffPrecompute
  dsimp only
  rw [(diffExtendRows_size _ _ _ _).1, (diffExtendRows_size _ _ _ _).2,
    (diffLastRowPass_size _ _ _ _ _).1, (diffLastRowPass_size _ _ _ _ _).2,
    (diffRowPass_size _ _ _ _ _ _ _).1, (diffRowPass_size _ _ _ _ _ _ _).2]
  exact ⟨rfl, rfl⟩

end Image

section Result

theorem le_roundUpToBlockDim (size : ℕ) : size ≤ roundUpToBlockDim size := by
  unfold roundUpToBlockDim divCeil kBlockDim
  omega

theorem diffLastX_lt_roundUpToBlockDim {xsize : ℕ} (wide : 1 ≤ xsize) :
    diffLastX xsize < roundUpToBlockDim xsize := by
  unfold diffLastX roundUpToBlockDim divCeil kBlockDim
  omega

variable (xyb : Image3 F) {xsize ysize : ℕ} (cutoff : F) (wide : 1 ≤ xsize) (tall : 1 ≤ ysize)
include wide tall

/-- Before the extension of the rows, the image rows hold `diffImageValue` up to the padded width. -/
theorem diffLastRowPass_diffRowPass_row (lanes : ℕ+) (garbage : ℕ → ℕ → FloatVal F) (y x : ℕ) :
    (diffLastRowPass xyb xsize ysize cutoff (diffRowPass xyb xsize ysize cutoff lanes
      (roundUpToBlockDim xsize) ⟨roundUpToBlockDim xsize, roundUpToBlockDim ysize, garbage⟩)).row y x =
      if y < ysize ∧ x < roundUpToBlockDim xsize then diffImageValue xyb xsize ysize cutoff lanes y x
      else garbage y x := by
  have edge := diffLastX_lt_roundUpToBlockDim wide
  have wider := le_roundUpToBlockDim xsize
  rw [diffLastRowPass_row, diffRowPass_row xyb ysize cutoff lanes edge]
  unfold diffImageValue diffLastRowValue
  dsimp only
  rcases Nat.lt_or_ge (y + 1) ysize with inner | outer
  · -- a row above the last: the row pass's value
    simp only [show y ≠ ysize - 1 by omega, false_and, if_false, inner, if_true]
  rcases Nat.lt_or_ge y ysize with last | below
  · -- the last row
    obtain rfl : y = ysize - 1 := by omega
    simp only [true_and, last, outer.not_lt, if_false]
    split_ifs <;> first | rfl | omega
  · -- below the image
    simp only [show y ≠ ysize - 1 by omega, false_and, if_false, below.not_lt]

/-- **Every sample of `DiffPrecompute`** in the padded map is `diffPrecomputeValue`, whatever the
fresh map held: the passes write every sample. -/
theorem diffPrecompute_row (lanes : ℕ+) (garbage : ℕ → ℕ → FloatVal F) (y x : ℕ) :
    (diffPrecompute xyb xsize ysize cutoff lanes garbage).row y x =
      if x < roundUpToBlockDim xsize ∧ y < roundUpToBlockDim ysize then
        diffPrecomputeValue xyb xsize ysize cutoff lanes y x
      else garbage y x := by
  have taller := le_roundUpToBlockDim ysize
  unfold diffPrecompute
  dsimp only
  simp only [diffExtendRows_row, diffLastRowPass_diffRowPass_row xyb cutoff wide tall]
  unfold diffPrecomputeValue
  split_ifs <;> first | rfl | omega |
    (rw [columnPaddingMean_eq]; exact paddingMean_congr fun _ _ => if_pos ⟨by omega, by omega⟩)

/-- The rows of the image hold `diffImageValue` up to the padded width. -/
theorem diffPrecompute_image_row (lanes : ℕ+) (garbage : ℕ → ℕ → FloatVal F) {y x : ℕ}
    (inImage : y < ysize) (left : x < roundUpToBlockDim xsize) :
    (diffPrecompute xyb xsize ysize cutoff lanes garbage).row y x =
      diffImageValue xyb xsize ysize cutoff lanes y x := by
  rw [diffPrecompute_row xyb cutoff wide tall,
    if_pos ⟨left, inImage.trans_le (le_roundUpToBlockDim ysize)⟩, diffPrecomputeValue, if_pos inImage]

/-- The rows above the last keep what their task wrote. -/
theorem diffPrecompute_upper_row (lanes : ℕ+) (garbage : ℕ → ℕ → FloatVal F) {y x : ℕ}
    (inner : y + 1 < ysize) (left : x < roundUpToBlockDim xsize) :
    (diffPrecompute xyb xsize ysize cutoff lanes garbage).row y x =
      diffRowValue xyb xsize ysize cutoff lanes y x := by
  rw [diffPrecompute_image_row xyb cutoff wide tall lanes garbage (by omega) left, diffImageValue,
    if_pos inner]

/-- The last row holds what the last-row pass left there. -/
theorem diffPrecompute_last_row (lanes : ℕ+) (garbage : ℕ → ℕ → FloatVal F) {y x : ℕ}
    (isLast : y + 1 = ysize) (left : x < roundUpToBlockDim xsize) :
    (diffPrecompute xyb xsize ysize cutoff lanes garbage).row y x =
      diffLastRowValue xyb xsize ysize cutoff lanes x := by
  rw [diffPrecompute_image_row xyb cutoff wide tall lanes garbage (by omega) left, diffImageValue,
    if_neg (by omega)]

/-- Every bottom-padding sample is the mean of the last final samples of its column. -/
theorem diffPrecompute_bottom (lanes : ℕ+) (garbage : ℕ → ℕ → FloatVal F) {y x : ℕ}
    (below : ysize ≤ y) (bottom : y < roundUpToBlockDim ysize) (left : x < roundUpToBlockDim xsize) :
    (diffPrecompute xyb xsize ysize cutoff lanes garbage).row y x = columnPaddingMean ysize fun y' =>
      (diffPrecompute xyb xsize ysize cutoff lanes garbage).row y' x := by
  rw [columnPaddingMean_eq, diffPrecompute_row xyb cutoff wide tall, if_pos ⟨left, bottom⟩,
    diffPrecomputeValue, if_neg (by omega)]
  exact paddingMean_congr fun y' le =>
    (diffPrecompute_image_row xyb cutoff wide tall lanes garbage (by omega) left).symm

end Result

/-- On one row of the two pixels `(1, 0)` the last row's right padding is the mean of the row
pass's samples there, `min(cutoff, 2·mul0·R)` and `0`, while both final samples of the row are
`min(cutoff, 7·mul0·R)`: the padding is not the mean of the final row. -/
theorem diffPrecompute_last_row_padding :
    let d : Plane (FloatVal ℚ) := diffPrecompute (⟨2, 1, fun _ _ x => if x = 0 then 1 else 0⟩ :
      Image3 ℚ) 2 1 1 1 fun _ _ => .fin 0
    d.row 0 2 ≠ paddingMean 2 (d.row 0) := by
  intro d
  have row : ∀ x < 8, d.row 0 x =
      diffLastRowValue (⟨2, 1, fun _ _ x => if x = 0 then 1 else 0⟩ : Image3 ℚ) 2 1 1 1 x :=
    fun x left => diffPrecompute_last_row _ 1 (by norm_num) le_rfl 1 _ rfl left
  obtain ⟨r, ratio, positive⟩ := ratioOfDerivativesOfCubicRootToSimpleGamma_false_of_pos
    (show (0 : ℚ) < 1 + matchGammaOffset by norm_num [matchGammaOffset])
  obtain ⟨r', ratio', -⟩ := ratioOfDerivativesOfCubicRootToSimpleGamma_false_of_pos
    (show (0 : ℚ) < matchGammaOffset by norm_num [matchGammaOffset])
  have weight : (0 : ℚ) < diffMul0 * r := mul_pos diffMul0_pos positive
  rw [paddingMean, row 2 (by norm_num), row 1 (by norm_num), row 0 (by norm_num)]
  simp [diffLastRowValue, diffRowValue, diffRowComputed, diffLastX, diffSimdEnd, diffRow1, diffRow2,
    paddingMean, edgeDiff, pixelDiff, ratio, ratio']
  norm_num
  rcases min_cases (1 : ℚ) (diffMul0 * 2 * r) with ⟨two, _⟩ | ⟨two, _⟩ <;>
    rcases min_cases (1 : ℚ) (7 * diffMul0 * r) with ⟨seven, _⟩ | ⟨seven, _⟩ <;>
    rw [two, seven] <;> intro same <;> linarith

section Flat

/-- No pixel that a SIMD lane can compute is flat and dark: the lanes never meet `0 · inf`. -/
def NoFlatDark (xyb : Image3 F) (xsize ysize : ℕ) : Prop :=
  ∀ y < ysize, ∀ x < xsize, 0 < x → x + 1 < xsize →
    ¬ FlatDark (xyb.plane 1 y) (xyb.plane 1 (diffRow1 ysize y)) (xyb.plane 1 (diffRow2 ysize y)) x

instance (xyb : Image3 F) (xsize ysize : ℕ) : Decidable (NoFlatDark xyb xsize ysize) :=
  Nat.decidableBallLT _ _

/-- An image whose `Y` samples are all above `-match_gamma_offset` has no flat dark pixel. -/
theorem noFlatDark_of_bright {xyb : Image3 F} (xsize ysize : ℕ)
    (bright : ∀ y x, 0 < xyb.plane 1 y x + matchGammaOffset) : NoFlatDark xyb xsize ysize :=
  fun y _ x _ _ _ flat => (bright y x).not_le flat.1

variable (xyb : Image3 F) {xsize ysize : ℕ} (cutoff : F)

/-- Away from flat dark pixels the row pass computes a row like its scalar branches alone. -/
theorem diffRowComputed_of_not_flat (lanes : ℕ+) {y x : ℕ}
    (notFlat : 0 < x → x < diffSimdEnd lanes xsize 1 →
      ¬ FlatDark (xyb.plane 1 y) (xyb.plane 1 (diffRow1 ysize y)) (xyb.plane 1 (diffRow2 ysize y)) x) :
    diffRowComputed xyb xsize ysize cutoff lanes y x =
      let rowIn := xyb.plane 1 y
      let rowIn1 := xyb.plane 1 (diffRow1 ysize y)
      let rowIn2 := xyb.plane 1 (diffRow2 ysize y)
      let x2 := if xsize < 1 then 0 else 1
      if x = 0 then pixelDiff cutoff rowIn rowIn1 rowIn2 0 x2 x2
      else if x < diffLastX xsize then pixelDiff cutoff rowIn rowIn1 rowIn2 x (x - 1) (x + 1)
      else edgeDiff cutoff (rowIn x) (rowIn2 x) := by
  obtain ⟨-, stop, -⟩ := diffSimdEnd_le lanes xsize
  unfold diffRowComputed
  dsimp only
  split_ifs <;> first | rfl | omega | exact laneDiff_eq_pixelDiff _ _ _ _ (notFlat (by omega) ‹_›)

variable {xyb} (noFlat : NoFlatDark xyb xsize ysize)
include noFlat

/-- **Without flat dark pixels the vector width does not matter**: every width computes every row
of the image alike. -/
theorem diffRowComputed_lanes (lanes lanes' : ℕ+) {y : ℕ} (inImage : y < ysize) :
    diffRowComputed xyb xsize ysize cutoff lanes y = diffRowComputed xyb xsize ysize cutoff lanes' y := by
  have scalar : ∀ (lanes : ℕ+) x, 0 < x → x < diffSimdEnd lanes xsize 1 →
      ¬ FlatDark (xyb.plane 1 y) (xyb.plane 1 (diffRow1 ysize y)) (xyb.plane 1 (diffRow2 ysize y)) x :=
    fun lanes x pos simd => by
      obtain ⟨-, -, room⟩ := diffSimdEnd_le lanes xsize
      exact noFlat y inImage x (by omega) pos (by omega)
  funext x
  rw [diffRowComputed_of_not_flat xyb cutoff lanes (scalar lanes x),
    diffRowComputed_of_not_flat xyb cutoff lanes' (scalar lanes' x)]

/-- Without flat dark pixels every sample of the map is the same for every vector width. -/
theorem diffPrecomputeValue_lanes (tall : 1 ≤ ysize) (lanes lanes' : ℕ+) :
    diffPrecomputeValue xyb xsize ysize cutoff lanes =
      diffPrecomputeValue xyb xsize ysize cutoff lanes' := by
  have rows : ∀ y < ysize,
      diffRowValue xyb xsize ysize cutoff lanes y = diffRowValue xyb xsize ysize cutoff lanes' y :=
    fun y inImage => by
      funext x
      simp only [diffRowValue, diffRowComputed_lanes cutoff noFlat lanes lanes' inImage]
  have image : diffImageValue xyb xsize ysize cutoff lanes =
      diffImageValue xyb xsize ysize cutoff lanes' := by
    funext y x
    simp only [diffImageValue, diffLastRowValue, rows (ysize - 1) (by omega)]
    split_ifs with inner <;> first | rfl | rw [rows y (by omega)]
  funext y x
  simp only [diffPrecomputeValue, image]

/-- **Without flat dark pixels `DiffPrecompute` computes one map for every `Lanes(df)`**. -/
theorem diffPrecompute_lanes (wide : 1 ≤ xsize) (tall : 1 ≤ ysize) (lanes lanes' : ℕ+)
    (garbage : ℕ → ℕ → FloatVal F) :
    diffPrecompute xyb xsize ysize cutoff lanes garbage =
      diffPrecompute xyb xsize ysize cutoff lanes' garbage := by
  ext y x
  · rw [(diffPrecompute_size xyb xsize ysize cutoff lanes garbage).1,
      (diffPrecompute_size xyb xsize ysize cutoff lanes' garbage).1]
  · rw [(diffPrecompute_size xyb xsize ysize cutoff lanes garbage).2,
      (diffPrecompute_size xyb xsize ysize cutoff lanes' garbage).2]
  · rw [diffPrecompute_row xyb cutoff wide tall, diffPrecompute_row xyb cutoff wide tall,
      diffPrecomputeValue_lanes cutoff noFlat tall lanes lanes']

end Flat

section Range

variable (xyb : Image3 F) {xsize ysize : ℕ} {cutoff : F} (nonneg : 0 ≤ cutoff) (lanes : ℕ+)
  (noFlat : NoFlatDark xyb xsize ysize)
include nonneg noFlat

theorem diffRowValue_finIn {y : ℕ} (inImage : y < ysize) (x : ℕ) :
    FloatVal.FinIn 0 cutoff (diffRowValue xyb xsize ysize cutoff lanes y x) := by
  have computed : ∀ x, FloatVal.FinIn 0 cutoff (diffRowComputed xyb xsize ysize cutoff lanes y x) :=
    fun x => by
      obtain ⟨-, -, room⟩ := diffSimdEnd_le lanes xsize
      rw [diffRowComputed_of_not_flat xyb cutoff lanes
        fun pos simd => noFlat y inImage x (by omega) pos (by omega)]
      dsimp only
      split_ifs <;> first | exact pixelDiff_finIn nonneg _ _ _ _ _ _ | exact edgeDiff_finIn nonneg _ _
  unfold diffRowValue
  split_ifs
  · exact computed x
  · exact paddingMean_finIn fun x _ => computed x

theorem diffPrecomputeValue_finIn (tall : 1 ≤ ysize) (y x : ℕ) :
    FloatVal.FinIn 0 cutoff (diffPrecomputeValue xyb xsize ysize cutoff lanes y x) := by
  have image : ∀ y, FloatVal.FinIn 0 cutoff (diffImageValue xyb xsize ysize cutoff lanes y x) :=
    fun y => by
      unfold diffImageValue diffLastRowValue
      dsimp only
      split_ifs
      · exact diffRowValue_finIn xyb nonneg lanes noFlat (by omega) x
      · exact edgeDiff_finIn nonneg _ _
      · exact edgeDiff_finIn nonneg _ _
      · exact diffRowValue_finIn xyb nonneg lanes noFlat (by omega) x
  unfold diffPrecomputeValue
  split_ifs
  · exact image y
  · exact paddingMean_finIn fun y _ => image y

end Range

end JxlEncoder
