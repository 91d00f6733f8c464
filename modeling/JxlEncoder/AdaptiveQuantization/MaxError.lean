import JxlEncoder.AdaptiveQuantization.AdjustQuantField
import JxlEncoder.AdaptiveQuantization.Search

/-! # The max-error search: `FindBestQuantizationMaxError`

In max-error mode the encoder bounds the per-pixel error of each channel rather than a
Butteraugli score. Each of the `max_butteraugli_iters + 1` passes hands the field to the
quantizer, round-trips the frame in opsin space, and multiplies the field on every transform by
`qf_mul`, a function of the largest weighted error over the transform's pixels. The multiplier is
one value per transform, so every field handed over is constant on transforms
(`regionConstant_findBestQuantizationMaxError`).

Below an error of 0.5 the multiplier is `2 · max_error`, which is 0 where the round trip
reproduces a transform exactly: a search whose round trips are exact hands the quantizer a field
that is 0 on every block (`findBestQuantizationMaxError_exact`). With exact arithmetic, while
every round trip misses each transform somewhere, every field handed over stays positive; in
`float` a cell multiplied by a tiny `qf_mul` pass after pass can still underflow to 0.
-/

namespace JxlEncoder

variable {F : Type} [LinearOrderedField F]

/-- The error of channel `c` at pixel `(x, y)` in units of the channel's bound:
`std::abs(in_row[x] - dec_row[x]) * inv_max_err[c]`. -/
def pixelError (invMaxErr : Fin 3 → F) (opsin decoded : Image3 F) (c : Fin 3) (x y : ℕ) : F :=
  |opsin.plane c y x - decoded.plane c y x| * invMaxErr c

/-- **The error of a transform**: from 0, the largest pixel error over the three channels and the
pixels `[8 bx, 8 (bx + cx)) × [8 by, 8 (by + cy))` of the transform, skipping the rows and
columns past the decoded image. -/
def blockMaxError (invMaxErr : Fin 3 → F) (opsin decoded : Image3 F) (blockX blockY cx cy : ℕ) :
    F :=
  ([0, 1, 2] : List (Fin 3)).foldl (fun maxError c =>
    Plane.forEachCellIn (blockX * 8) ((blockX + cx) * 8) (blockY * 8) ((blockY + cy) * 8)
      (fun maxError x y =>
        if y ≥ decoded.ysize ∨ x ≥ decoded.xsize then maxError
        else max (pixelError invMaxErr opsin decoded c x y) maxError)
      maxError) 0

/-- `qf_mul`, aiming at an error between `max_error / 2` and `max_error`: `2 · max_error` below
0.5, `max_error` above 1, and 1 between. -/
def qfMul (maxError : F) : F :=
  if maxError < 0.5 then maxError * 2 else if maxError > 1 then maxError else 1

/-- Every cell of the `cx × cy` rectangle at `(x, y)` multiplied by `k`:
`for qy, qx: quant_field_row[qx] *= qf_mul`. -/
def scaleRect (p : Plane F) (x y cx cy : ℕ) (k : F) : Plane F :=
  Plane.forEachCellIn x (x + cx) y (y + cy) (fun s x y => s.set x y (s.row y x * k)) p

section Model

variable (invMaxErr : Fin 3 → F) (opsin : Image3 F) (acs : AcStrategyImage)

/-- The pass body at a first block: scale the transform by its `qf_mul`. -/
def maxErrorBody (decoded : Image3 F) (q : Plane F) (blockX blockY : ℕ) : Plane F :=
  scaleRect q blockX blockY (acs.row blockY blockX).coveredBlocksX
    (acs.row blockY blockX).coveredBlocksY
    (qfMul (blockMaxError invMaxErr opsin decoded blockX blockY
      (acs.row blockY blockX).coveredBlocksX (acs.row blockY blockX).coveredBlocksY))

/-- One pass over the first blocks of the `xsize_blocks × ysize_blocks` grid, given the decoded
image of the round trip. -/
def maxErrorPass (decoded : Image3 F) (q : Plane F) : Plane F :=
  acs.forEachFirstBlock acs.xsize acs.ysize (maxErrorBody invMaxErr opsin acs decoded) q

variable (roundtripImage : ℕ → Plane F → Image3 F) (initialQuantDc : F)

/-- The passes from pass `i` on, `n` of them: `SetQuantField` with the field, the round trip
`roundtripImage i field`, and the rescaling pass. Returns the calls made and the field. -/
def maxErrorLoop : ℕ → ℕ → List (F × Plane F) → Plane F → List (F × Plane F) × Plane F
  | 0, _, calls, q => (calls, q)
  | n + 1, i, calls, q =>
    maxErrorLoop n (i + 1) (calls ++ [(initialQuantDc, q)])
      (maxErrorPass invMaxErr opsin acs (roundtripImage i q) q)

end Model

/-- **`FindBestQuantizationMaxError`**: the `SetQuantField` calls it makes, in order. The DC quant
is `16 * sqrt(0.1 / butteraugli_distance)`; `roundtripImage i field` is the decoded frame of pass
`i`, made after the field was handed over. -/
def findBestQuantizationMaxError (m : MathFns F) (roundtripImage : ℕ → Plane F → Image3 F)
    (acs : AcStrategyImage) (opsin : Image3 F) (butteraugliDistance : F) (maxError : Fin 3 → F)
    (maxButteraugliIters : ℕ) (quantField : Plane F) : List (F × Plane F) :=
  let initialQuantDc := 16 * m.sqrt (0.1 / butteraugliDistance)
  let run := maxErrorLoop (fun c => 1 / maxError c) opsin acs roundtripImage initialQuantDc
    (maxButteraugliIters + 1) 0 [] (adjustQuantField acs quantField)
  run.1 ++ [(initialQuantDc, run.2)]

section Scale

@[simp] theorem scaleRect_xsize (p : Plane F) (x y cx cy : ℕ) (k : F) :
    (scaleRect p x y cx cy k).xsize = p.xsize :=
  Plane.forEachCellIn_induction (fun s : Plane F => s.xsize = p.xsize) (fun _ _ _ same => same) rfl

@[simp] theorem scaleRect_ysize (p : Plane F) (x y cx cy : ℕ) (k : F) :
    (scaleRect p x y cx cy k).ysize = p.ysize :=
  Plane.forEachCellIn_induction (fun s : Plane F => s.ysize = p.ysize) (fun _ _ _ same => same) rfl

theorem scaleRect_row (p : Plane F) (x y cx cy : ℕ) (k : F) (x' y' : ℕ) :
    (scaleRect p x y cx cy k).row y' x' =
      if x ≤ x' ∧ x' < x + cx ∧ y ≤ y' ∧ y' < y + cy then p.row y' x' * k else p.row y' x' :=
  Plane.forEachCellIn_set_row x (x + cx) y (y + cy) (fun _ _ v => v * k) p x' y'

/-- The largest pixel error lies between 0 and any bound on the pixel errors. -/
theorem blockMaxError_mem {invMaxErr : Fin 3 → F} {opsin decoded : Image3 F} {bound : F}
    (nonneg : 0 ≤ bound) (bounded : ∀ c x y, pixelError invMaxErr opsin decoded c x y ≤ bound)
    (blockX blockY cx cy : ℕ) :
    0 ≤ blockMaxError invMaxErr opsin decoded blockX blockY cx cy ∧
      blockMaxError invMaxErr opsin decoded blockX blockY cx cy ≤ bound :=
  List.foldlRecOn (motive := fun e : F => 0 ≤ e ∧ e ≤ bound) _ _ _ ⟨le_rfl, nonneg⟩
    fun _ start c _ => Plane.forEachCellIn_induction (fun e : F => 0 ≤ e ∧ e ≤ bound)
      (fun e x y ⟨lower, upper⟩ => by
        split
        · exact ⟨lower, upper⟩
        · exact ⟨lower.trans (le_max_right _ _), max_le (bounded c x y) upper⟩) start

/-- A fold whose steps never lower the accumulator ends at or above its start. -/
theorem le_foldl {α : Type} {f : F → α → F} (raise : ∀ e a, e ≤ f e a) :
    ∀ (l : List α) (init : F), init ≤ l.foldl f init
  | [], _ => le_rfl
  | a :: l, init => (raise init a).trans (le_foldl raise l _)

/-- Such a fold ends at or above what any one of its steps reaches. -/
theorem le_foldl_of_mem {α : Type} {f : F → α → F} (raise : ∀ e a, e ≤ f e a) {a : α}
    {l : List α} (member : a ∈ l) {v : F} (reaches : ∀ e, v ≤ f e a) (init : F) :
    v ≤ l.foldl f init := by
  obtain ⟨s, t, rfl⟩ := List.append_of_mem member
  rw [List.foldl_append, List.foldl_cons]
  exact (reaches _).trans (le_foldl raise t _)

/-- The error of a transform is at least the error of each of its pixels that the decoded image
has. -/
theorem pixelError_le_blockMaxError {invMaxErr : Fin 3 → F} {opsin decoded : Image3 F}
    {blockX blockY cx cy x y : ℕ} (c : Fin 3) (inX : blockX * 8 ≤ x ∧ x < (blockX + cx) * 8)
    (inY : blockY * 8 ≤ y ∧ y < (blockY + cy) * 8) (left : x < decoded.xsize)
    (below : y < decoded.ysize) :
    pixelError invMaxErr opsin decoded c x y ≤
      blockMaxError invMaxErr opsin decoded blockX blockY cx cy := by
  have step : ∀ (c : Fin 3) (e : F) (a : ℕ × ℕ), e ≤
      if a.2 ≥ decoded.ysize ∨ a.1 ≥ decoded.xsize then e
      else max (pixelError invMaxErr opsin decoded c a.1 a.2) e := fun c e a => by
    split_ifs
    exacts [le_rfl, le_max_right _ _]
  unfold blockMaxError
  simp only [Plane.forEachCellIn_eq_foldl_cellsIn]
  refine le_foldl_of_mem (fun e c => le_foldl (step c) _ e)
    (show c ∈ ([0, 1, 2] : List (Fin 3)) by fin_cases c <;> simp) (fun e => ?_) 0
  refine le_foldl_of_mem (step c) (Plane.mem_cellsIn.mpr ⟨inX.1, inX.2, inY.1, inY.2⟩ :
    (x, y) ∈ Plane.cellsIn _ _ _ _) (fun e => ?_) e
  rw [if_neg (by omega)]
  exact le_max_left _ _

theorem qfMul_pos {e : F} (positive : 0 < e) : 0 < qfMul e := by
  unfold qfMul
  split_ifs <;> linarith

@[simp] theorem qfMul_zero : qfMul (0 : F) = 0 := by norm_num [qfMul]

end Scale

namespace AcStrategyImage

variable {acs : AcStrategyImage}

section Scale

variable {ax ay x y : ℕ}

/-- Scaling the transform of `(ax, ay)` by `k` scales its blocks. -/
theorem scaleRect_row_of_inRegion (p : Plane F) (k : F) (inRegion : acs.InRegion ax ay x y) :
    (scaleRect p ax ay (acs.row ay ax).coveredBlocksX (acs.row ay ax).coveredBlocksY k).row y x =
      p.row y x * k :=
  (scaleRect_row _ _ _ _ _ _ _ _).trans (if_pos inRegion)

/-- Scaling the transform of `(ax, ay)` leaves the other cells alone. -/
theorem scaleRect_row_of_not_inRegion (p : Plane F) (k : F)
    (outside : ¬ acs.InRegion ax ay x y) :
    (scaleRect p ax ay (acs.row ay ax).coveredBlocksX (acs.row ay ax).coveredBlocksY k).row y x =
      p.row y x :=
  (scaleRect_row _ _ _ _ _ _ _ _).trans (if_neg outside)

end Scale

/-- The pass body scales its own transform and leaves every other cell alone. -/
theorem regionLocal_maxErrorBody (invMaxErr : Fin 3 → F) (opsin decoded : Image3 F) :
    acs.RegionLocal (maxErrorBody invMaxErr opsin acs decoded) where
  frame _ _ _ _ _ _ outside := scaleRect_row_of_not_inRegion _ _ outside
  reads _ _ _ _ _ same x y inRegion := by
    rw [maxErrorBody, maxErrorBody, scaleRect_row_of_inRegion _ _ inRegion,
      scaleRect_row_of_inRegion _ _ inRegion, same x y inRegion]

end AcStrategyImage

open AcStrategyImage

section Pass

variable {invMaxErr : Fin 3 → F} {opsin : Image3 F} {acs : AcStrategyImage}

@[simp] theorem maxErrorPass_xsize (decoded : Image3 F) (q : Plane F) :
    (maxErrorPass invMaxErr opsin acs decoded q).xsize = q.xsize :=
  forEachFirstBlock_induction (fun s : Plane F => s.xsize = q.xsize)
    (fun _ _ _ same => (scaleRect_xsize _ _ _ _ _ _).trans same) rfl

@[simp] theorem maxErrorPass_ysize (decoded : Image3 F) (q : Plane F) :
    (maxErrorPass invMaxErr opsin acs decoded q).ysize = q.ysize :=
  forEachFirstBlock_induction (fun s : Plane F => s.ysize = q.ysize)
    (fun _ _ _ same => (scaleRect_ysize _ _ _ _ _ _).trans same) rfl

variable (tiling : acs.Tiling)
include tiling

/-- **Each transform is scaled once, by its own multiplier.** -/
theorem maxErrorPass_row (decoded : Image3 F) (q : Plane F) {ax ay x y : ℕ}
    (first : acs.IsFirst ax ay) (inRegion : acs.InRegion ax ay x y) :
    (maxErrorPass invMaxErr opsin acs decoded q).row y x = q.row y x *
      qfMul (blockMaxError invMaxErr opsin decoded ax ay (acs.row ay ax).coveredBlocksX
        (acs.row ay ax).coveredBlocksY) :=
  (forEachFirstBlock_row tiling (regionLocal_maxErrorBody invMaxErr opsin decoded) first
    inRegion).trans (scaleRect_row_of_inRegion _ _ inRegion)

/-- A pass keeps the field constant on transforms. -/
theorem regionConstant_maxErrorPass (decoded : Image3 F) {q : Plane F}
    (const : acs.RegionConstant q) :
    acs.RegionConstant (maxErrorPass invMaxErr opsin acs decoded q) :=
  fun ax ay x y first inRegion => by
    rw [maxErrorPass_row tiling decoded q first inRegion,
      maxErrorPass_row tiling decoded q first (inRegion_self ax ay), const ax ay x y first inRegion]

/-- A pass keeps a positive field positive on every transform whose error is positive. -/
theorem maxErrorPass_pos (decoded : Image3 F) {q : Plane F}
    (positive : ∀ x y, x < acs.xsize → y < acs.ysize → 0 < q.row y x)
    (errors : ∀ ax ay, acs.IsFirst ax ay → 0 < blockMaxError invMaxErr opsin decoded ax ay
      (acs.row ay ax).coveredBlocksX (acs.row ay ax).coveredBlocksY)
    {x y : ℕ} (left : x < acs.xsize) (below : y < acs.ysize) :
    0 < (maxErrorPass invMaxErr opsin acs decoded q).row y x := by
  obtain ⟨ax, ay, first, inRegion⟩ := tiling.exists_first left below
  rw [maxErrorPass_row tiling decoded q first inRegion]
  exact mul_pos (positive x y left below) (qfMul_pos (errors ax ay first))

/-- **A pass moves each transform toward the target band** `[max_error / 2, max_error]`, as the
comment of the source says: with `e` the transform's largest weighted error, a positive field is
raised when `e > 1`, lowered when `e < 0.5`, and kept when `0.5 ≤ e ≤ 1`, for every tiling,
decoded image and cell. -/
theorem maxErrorPass_toward_band (decoded : Image3 F) (q : Plane F) {ax ay x y : ℕ}
    (first : acs.IsFirst ax ay) (inRegion : acs.InRegion ax ay x y) (positive : 0 < q.row y x) :
    let e := blockMaxError invMaxErr opsin decoded ax ay (acs.row ay ax).coveredBlocksX
      (acs.row ay ax).coveredBlocksY
    let q' := (maxErrorPass invMaxErr opsin acs decoded q).row y x
    (1 < e → q.row y x < q') ∧ (e < 0.5 → q' < q.row y x) ∧ (0.5 ≤ e → e ≤ 1 → q' = q.row y x) := by
  intro e q'
  have pass : q' = q.row y x * qfMul e := maxErrorPass_row tiling decoded q first inRegion
  refine ⟨fun over => ?_, fun under => ?_, fun low high => ?_⟩
  · rw [pass, qfMul, if_neg (by norm_num; linarith), if_pos over]
    exact lt_mul_of_one_lt_right positive over
  · rw [pass, qfMul, if_pos under]
    exact mul_lt_of_lt_one_right positive (by linarith)
  · rw [pass, qfMul, if_neg (not_lt.mpr low), if_neg (not_lt.mpr high), mul_one]

/-- **A pass after an exact round trip zeroes the field**: every transform has error 0, so
`qf_mul = 0` everywhere. -/
theorem maxErrorPass_exact (q : Plane F) {x y : ℕ} (left : x < acs.xsize) (below : y < acs.ysize) :
    (maxErrorPass invMaxErr opsin acs opsin q).row y x = 0 := by
  obtain ⟨ax, ay, first, inRegion⟩ := tiling.exists_first left below
  have zero := blockMaxError_mem le_rfl (fun c x y => (by simp [pixelError] :
    pixelError invMaxErr opsin opsin c x y ≤ 0)) ax ay (acs.row ay ax).coveredBlocksX
    (acs.row ay ax).coveredBlocksY
  rw [maxErrorPass_row tiling opsin q first inRegion, le_antisymm zero.2 zero.1, qfMul_zero,
    mul_zero]

end Pass

/-- One 8×8 block with field 1 and a round trip that reproduces the frame: the error is 0, below
the band. -/
theorem maxErrorPass_toward_band_dct :
    let acs : AcStrategyImage := Plane.filled 1 1 AcStrategy.dct
    let opsin : Image3 ℚ := ⟨8, 8, fun _ _ _ => 0⟩
    let q : Plane ℚ := Plane.filled 1 1 1
    (AcStrategyImage.Tiling acs ∧ AcStrategyImage.IsFirst acs 0 0 ∧
      AcStrategyImage.InRegion acs 0 0 0 0 ∧ 0 < q.row 0 0) ∧
    let e := blockMaxError (fun _ => 1) opsin opsin 0 0 (acs.row 0 0).coveredBlocksX
      (acs.row 0 0).coveredBlocksY
    let q' := (maxErrorPass (fun _ => 1) opsin acs opsin q).row 0 0
    (1 < e → q.row 0 0 < q') ∧ (e < 0.5 → q' < q.row 0 0) ∧ (0.5 ≤ e → e ≤ 1 → q' = q.row 0 0) :=
  ⟨⟨tiling_filled_dct 1 1, ⟨Nat.one_pos, Nat.one_pos, rfl⟩, inRegion_self 0 0, one_pos⟩,
    maxErrorPass_toward_band (tiling_filled_dct 1 1) _ _ ⟨Nat.one_pos, Nat.one_pos, rfl⟩
      (inRegion_self 0 0) one_pos⟩

section Loop

variable {invMaxErr : Fin 3 → F} {opsin : Image3 F} {acs : AcStrategyImage}
  {roundtripImage : ℕ → Plane F → Image3 F} {initialQuantDc : F}

variable (invMaxErr opsin acs roundtripImage initialQuantDc) in
/-- A property of fields that every pass keeps holds of every field the loop hands to the
quantizer and of the field it ends with. -/
theorem maxErrorLoop_induction (P : Plane F → Prop)
    (step : ∀ i q, P q → P (maxErrorPass invMaxErr opsin acs (roundtripImage i q) q)) :
    ∀ n i calls q, (∀ c ∈ calls, P c.2) → P q →
      (∀ c ∈ (maxErrorLoop invMaxErr opsin acs roundtripImage initialQuantDc n i calls q).1,
        P c.2) ∧ P (maxErrorLoop invMaxErr opsin acs roundtripImage initialQuantDc n i calls q).2
  | 0, _, _, _, before, holds => ⟨before, holds⟩
  | n + 1, i, _, q, before, holds =>
    maxErrorLoop_induction P step n (i + 1) _ _
      (fun c member => (List.mem_append.mp member).elim (before c)
        fun last => List.mem_singleton.mp last ▸ holds)
      (step i q holds)

/-- The field a loop of at least one pass ends with is the output of a pass. -/
theorem maxErrorLoop_snd_of_pass (P : Plane F → Prop)
    (pass : ∀ i q, P (maxErrorPass invMaxErr opsin acs (roundtripImage i q) q)) :
    ∀ n i calls q,
      P (maxErrorLoop invMaxErr opsin acs roundtripImage initialQuantDc (n + 1) i calls q).2
  | 0, i, _, q => pass i q
  | n + 1, _, _, _ => maxErrorLoop_snd_of_pass P pass n _ _ _

end Loop

/-- **Every field the max-error search hands to the quantizer is constant on transforms**, for
every tiling, initial field, error bound, iteration count and decoded images. -/
theorem regionConstant_findBestQuantizationMaxError (m : MathFns F)
    (roundtripImage : ℕ → Plane F → Image3 F) {acs : AcStrategyImage} (tiling : acs.Tiling)
    (opsin : Image3 F) (butteraugliDistance : F) (maxError : Fin 3 → F)
    (maxButteraugliIters : ℕ) {quantField : Plane F}
    (sized : quantField.xsize = acs.xsize ∧ quantField.ysize = acs.ysize) :
    ∀ c ∈ findBestQuantizationMaxError m roundtripImage acs opsin butteraugliDistance maxError
      maxButteraugliIters quantField, acs.RegionConstant c.2 := by
  have loop := maxErrorLoop_induction (fun c => 1 / maxError c) opsin acs roundtripImage
    (16 * m.sqrt (0.1 / butteraugliDistance)) acs.RegionConstant
    (fun i q const => regionConstant_maxErrorPass tiling (roundtripImage i q) const)
    (maxButteraugliIters + 1) 0 [] _ (fun _ member => absurd member (List.not_mem_nil _))
    (regionConstant_adjustQuantField tiling sized)
  intro c member
  rcases List.mem_append.mp member with old | last
  · exact loop.1 c old
  · exact List.mem_singleton.mp last ▸ loop.2

/-- **While no round trip reproduces a transform exactly, every field handed to the quantizer is
positive**, with exact arithmetic: the other side of `findBestQuantizationMaxError_exact`. For
every tiling, positive initial field of the grid's size, positive error bounds and iteration
count: if every decoded frame differs from the input at some pixel of each transform, every
`SetQuantField` receives a field positive on the whole grid. In `float` the products of small
multipliers can underflow to 0, which exact arithmetic does not model. -/
theorem findBestQuantizationMaxError_pos (m : MathFns F)
    (roundtripImage : ℕ → Plane F → Image3 F) {acs : AcStrategyImage} (tiling : acs.Tiling)
    (opsin : Image3 F) (butteraugliDistance : F) {maxError : Fin 3 → F}
    (bounds : ∀ c, 0 < maxError c) (maxButteraugliIters : ℕ) {quantField : Plane F}
    (sized : quantField.xsize = acs.xsize ∧ quantField.ysize = acs.ysize)
    (positive : ∀ x y, x < acs.xsize → y < acs.ysize → 0 < quantField.row y x)
    (inexact : ∀ i q ax ay, acs.IsFirst ax ay → ∃ c x y,
      (ax * 8 ≤ x ∧ x < (ax + (acs.row ay ax).coveredBlocksX) * 8) ∧
      (ay * 8 ≤ y ∧ y < (ay + (acs.row ay ax).coveredBlocksY) * 8) ∧
      x < (roundtripImage i q).xsize ∧ y < (roundtripImage i q).ysize ∧
      opsin.plane c y x ≠ (roundtripImage i q).plane c y x) :
    ∀ c ∈ findBestQuantizationMaxError m roundtripImage acs opsin butteraugliDistance maxError
      maxButteraugliIters quantField, ∀ x y, x < acs.xsize → y < acs.ysize → 0 < c.2.row y x := by
  have errors : ∀ i q ax ay, acs.IsFirst ax ay → 0 < blockMaxError (fun c => 1 / maxError c) opsin
      (roundtripImage i q) ax ay (acs.row ay ax).coveredBlocksX (acs.row ay ax).coveredBlocksY :=
    fun i q ax ay first => by
      obtain ⟨c, x, y, inX, inY, left, below, differs⟩ := inexact i q ax ay first
      have bounded : pixelError (fun c => 1 / maxError c) opsin (roundtripImage i q) c x y ≤ _ :=
        pixelError_le_blockMaxError c inX inY left below
      exact (mul_pos (abs_pos.mpr (sub_ne_zero.mpr differs)) (one_div_pos.mpr (bounds c))).trans_le
        bounded
  have loop := maxErrorLoop_induction (fun c => 1 / maxError c) opsin acs roundtripImage
    (16 * m.sqrt (0.1 / butteraugliDistance))
    (fun q => ∀ x y, x < acs.xsize → y < acs.ysize → 0 < q.row y x)
    (fun i q holds _ _ => maxErrorPass_pos tiling (roundtripImage i q) holds (errors i q))
    (maxButteraugliIters + 1) 0 [] _ (fun _ member => absurd member (List.not_mem_nil _))
    (fun x y left below => (positive x y left below).trans_le
      (le_adjustQuantField tiling sized (sized.1 ▸ left) (sized.2 ▸ below)))
  intro c member
  rcases List.mem_append.mp member with old | last
  · exact loop.1 c old
  · exact List.mem_singleton.mp last ▸ loop.2

/-- One 8×8 block with field 1 and round trips that decode 1 where the frame is 0: every field
handed over stays positive. -/
theorem findBestQuantizationMaxError_pos_dct :
    let acs : AcStrategyImage := Plane.filled 1 1 AcStrategy.dct
    let opsin : Image3 ℚ := ⟨8, 8, fun _ _ _ => 0⟩
    let roundtripImage : ℕ → Plane ℚ → Image3 ℚ := fun _ _ => ⟨8, 8, fun _ _ _ => 1⟩
    let quantField : Plane ℚ := Plane.filled 1 1 1
    (acs.Tiling ∧ (∀ _ : Fin 3, (0 : ℚ) < 1) ∧
      (quantField.xsize = acs.xsize ∧ quantField.ysize = acs.ysize) ∧
      (∀ x y, x < acs.xsize → y < acs.ysize → 0 < quantField.row y x) ∧
      ∀ i q ax ay, acs.IsFirst ax ay → ∃ c x y,
        (ax * 8 ≤ x ∧ x < (ax + (acs.row ay ax).coveredBlocksX) * 8) ∧
        (ay * 8 ≤ y ∧ y < (ay + (acs.row ay ax).coveredBlocksY) * 8) ∧
        x < (roundtripImage i q).xsize ∧ y < (roundtripImage i q).ysize ∧
        opsin.plane c y x ≠ (roundtripImage i q).plane c y x) ∧
    ∀ c ∈ findBestQuantizationMaxError ⟨fun _ _ => 1, fun _ => 1⟩ roundtripImage acs opsin 1
        (fun _ => 1) 2 quantField, ∀ x y, x < acs.xsize → y < acs.ysize → 0 < c.2.row y x := by
  intro acs opsin roundtripImage quantField
  have inexact : ∀ i q ax ay, acs.IsFirst ax ay → ∃ c x y,
      (ax * 8 ≤ x ∧ x < (ax + (acs.row ay ax).coveredBlocksX) * 8) ∧
      (ay * 8 ≤ y ∧ y < (ay + (acs.row ay ax).coveredBlocksY) * 8) ∧
      x < (roundtripImage i q).xsize ∧ y < (roundtripImage i q).ysize ∧
      opsin.plane c y x ≠ (roundtripImage i q).plane c y x := by
    rintro - - ax ay ⟨left, below, -⟩
    obtain ⟨rfl, rfl⟩ : ax = 0 ∧ ay = 0 := ⟨Nat.lt_one_iff.mp left, Nat.lt_one_iff.mp below⟩
    exact ⟨0, 0, 0, by decide, by decide, Nat.succ_pos _, Nat.succ_pos _, zero_ne_one⟩
  exact ⟨⟨tiling_filled_dct 1 1, fun _ => one_pos, ⟨rfl, rfl⟩, fun _ _ _ _ => one_pos, inexact⟩,
    findBestQuantizationMaxError_pos _ _ (tiling_filled_dct 1 1) _ _ (fun _ => one_pos) _ ⟨rfl, rfl⟩
      (fun _ _ _ _ => one_pos) inexact⟩

/-- **An exact round trip zeroes the field handed to the quantizer.** If the decoded frame equals
the input at every pass, every transform's error is 0, `qf_mul` is 0, and the final
`SetQuantField` receives a field that is 0 on every block, for every tiling, initial field, error
bound and iteration count. -/
theorem findBestQuantizationMaxError_exact (m : MathFns F) {acs : AcStrategyImage}
    (tiling : acs.Tiling) (opsin : Image3 F) (butteraugliDistance : F) (maxError : Fin 3 → F)
    (maxButteraugliIters : ℕ) (quantField : Plane F) :
    ∃ calls q, findBestQuantizationMaxError m (fun _ _ => opsin) acs opsin butteraugliDistance
        maxError maxButteraugliIters quantField =
        calls ++ [(16 * m.sqrt (0.1 / butteraugliDistance), q)] ∧
      ∀ x y, x < acs.xsize → y < acs.ysize → q.row y x = 0 :=
  ⟨(maxErrorLoop (fun c => 1 / maxError c) opsin acs (fun _ _ => opsin)
      (16 * m.sqrt (0.1 / butteraugliDistance)) (maxButteraugliIters + 1) 0 []
      (adjustQuantField acs quantField)).1,
    (maxErrorLoop (fun c => 1 / maxError c) opsin acs (fun _ _ => opsin)
      (16 * m.sqrt (0.1 / butteraugliDistance)) (maxButteraugliIters + 1) 0 []
      (adjustQuantField acs quantField)).2, rfl, maxErrorLoop_snd_of_pass (fun q => ∀ x y, x < acs.xsize → y < acs.ysize →
    q.row y x = 0) (fun _ q _ _ left below => maxErrorPass_exact tiling q left below)
    maxButteraugliIters 0 [] _⟩

/-- On one 8×8 block with field 1 and `max_error = 1` on every channel, a round trip that
reproduces the black frame leaves the final field 0. -/
theorem findBestQuantizationMaxError_exact_dct :
    AcStrategyImage.Tiling (Plane.filled 1 1 AcStrategy.dct) ∧
      ∃ calls q, findBestQuantizationMaxError (⟨fun _ _ => 0, fun _ => 1⟩ : MathFns ℚ)
          (fun _ _ => ⟨8, 8, fun _ _ _ => 0⟩) (Plane.filled 1 1 AcStrategy.dct)
          ⟨8, 8, fun _ _ _ => 0⟩ 1 (fun _ => 1) 0 (Plane.filled 1 1 1) = calls ++ [(16 * 1, q)] ∧
        ∀ x y, x < 1 → y < 1 → q.row y x = 0 :=
  ⟨AcStrategyImage.tiling_filled_dct 1 1, findBestQuantizationMaxError_exact _
    (AcStrategyImage.tiling_filled_dct 1 1) _ 1 (fun _ => 1) 0 (Plane.filled 1 1 1)⟩

end JxlEncoder
