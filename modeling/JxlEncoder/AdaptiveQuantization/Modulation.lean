import JxlEncoder.Image.AcStrategy
import JxlEncoder.Image.FloatVal
import JxlEncoder.AdaptiveQuantization.Search

/-! # The per-block modulations of the adaptive quantization map

`PerBlockModulations` turns the smoothed local-difference map, one value per 8×8 block, into the
initial quant field: at every block it passes the value through `ComputeMask`, adds the
DCT-entropy, dynamic-range, high-frequency and gamma modulations computed from the block's
pixels, and stores the exponential of the sum times `scale`. Every modulation reads only the
block's 8×8 pixels, and every block of the map is rewritten once, from its own value
(`perBlockModulations_row`).

The samples are `float`s with their infinities and NaN (`FloatVal`): the local-difference map
can hold NaN, which passes through every step, and `GammaModulation` takes `log(0) = -inf` on a
block whose pixels are all dark, so that `exp(-inf) · scale` stores 0 there. Every other block
gets `exp(t) · scale` for a finite `t` (`modulateBlock_cases`).

The DCT of a block and the finite `<cmath>` functions are given as data (`ModulationFns`); the
vector accumulators of `DctModulation` and `GammaModulation` are summed in one order, which
exact arithmetic does not distinguish.
-/

namespace JxlEncoder

/-- The functions the modulations call that are `<cmath>` or not among the sources: besides
`std::pow` and `std::sqrt`, `std::exp`, `std::log`, `DCTScales<8>()`, and
`ComputeTransposedScaledDCT<8>()` of the 8×8 block whose sample `(dx, dy)` is given. -/
structure ModulationFns (F : Type) extends MathFns F where
  exp : F → F
  log : F → F
  dctScales : ℕ → F
  transposedScaledDct : (ℕ → ℕ → F) → ℕ → F

variable {F : Type} [LinearOrderedField F]

/-- **`ComputeMask`** of the smoothed difference `val`:
`kBase + kMul1 / max(val + kOffset1, 1e-3) + kMul2 / (val² + kOffset2)`. -/
def computeMask (val : F) : F :=
  let kBase : F := 0.9
  let kMul1 : F := 0.012830564950968305
  let kOffset1 : F := 0.010638874536303307
  let kMul2 : F := -0.17766197567565159
  let kOffset2 : F := 0.10647602832848234
  let div := max (val + kOffset1) 1e-3
  kBase + kMul1 / div + kMul2 / (val * val + kOffset2)

/-- The guard `max(·, 1e-3)` keeps both divisors of `ComputeMask` positive, so the mask lies between
`kBase + kMul2 / kOffset2` and `kBase + kMul1 / 1e-3` for every input. -/
theorem computeMask_mem_Icc (val : F) :
    computeMask val ∈ Set.Icc (0.9 + -0.17766197567565159 / 0.10647602832848234)
      (0.9 + 0.012830564950968305 / 1e-3) := by
  have guard : (1e-3 : F) ≤ max (val + 0.010638874536303307) 1e-3 := le_max_right _ _
  have square : (0.10647602832848234 : F) ≤ val * val + 0.10647602832848234 :=
    le_add_of_nonneg_left (mul_self_nonneg val)
  have first : 0 < (0.012830564950968305 : F) / max (val + 0.010638874536303307) 1e-3 :=
    div_pos (by norm_num) (lt_of_lt_of_le (by norm_num) guard)
  have second : (-0.17766197567565159 : F) / (val * val + 0.10647602832848234) < 0 :=
    div_neg_of_neg_of_pos (by norm_num) (lt_of_lt_of_le (by norm_num) square)
  have third : (0.17766197567565159 : F) / (val * val + 0.10647602832848234) ≤
      0.17766197567565159 / 0.10647602832848234 :=
    div_le_div_of_nonneg_left (by norm_num) (by norm_num) square
  have fourth : (0.012830564950968305 : F) / max (val + 0.010638874536303307) 1e-3 ≤
      0.012830564950968305 / 1e-3 :=
    div_le_div_of_nonneg_left (by norm_num) (by norm_num) guard
  simp only [computeMask, neg_div, Set.mem_Icc] at second ⊢
  exact ⟨add_le_add (le_add_of_nonneg_right first.le) (neg_le_neg third),
    add_le_of_le_of_nonpos (add_le_add_left fourth _) second.le⟩

/-- **`ComputeMask`** of the stored `float` `*out_pos`: the expression of `computeMask` in IEEE
arithmetic, where `std::max(val + kOffset1, 1e-3f)` is `1e-3` at `-inf` and `+inf` at `+inf`. -/
def computeMaskVal (val : FloatVal F) : FloatVal F :=
  let kBase : F := 0.9
  let kMul1 : F := 0.012830564950968305
  let kOffset1 : F := 0.010638874536303307
  let kMul2 : F := -0.17766197567565159
  let kOffset2 : F := 0.10647602832848234
  let div := FloatVal.stdMax (val + .fin kOffset1) (.fin 1e-3)
  .fin kBase + .fin kMul1 / div + .fin kMul2 / (val * val + .fin kOffset2)

/-- On a finite value `ComputeMask` is `computeMask`: both divisors are positive. -/
@[simp] theorem computeMaskVal_fin (val : F) : computeMaskVal (.fin val) = .fin (computeMask val) := by
  have guard : (0 : F) < max (val + 0.010638874536303307) 1e-3 :=
    lt_max_of_lt_right (by norm_num)
  have square : (0 : F) < val * val + 0.10647602832848234 :=
    add_pos_of_nonneg_of_pos (mul_self_nonneg val) (by norm_num)
  simp only [computeMaskVal, computeMask, FloatVal.fin_add_fin, FloatVal.fin_mul_fin,
    FloatVal.stdMax_fin_fin, FloatVal.fin_div_fin guard.ne', FloatVal.fin_div_fin square.ne']

/-- **The mask of a stored value is finite unless the value is NaN**: at `+inf` both quotients
vanish, and at `-inf` the guard gives `1e-3`. -/
theorem computeMaskVal_eq_fin {val : FloatVal F} (notNan : val ≠ .nan) :
    ∃ m, computeMaskVal val = .fin m :=
  match val, notNan with
  | .fin val, _ => ⟨_, computeMaskVal_fin val⟩
  | .inf false, _ => ⟨_, rfl⟩
  | .inf true, _ => ⟨_, by
      simp only [computeMaskVal, FloatVal.stdMax, FloatVal.inf_add_fin, FloatVal.inf_true_lt_fin,
        if_true]
      rw [FloatVal.fin_div_fin (by norm_num)]
      rfl⟩
  | .nan, notNan => absurd rfl notNan

@[simp] theorem computeMaskVal_nan : computeMaskVal (.nan : FloatVal F) = .nan := rfl

/-- `kQuant64` of `Quant64()`. -/
def kQuant64 : List F :=
  [0.00, 4.10, 3.30, 3.30, 1.10, 1.15, 0.70, 0.70, 4.10, 3.30, 3.30,
    1.10, 1.15, 1.30, 0.70, 0.50, 3.00, 3.30, 2.90, 2.10, 1.30, 0.70,
    0.50, 0.50, 0.87, 2.90, 2.10, 1.40, 0.70, 0.50, 0.50, 0.50, 0.87,
    1.40, 1.40, 1.60, 0.50, 0.50, 0.50, 0.50, 1.40, 0.90, 1.60, 0.50,
    0.50, 0.50, 0.50, 0.50, 0.90, 0.50, 0.50, 0.50, 0.50, 0.50, 0.50,
    0.50, 0.50, 0.50, 0.50, 0.50, 0.50, 0.50, 0.50, 0.50]

/-- `Quant64()[i]`: `pow(kQuant64[i], kPow)`. -/
def quant64 (fns : ModulationFns F) (i : ℕ) : F :=
  let kPow : F := 4.6629037508279616
  fns.pow (kQuant64.getD i 0) kPow

/-- **`DctModulation`** of the block at `(x, y)` of `xyb`: the quantization-weighted sums of the
second, fourth and eighth powers of the rescaled DCT coefficients, each taken back to a first
power and mixed, added to `outPos`. -/
def dctModulation (fns : ModulationFns F) (x y : ℕ) (xyb : Plane F) (dctRescale : ℕ → F)
    (outPos : F) : F :=
  let dct := fns.transposedScaledDct fun dx dy => xyb.row (y + dy) (x + dx)
  let entropy := (List.range kDCTBlockSize).foldl (fun (acc : F × F × F) i =>
    let v := dct i * dctRescale i
    let v := v * v
    let q := quant64 fns i
    let ql2 := q * v + acc.1
    let v := v * v
    let ql4 := q * v + acc.2.1
    let v := v * v
    (ql2, ql4, q * v + acc.2.2)) (0, 0, 0)
  let entropyQL2 := fns.sqrt entropy.1
  let entropyQL4 := fns.sqrt (fns.sqrt entropy.2.1)
  let entropyQL8 := fns.pow entropy.2.2 0.125
  let mulQL2 : F := 0.03142149886912976
  let mulQL4 : F := -0.66751878683954047
  let mulQL8 : F := 0.38537889965210825
  let v := mulQL2 * entropyQL2 + mulQL4 * entropyQL4 + mulQL8 * entropyQL8
  let kMul : F := 1.2429764719119114
  outPos + kMul * v

/-- `kSGmul`, `kSGmul2`, `kLog2`, `kSGRetMul` and `kSGVOffset`, the constants of the simple gamma
curve. -/
def kSGmul : F := 200

def kSGmul2 : F := 1 / 74

def kLog2 : F := 0.693147181

def kSGRetMul : F := kSGmul2 * 18.6580932135 * kLog2

def kSGVOffset : F := 7.14672470003

/-- **`RatioOfDerivativesOfCubicRootToSimpleGamma<invert>(v)`**: with `v` clamped at 0, the
ratio `(kDenMul·v·v² + kVOffset) / (kNumMul·v²)`, or its inverse, in `float`. The clamp makes the
numerator 0 at every `v ≤ 0`, where the ratio is `kVOffset / 0 = +inf`. -/
def ratioOfDerivativesOfCubicRootToSimpleGamma (invert : Bool) (v : F) : FloatVal F :=
  let v := if v < 0 then 0 else v
  let kNumMul : F := kSGRetMul * 3 * kSGmul
  let kVOffset : F := kSGVOffset * kLog2
  let kDenMul : F := kLog2 * kSGmul
  let v2 := v * v
  let num := kNumMul * v2
  let den := kDenMul * v * v2 + kVOffset
  if invert then .fin num / .fin den else .fin den / .fin num

/-- The constants `kNumMul`, `kVOffset` and `kDenMul` of the ratio are positive. -/
theorem ratio_constants_pos : (0 : F) < kSGRetMul * 3 * kSGmul ∧ (0 : F) < kSGVOffset * kLog2 ∧
    (0 : F) < kLog2 * kSGmul := by
  simp only [kSGRetMul, kSGmul2, kSGmul, kSGVOffset, kLog2]
  norm_num

/-- The clamp at 0 leaves a value that is never negative, and 0 exactly at `v ≤ 0`. -/
theorem clamp_nonneg (v : F) : 0 ≤ (if v < 0 then 0 else v) ∧ ((if v < 0 then 0 else v) = 0 ↔ v ≤ 0) := by
  split_ifs with negative
  · exact ⟨le_rfl, iff_of_true rfl negative.le⟩
  · exact ⟨not_lt.mp negative, ⟨fun zero => zero.le, fun nonpos => le_antisymm nonpos (not_lt.mp negative)⟩⟩

/-- **The inverse ratio is finite**: its denominator is at least `kVOffset > 0`. It is never
negative, and 0 exactly where the clamp makes the numerator 0. -/
theorem ratioOfDerivativesOfCubicRootToSimpleGamma_true (v : F) :
    ∃ r, ratioOfDerivativesOfCubicRootToSimpleGamma true v = .fin r ∧ 0 ≤ r ∧ (r = 0 ↔ v ≤ 0) := by
  obtain ⟨constNum, constOffset, constDen⟩ := (ratio_constants_pos : (0 : F) < _ ∧ _)
  obtain ⟨nonneg, zero⟩ := clamp_nonneg v
  set w : F := if v < 0 then 0 else v
  have den : 0 < kLog2 * kSGmul * w * (w * w) + kSGVOffset * kLog2 :=
    add_pos_of_nonneg_of_pos (mul_nonneg (mul_nonneg constDen.le nonneg) (mul_self_nonneg w)) constOffset
  refine ⟨_, FloatVal.fin_div_fin den.ne', div_nonneg (mul_nonneg constNum.le (mul_self_nonneg w)) den.le, ?_⟩
  rw [div_eq_zero_iff, or_iff_left den.ne', mul_eq_zero, or_iff_right constNum.ne', mul_self_eq_zero, zero]

/-- At a positive argument the ratio is a positive finite value. -/
theorem ratioOfDerivativesOfCubicRootToSimpleGamma_false_of_pos {v : F} (positive : 0 < v) :
    ∃ r, ratioOfDerivativesOfCubicRootToSimpleGamma false v = .fin r ∧ 0 < r := by
  obtain ⟨constNum, constOffset, constDen⟩ := (ratio_constants_pos : (0 : F) < _ ∧ _)
  have num : 0 < kSGRetMul * 3 * kSGmul * (v * v) := mul_pos constNum (mul_pos positive positive)
  have den : 0 < kLog2 * kSGmul * v * (v * v) + kSGVOffset * kLog2 :=
    add_pos (mul_pos (mul_pos constDen positive) (mul_pos positive positive)) constOffset
  refine ⟨_, ?_, div_pos den num⟩
  simp only [ratioOfDerivativesOfCubicRootToSimpleGamma, if_neg (not_lt.mpr positive.le)]
  exact FloatVal.fin_div_fin num.ne'

/-- **At `v ≤ 0` the ratio is `+inf`**: the clamp makes the numerator 0 and the denominator is
`kVOffset > 0`. -/
theorem ratioOfDerivativesOfCubicRootToSimpleGamma_false_of_nonpos {v : F} (nonpos : v ≤ 0) :
    ratioOfDerivativesOfCubicRootToSimpleGamma false v = .inf false := by
  have clamped : (if v < 0 then 0 else v) = 0 := (clamp_nonneg v).2.mpr nonpos
  simp only [ratioOfDerivativesOfCubicRootToSimpleGamma, clamped, mul_zero, zero_add]
  exact FloatVal.fin_div_zero ratio_constants_pos.2.1

/-- **`GammaModulation`** of the block at `(x, y)`: the logarithm of the block's mean inverse
ratio of derivatives at `Y + 0.16 ∓ X`, scaled by `gam`, added to `outPos`; `std::log` of a zero
sum is `-inf`. -/
def gammaModulation (fns : ModulationFns F) (x y : ℕ) (xybX xybY : Plane F) (outPos : FloatVal F) :
    FloatVal F :=
  let kBias : F := 0.16
  let overallRatio := (Plane.cellsIn 0 8 0 8).foldl (fun overall c =>
    let iny := xybY.row (y + c.2) (x + c.1) + kBias
    let inx := xybX.row (y + c.2) (x + c.1)
    let r := iny - inx
    let g := iny + inx
    let ratioR := ratioOfDerivativesOfCubicRootToSimpleGamma true r
    let ratioG := ratioOfDerivativesOfCubicRootToSimpleGamma true g
    overall + .fin 0.5 * (ratioR + ratioG)) (.fin 0)
  let gam : F := 0.34403164676083279
  outPos + .fin gam * FloatVal.log fns.log (overallRatio / .fin 64)

/-- A block where `GammaModulation` takes the logarithm of 0: at each of its 64 pixels both
`Y + 0.16 - X` and `Y + 0.16 + X` are at most 0, where the clamp makes the inverse ratio 0. -/
def GammaDark (x y : ℕ) (xybX xybY : Plane F) : Prop :=
  ∀ c ∈ Plane.cellsIn 0 8 0 8,
    xybY.row (y + c.2) (x + c.1) + 0.16 - xybX.row (y + c.2) (x + c.1) ≤ 0 ∧
      xybY.row (y + c.2) (x + c.1) + 0.16 + xybX.row (y + c.2) (x + c.1) ≤ 0

instance (x y : ℕ) (xybX xybY : Plane F) : Decidable (GammaDark x y xybX xybY) :=
  List.decidableBAll _ _

/-- The loop of `GammaModulation` adds half the two inverse ratios of each pixel: from a sum that
is not negative it stays finite and not negative, and it ends at 0 exactly when it started at 0
and both arguments are at most 0 at every pixel. -/
theorem foldl_gammaRatio {α : Type} (r g : α → F) : ∀ (l : List α) {acc : F}, 0 ≤ acc →
    ∃ s, l.foldl (fun overall c => overall + .fin 0.5 *
        (ratioOfDerivativesOfCubicRootToSimpleGamma true (r c) +
          ratioOfDerivativesOfCubicRootToSimpleGamma true (g c))) (.fin acc) = .fin s ∧
      0 ≤ s ∧ (s = 0 ↔ acc = 0 ∧ ∀ c ∈ l, r c ≤ 0 ∧ g c ≤ 0)
  | [], acc, nonneg => ⟨acc, rfl, nonneg, by simp⟩
  | c :: l, acc, nonneg => by
    obtain ⟨rr, ratioR, rNonneg, rZero⟩ := ratioOfDerivativesOfCubicRootToSimpleGamma_true (r c)
    obtain ⟨rg, ratioG, gNonneg, gZero⟩ := ratioOfDerivativesOfCubicRootToSimpleGamma_true (g c)
    have half : (0 : F) ≤ 0.5 * (rr + rg) := by positivity
    obtain ⟨s, run, sNonneg, sZero⟩ := foldl_gammaRatio r g l (add_nonneg nonneg half)
    have zero : acc + 0.5 * (rr + rg) = 0 ↔ acc = 0 ∧ rr = 0 ∧ rg = 0 := by
      rw [add_eq_zero_iff_of_nonneg nonneg half, mul_eq_zero, or_iff_right (by norm_num),
        add_eq_zero_iff_of_nonneg rNonneg gNonneg]
    refine ⟨s, by rw [List.foldl_cons, ratioR, ratioG]; exact run, sNonneg, ?_⟩
    rw [sZero, zero, rZero, gZero, List.forall_mem_cons, and_assoc]

/-- **`GammaModulation` of a finite value** adds `gam · log(s / 64)` for the block's ratio sum
`s`, which is finite, not negative, and 0 exactly at a gamma-dark block. -/
theorem gammaModulation_fin (fns : ModulationFns F) (x y : ℕ) (xybX xybY : Plane F) :
    ∃ s, 0 ≤ s ∧ (s = 0 ↔ GammaDark x y xybX xybY) ∧ ∀ v,
      gammaModulation fns x y xybX xybY (.fin v) =
        .fin v + .fin 0.34403164676083279 * FloatVal.log fns.log (.fin (s / 64)) := by
  obtain ⟨s, run, nonneg, zero⟩ := foldl_gammaRatio
    (fun c : ℕ × ℕ => xybY.row (y + c.2) (x + c.1) + 0.16 - xybX.row (y + c.2) (x + c.1))
    (fun c => xybY.row (y + c.2) (x + c.1) + 0.16 + xybX.row (y + c.2) (x + c.1))
    (Plane.cellsIn 0 8 0 8) le_rfl
  refine ⟨s, nonneg, zero.trans (and_iff_right rfl), fun v => ?_⟩
  rw [← FloatVal.fin_div_fin (by norm_num), ← run]
  rfl

/-- The extremes of both channels and the sum of squares of `Y`, as `RangeModulation` gathers them
over a block. -/
structure RangeStats (F : Type) where
  minvalX : F
  minvalY : F
  maxvalX : F
  maxvalY : F
  ySumOfSquares : F

/-- **`RangeModulation`** of the block at `(x, y)`: five measures of the block's range of `X` and
`Y` mixed and clamped to `[-7, 7]`, added to `outPos`. -/
def rangeModulation (fns : ModulationFns F) (x y : ℕ) (xybX xybY : Plane F) (outPos : F) : F :=
  let stats := (Plane.cellsIn 0 8 0 8).foldl (fun (s : RangeStats F) c =>
    let vx := xybX.row (y + c.2) (x + c.1)
    let vy := xybY.row (y + c.2) (x + c.1)
    { minvalX := if s.minvalX > vx then vx else s.minvalX
      minvalY := if s.minvalY > vy then vy else s.minvalY
      maxvalX := if s.maxvalX < vx then vx else s.maxvalX
      maxvalY := if s.maxvalY < vy then vy else s.maxvalY
      ySumOfSquares := s.ySumOfSquares + vy * vy }) ⟨1e30, 1e30, -1e30, -1e30, 0⟩
  let xmul : F := 1.7221705747809317
  let rangeX := xmul * (stats.maxvalX - stats.minvalX)
  let rangeY := stats.maxvalY - stats.minvalY
  let range0 := fns.sqrt (rangeX * rangeY)
  let mul0 : F := -0.74090628990083873
  let range1 := fns.sqrt (rangeX * rangeX + rangeY * rangeY)
  let mul1 : F := 0.3768642185315102
  let range2 := max rangeX rangeY
  let mul2 : F := -0.36402038014085836
  let range3 := min rangeX rangeY
  let mul3 : F := 0.14396820717087175
  let range4 := rangeX * fns.sqrt (stats.ySumOfSquares / 64)
  let mul4 : F := 119.38245772972709
  outPos + max (-7) (min 7 (mul0 * range0 + mul1 * range1 + mul2 * range2 + mul3 * range3 +
    mul4 * range4))

/-- **`HfModulation`** of the block at `(x, y)`: the mean absolute difference between horizontally
and between vertically adjacent pixels of the block, scaled by `kMul`, added to `outPos`. -/
def hfModulation (x y : ℕ) (xyb : Plane F) (outPos : F) : F :=
  let horizontal := (Plane.cellsIn 0 7 0 8).foldl (fun (acc : F × ℕ) c =>
    (acc.1 + |xyb.row (y + c.2) (x + c.1) - xyb.row (y + c.2) (x + c.1 + 1)|, acc.2 + 1)) (0, 0)
  let both := (Plane.cellsIn 0 8 0 7).foldl (fun (acc : F × ℕ) c =>
    (acc.1 + |xyb.row (y + c.2) (x + c.1) - xyb.row (y + c.2 + 1) (x + c.1)|, acc.2 + 1))
    horizontal
  let sum := if both.2 ≠ 0 then both.1 / both.2 else both.1
  let kMul : F := -1.9272205829012994
  outPos + sum * kMul

/-- A loop that adds `f c` to a sum and one to a counter at each item ends with the sum of `f` and
the number of items. -/
theorem foldl_sum_count {α : Type} (f : α → F) :
    ∀ (l : List α) (acc : F × ℕ), l.foldl (fun acc c => (acc.1 + f c, acc.2 + 1)) acc =
      (acc.1 + (l.map f).sum, acc.2 + l.length)
  | [], acc => by simp
  | c :: l, acc => by
    rw [List.foldl_cons, foldl_sum_count f l, List.map_cons, List.sum_cons, List.length_cons]
    simp only [add_assoc, Nat.add_comm 1]

/-- **`HfModulation` counts 112 differences** (56 horizontal, 56 vertical), so it always divides,
and it never raises the exponent: `kMul < 0` times a mean of absolute values. -/
theorem hfModulation_le (x y : ℕ) (xyb : Plane F) (outPos : F) :
    hfModulation x y xyb outPos ≤ outPos := by
  simp only [hfModulation, foldl_sum_count, Plane.length_cellsIn]
  rw [if_pos (by norm_num), add_le_iff_nonpos_right]
  have differences : ∀ (l : List (ℕ × ℕ)) (f : ℕ × ℕ → F), (∀ c, 0 ≤ f c) → 0 ≤ (l.map f).sum :=
    fun _ _ nonneg => List.sum_nonneg (List.forall_mem_map.mpr fun c _ => nonneg c)
  refine mul_nonpos_of_nonneg_of_nonpos (div_nonneg ?_ (Nat.cast_nonneg _)) (by norm_num)
  exact add_nonneg (add_nonneg le_rfl (differences _ _ fun _ => abs_nonneg _))
    (differences _ _ fun _ => abs_nonneg _)

/-- `dct_rescale[i]`: the product of the DCT scales of the row and the column of coefficient `i`. -/
def dctRescale (fns : ModulationFns F) (i : ℕ) : F := fns.dctScales (i / 8) * fns.dctScales (i % 8)

/-- The body of the `PerBlockModulations` task at the pixel block `(x, y)`: `out_pos` through
`ComputeMask` and the four modulations, then `std::exp(·) · scale`. The DCT, range and
high-frequency modulations add a finite amount, which keeps a NaN. -/
def modulateBlock (fns : ModulationFns F) (xybX xybY : Plane F) (scale : F) (x y : ℕ)
    (outPos : FloatVal F) : FloatVal F :=
  let v := computeMaskVal outPos
  let v := v.map (dctModulation fns x y xybY (dctRescale fns))
  let v := v.map (rangeModulation fns x y xybX xybY)
  let v := v.map (hfModulation x y xybY)
  let v := gammaModulation fns x y xybX xybY v
  FloatVal.exp fns.exp v * .fin scale

/-- **A block's modulated value**: NaN exactly when its smoothed value is NaN. Otherwise the mask
and the DCT, range and high-frequency modulations are finite; a gamma-dark block then gets 0, as
`std::log(0) = -inf` and `std::exp(-inf) = 0`, and every other block `exp(t) · scale` for a finite
exponent `t`. -/
theorem modulateBlock_cases (fns : ModulationFns F) (xybX xybY : Plane F) (scale : F) (x y : ℕ)
    (outPos : FloatVal F) :
    (outPos = .nan → modulateBlock fns xybX xybY scale x y outPos = .nan) ∧
      (outPos ≠ .nan → GammaDark x y xybX xybY →
        modulateBlock fns xybX xybY scale x y outPos = .fin 0) ∧
      (outPos ≠ .nan → ¬ GammaDark x y xybX xybY →
        ∃ t, modulateBlock fns xybX xybY scale x y outPos = .fin (fns.exp t * scale)) := by
  obtain ⟨s, nonneg, zero, gamma⟩ := gammaModulation_fin fns x y xybX xybY
  refine ⟨fun isNan => ?_, fun notNan dark => ?_, fun notNan bright => ?_⟩
  · simp only [modulateBlock, isNan, computeMaskVal_nan, FloatVal.map_nan, gammaModulation,
      FloatVal.nan_add, FloatVal.exp_nan, FloatVal.nan_mul]
  all_goals obtain ⟨m, mask⟩ := computeMaskVal_eq_fin notNan
  · simp only [modulateBlock, mask, FloatVal.map_fin, gamma, zero.mpr dark, zero_div,
      FloatVal.log_fin_zero, FloatVal.fin_mul_inf_of_pos (by norm_num : (0 : F) < 0.34403164676083279),
      FloatVal.fin_add_inf, FloatVal.exp_inf_true, FloatVal.fin_mul_fin, zero_mul]
  · have positive : 0 < s / 64 :=
      div_pos (lt_of_le_of_ne nonneg fun same => bright (zero.mp same.symm)) (by norm_num)
    simp only [modulateBlock, mask, FloatVal.map_fin, gamma, FloatVal.log_fin_of_pos _ positive,
      FloatVal.fin_mul_fin, FloatVal.fin_add_fin, FloatVal.exp_fin]
    exact ⟨_, rfl⟩

/-- **`PerBlockModulations`**: after the size checks (`JXL_ASSERT`, `none` when one fails), the
task of row `iy` visits `x = 0, 8, …` below `xyb_x.xsize()` and rewrites the block `(x / 8, iy)` of
`out` from its own value and the pixel block at `(x, 8·iy)`. -/
def perBlockModulations (fns : ModulationFns F) (xybX xybY : Plane F) (scale : F)
    (out : Plane (FloatVal F)) : Option (Plane (FloatVal F)) :=
  if divCeil xybX.xsize kBlockDim = out.xsize ∧ divCeil xybX.ysize kBlockDim = out.ysize ∧
      divCeil xybY.xsize kBlockDim = out.xsize ∧ divCeil xybY.ysize kBlockDim = out.ysize then
    some ((List.range (divCeil xybX.ysize kBlockDim)).foldl (fun out iy =>
      let y := iy * 8
      (List.range' 0 (divCeil xybX.xsize kBlockDim) 8).foldl (fun out x =>
        out.set (x / 8) iy (modulateBlock fns xybX xybY scale x y (out.row iy (x / 8)))) out) out)
  else none

section Loop

/-- The loop `for (x = 0; …; x += step)` visits the multiples of `step`. -/
theorem range'_zero_eq_map_range (n step : ℕ) :
    List.range' 0 n step = (List.range n).map (· * step) := by
  induction n with
  | zero => rfl
  | succ n ih =>
    rw [Nat.add_comm n 1, ← List.range'_append, ih, Nat.add_comm 1 n, List.range_succ, List.map_append]
    simp [Nat.mul_comm]

variable {fns : ModulationFns F} {xybX xybY : Plane F} {scale : F} {out : Plane (FloatVal F)}

/-- **`PerBlockModulations` is the per-block update** `out(bx, iy) ← modulateBlock(8·bx, 8·iy,
out(bx, iy))` of every block of `out`: the stride-8 loop visits each block once. -/
theorem perBlockModulations_eq (sizes : divCeil xybX.xsize kBlockDim = out.xsize ∧
    divCeil xybX.ysize kBlockDim = out.ysize ∧ divCeil xybY.xsize kBlockDim = out.xsize ∧
    divCeil xybY.ysize kBlockDim = out.ysize) :
    perBlockModulations fns xybX xybY scale out =
      some (out.updateCells fun bx iy v => modulateBlock fns xybX xybY scale (bx * 8) (iy * 8) v) := by
  rw [perBlockModulations, if_pos sizes, sizes.1, sizes.2.1, Plane.updateCells, Plane.forEachCell,
    Plane.forEachCellIn, Nat.sub_zero, Nat.sub_zero, range'_zero_eq_map_range _ 8]
  simp only [← List.range_eq_range', List.foldl_map, Nat.mul_div_cancel _ (by decide : 0 < 8)]

/-- A map comes out only when the size checks pass. -/
theorem sizes_of_perBlockModulations {out' : Plane (FloatVal F)}
    (ran : perBlockModulations fns xybX xybY scale out = some out') :
    divCeil xybX.xsize kBlockDim = out.xsize ∧ divCeil xybX.ysize kBlockDim = out.ysize ∧
      divCeil xybY.xsize kBlockDim = out.xsize ∧ divCeil xybY.ysize kBlockDim = out.ysize := by
  unfold perBlockModulations at ran
  split_ifs at ran with sizes
  exact sizes

/-- **Each block of the map `PerBlockModulations` returns** is `modulateBlock` of the block's own
smoothed value. -/
theorem perBlockModulations_row {out' : Plane (FloatVal F)}
    (ran : perBlockModulations fns xybX xybY scale out = some out') {bx iy : ℕ}
    (left : bx < out.xsize) (below : iy < out.ysize) :
    out'.row iy bx = modulateBlock fns xybX xybY scale (bx * 8) (iy * 8) (out.row iy bx) := by
  rw [perBlockModulations_eq (sizes_of_perBlockModulations ran), Option.some_inj] at ran
  rw [← ran, Plane.updateCells_row_of_lt _ left below]

end Loop

end JxlEncoder
