import JxlEncoder.Image.Plane

/-! # What the quantization searches talk to

The three searches over the quant field share their collaborators: the `<cmath>` functions, the
round trip through the encoder and the Butteraugli comparator, and the quantizer that receives
each field. Each is given to the model as data, and the theorems hold for all of them.

The searches compute in an ordered field `F` with exact arithmetic; the results that need the
real square root or power are stated over `ℝ`. Where a search can meet an infinity or a NaN, the
model computes with `FloatVal` (the envelope assertion of `FindBestQuantization`).
-/

namespace JxlEncoder

variable {F : Type} [LinearOrderedField F]

/-- The floating-point functions the searches call: `std::pow` and `std::sqrt`. -/
structure MathFns (F : Type) where
  pow : F → F → F
  sqrt : F → F

/-- The round trip and the comparator: the frame is encoded with the field just handed to the
quantizer and decoded, and `CompareWith` returns the Butteraugli score and per-pixel distance
map of the result. `compare i dc field` is the outcome of the round trip with index `i`;
`lowerIsBetter` is `GoodQualityScore() < BadQualityScore()`. The `JXL_CHECK` on `CompareWith`
is taken to pass. -/
structure Comparator (F : Type) where
  compare : ℕ → F → Plane F → F × Plane F
  lowerIsBetter : Bool

/-- The quantizer's `Scale()` and `InvGlobalScale()` after `SetQuantField(dc, field)`: the
quantizer derives its global scale from the call's arguments. -/
structure QuantizerScales (F : Type) where
  scale : F → Plane F → F
  invGlobalScale : F → Plane F → F

/-- `ScaleImage(s, image)`: every sample multiplied by `s`. -/
def scaleImage (s : F) (p : Plane F) : Plane F := p.updateCells fun _ _ v => s * v

/-- The comparator's outcome with the sign convention normalised so that lower is better:
`if (!lower_is_better) { score = -score; diffmap = ScaleImage(-1.0f, diffmap); }`. -/
def Comparator.roundtrip (cmp : Comparator F) (i : ℕ) (dc : F) (field : Plane F) : F × Plane F :=
  if cmp.lowerIsBetter then cmp.compare i dc field
  else (-(cmp.compare i dc field).1, scaleImage (-1) (cmp.compare i dc field).2)

/-- `kDcQuantPow`, `kDcQuant` and `kAcQuant` of the sources. -/
def kDcQuantPow : F := 0.55

def kDcQuant : F := 1.18

def kAcQuant : F := 0.84

/-- **`InitialQuantDC`**: the DC quant for a Butteraugli target,
`min(kDcQuant / min(target, kDcMul * pow(target / kDcMul, kDcQuantPow)), 50)`. -/
def initialQuantDC (m : MathFns F) (butteraugliTarget : F) : F :=
  let kDcMul : F := 2.9
  let butteraugliTargetDc :=
    min butteraugliTarget (kDcMul * m.pow ((1 / kDcMul) * butteraugliTarget) kDcQuantPow)
  min (kDcQuant / butteraugliTargetDc) 50

/-- `if (q > qf_higher) q = qf_higher; if (q < qf_lower) q = qf_lower;` -/
def clampQuant (q qfLower qfHigher : F) : F :=
  let q := if q > qfHigher then qfHigher else q
  if q < qfLower then qfLower else q

theorem clampQuant_mem {q qfLower qfHigher : F} (ordered : qfLower ≤ qfHigher) :
    qfLower ≤ clampQuant q qfLower qfHigher ∧ clampQuant q qfLower qfHigher ≤ qfHigher := by
  unfold clampQuant
  dsimp only
  split_ifs <;> constructor <;> linarith

/-- A value already in the envelope is left as it is. -/
theorem clampQuant_of_mem {q qfLower qfHigher : F} (lower : qfLower ≤ q) (upper : q ≤ qfHigher) :
    clampQuant q qfLower qfHigher = q := by
  unfold clampQuant
  dsimp only
  split_ifs <;> linarith

section Cast

variable [FloorRing F]

/-- `static_cast<int>(v)`: conversion toward zero. -/
def castToInt (v : F) : ℤ := if 0 ≤ v then ⌊v⌋ else ⌈v⌉

theorem castToInt_of_nonneg {v : F} (nonneg : 0 ≤ v) : castToInt v = ⌊v⌋ := if_pos nonneg

end Cast

end JxlEncoder
