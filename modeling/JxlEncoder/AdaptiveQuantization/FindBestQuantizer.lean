import JxlEncoder.AdaptiveQuantization.FindBestQuantization
import JxlEncoder.AdaptiveQuantization.MaxError
import JxlEncoder.AdaptiveQuantization.Hq

/-! # Choosing the regime: `FindBestQuantizer`

`FindBestQuantizer` sets the quantizer in the first of six ways that the compression parameters
select: the max-error search, a constant quantizer for the fastest tier, a uniform quantizer, the
initial field made constant on transforms for the fast tiers, the peak-descent search for the
slowest tier, and the Butteraugli search otherwise. The model returns the calls made on the
quantizer; `none` is an abort: one of `AdjustQuantField`'s assertions, which every regime but the
two constant ones runs first, or the Butteraugli search's envelope assertion.

Outside the peak-descent search every field handed to `SetQuantField` is constant on transforms
(`regionConstant_findBestQuantizer`), and over the reals no regime aborts from a positive field
on a non-empty tiled grid (`isSome_findBestQuantizer`).
-/

namespace JxlEncoder

/-- `SpeedTier`, declared in `enc_params.h` (not among the sources), from the slowest tier to
the fastest. -/
inductive SpeedTier
  | tortoise
  | kitten
  | squirrel
  | wombat
  | hare
  | cheetah
  | falcon
  deriving DecidableEq, Repr

/-- The enumerator's value, `kTortoise = 1` to `kFalcon = 7`, which `speed_tier > kKitten`
compares. -/
def SpeedTier.toNat : SpeedTier → ℕ
  | tortoise => 1
  | kitten => 2
  | squirrel => 3
  | wombat => 4
  | hare => 5
  | cheetah => 6
  | falcon => 7

variable {F : Type}

/-- The fields of `CompressParams` that the dispatcher and the three searches read. -/
structure CompressParams (F : Type) where
  maxErrorMode : Bool
  maxError : Fin 3 → F
  speedTier : SpeedTier
  uniformQuant : F
  butteraugliDistance : F
  maxButteraugliIters : ℕ
  maxButteraugliItersGuetzliMode : ℕ

/-- A call on the quantizer: `SetQuant(quant_dc, quant_ac)` or `SetQuantField(quant_dc, field)`. -/
inductive QuantizerCall (F : Type)
  | setQuant (quantDc quantAc : F)
  | setQuantField (quantDc : F) (field : Plane F)

/-- The `SetQuantField` calls of a search as quantizer calls. -/
def setQuantFieldCalls (calls : List (F × Plane F)) : List (QuantizerCall F) :=
  calls.map fun c => .setQuantField c.1 c.2

theorem setQuantField_mem_setQuantFieldCalls {calls : List (F × Plane F)} {quantDc : F}
    {field : Plane F} :
    QuantizerCall.setQuantField quantDc field ∈ setQuantFieldCalls calls ↔ (quantDc, field) ∈ calls := by
  simp [setQuantFieldCalls]

/-- The branches of `FindBestQuantizer`. -/
inductive QuantRegime
  | maxError
  | falcon
  | uniform
  | fast
  | hq
  | butteraugli
  deriving DecidableEq, Repr

variable [LinearOrderedField F]

/-- The branch `FindBestQuantizer` takes: the first condition that holds, in the order of the
sources. -/
def quantRegime (cparams : CompressParams F) : QuantRegime :=
  if cparams.maxErrorMode then .maxError
  else if cparams.speedTier = .falcon then .falcon
  else if cparams.uniformQuant > 0 then .uniform
  else if cparams.speedTier.toNat > SpeedTier.kitten.toNat then .fast
  else if cparams.speedTier = .tortoise then .hq
  else .butteraugli

variable [FloorRing F]

/-- **`FindBestQuantizer`**: the quantizer calls of the selected regime, or `none` when an
assertion aborts. The searches start from `initial_quant_field`, the fast tiers hand it over after
`AdjustQuantField`, and `rescale` scales the uniform quantizer. The max-error search, the fast
tiers and the peak-descent search call `AdjustQuantField` before any quantizer call, so its
assertions abort them here; the Butteraugli search checks them itself. -/
def findBestQuantizer (m : MathFns F) (cmp : Comparator F) (quantizer : QuantizerScales F)
    (roundtripImage : ℕ → Plane F → Image3 F) (acs : AcStrategyImage) (opsin : Image3 F)
    (rescale : F) (cparams : CompressParams F) (initialQuantField : Plane F) :
    Option (List (QuantizerCall F)) :=
  match quantRegime cparams with
  | .maxError =>
    if AdjustQuantFieldAsserts acs initialQuantField then
      some (setQuantFieldCalls (findBestQuantizationMaxError m roundtripImage acs opsin
        cparams.butteraugliDistance cparams.maxError cparams.maxButteraugliIters initialQuantField))
    else none
  | .falcon => some [.setQuant (initialQuantDC m cparams.butteraugliDistance)
      (kAcQuant / cparams.butteraugliDistance)]
  | .uniform => some [.setQuant (cparams.uniformQuant * rescale) (cparams.uniformQuant * rescale)]
  | .fast =>
    if AdjustQuantFieldAsserts acs initialQuantField then
      some [.setQuantField (initialQuantDC m cparams.butteraugliDistance)
        (adjustQuantField acs initialQuantField)]
    else none
  | .hq =>
    if AdjustQuantFieldAsserts acs initialQuantField then
      some (setQuantFieldCalls (findBestQuantizationHQ m.pow cmp acs cparams.butteraugliDistance
        cparams.maxButteraugliItersGuetzliMode initialQuantField))
    else none
  | .butteraugli => (findBestQuantization m cmp quantizer acs cparams.butteraugliDistance
      cparams.maxButteraugliIters initialQuantField).map setQuantFieldCalls

/-- **Outside the peak-descent search every field handed to `SetQuantField` is constant on
transforms.** For every tiling, every initial field of the grid's size, every comparator whose
distance maps cover the grid and all parameters that do not select the peak-descent search: the
max-error search, the fast tiers and the Butteraugli search hand the quantizer only fields
constant on transforms. -/
theorem regionConstant_findBestQuantizer (m : MathFns F) (cmp : Comparator F)
    (quantizer : QuantizerScales F) (roundtripImage : ℕ → Plane F → Image3 F)
    {acs : AcStrategyImage} (tiling : acs.Tiling) (diffmaps : cmp.DiffmapsMatch acs)
    (opsin : Image3 F) (rescale : F) (cparams : CompressParams F)
    (notHq : quantRegime cparams ≠ .hq) (initialQuantField : Plane F)
    (sized : initialQuantField.xsize = acs.xsize ∧ initialQuantField.ysize = acs.ysize)
    {calls : List (QuantizerCall F)}
    (run : findBestQuantizer m cmp quantizer roundtripImage acs opsin rescale cparams
      initialQuantField = some calls) :
    ∀ quantDc field, QuantizerCall.setQuantField quantDc field ∈ calls → acs.RegionConstant field := by
  intro quantDc field member
  unfold findBestQuantizer at run
  split at run
  case h_1 =>
    rw [if_pos (adjustQuantFieldAsserts_of_tiling tiling sized)] at run
    cases run
    exact regionConstant_findBestQuantizationMaxError m roundtripImage tiling opsin _ _ _ sized _
      (setQuantField_mem_setQuantFieldCalls.mp member)
  case h_2 | h_3 =>
    cases run
    simp at member
  case h_4 =>
    rw [if_pos (adjustQuantFieldAsserts_of_tiling tiling sized)] at run
    cases run
    obtain ⟨-, rfl⟩ := List.mem_singleton.mp member
    exact regionConstant_adjustQuantField tiling sized
  case h_5 regime => exact absurd regime notHq
  case h_6 =>
    obtain ⟨searchCalls, search, rfl⟩ := Option.map_eq_some'.mp run
    exact regionConstant_findBestQuantization tiling diffmaps _ _ sized search _
      (setQuantField_mem_setQuantFieldCalls.mp member)

/-- The Butteraugli search of the kitten tier on `rowOfThree` with the field `(5, 1, 3)`, which is
not constant on the wide transform, and `stepComparator`: every field it hands over is. -/
theorem regionConstant_findBestQuantizer_rowOfThree :
    let field : Plane ℝ := ⟨3, 1, fun _ x => if x = 0 then 5 else if x = 1 then 1 else 3⟩
    let cparams : CompressParams ℝ := ⟨false, fun _ => 1, .kitten, 0, 1, 2, 2⟩
    rowOfThree.Tiling ∧ (stepComparator : Comparator ℝ).DiffmapsMatch rowOfThree ∧
      quantRegime cparams ≠ .hq ∧
      ∃ calls, findBestQuantizer ⟨Real.rpow, Real.sqrt⟩ stepComparator ⟨fun _ _ => 1, fun _ _ => 1⟩
          (fun _ _ => ⟨24, 8, fun _ _ _ => 0⟩) rowOfThree ⟨24, 8, fun _ _ _ => 0⟩ 1 cparams field =
          some calls ∧
        ∀ quantDc field', QuantizerCall.setQuantField quantDc field' ∈ calls →
          rowOfThree.RegionConstant field' := by
  intro field cparams
  have regime : quantRegime cparams = .butteraugli := by simp [cparams, quantRegime, SpeedTier.toNat]
  have diffmaps : (stepComparator : Comparator ℝ).DiffmapsMatch rowOfThree :=
    fun _ _ _ => tilesMatch_stepDiffmap
  have notHq : quantRegime cparams ≠ .hq := by
    rw [regime]
    decide
  have positive : ∀ x y, x < field.xsize → y < field.ysize → 0 < field.row y x := fun x _ _ _ => by
    show 0 < if x = 0 then (5 : ℝ) else if x = 1 then 1 else 3
    split_ifs <;> norm_num
  obtain ⟨asserts, passes⟩ := findBestQuantization_asserts Real.rpow tiling_rowOfThree ⟨rfl, rfl⟩
    ⟨by decide, by decide⟩ positive
  obtain ⟨calls, search⟩ : ∃ calls, findBestQuantization ⟨Real.rpow, Real.sqrt⟩ stepComparator
      ⟨fun _ _ => 1, fun _ _ => 1⟩ rowOfThree 1 2 field = some calls :=
    ⟨_, findBestQuantization_eq _ _ _ _ _ _ _ asserts passes⟩
  have run : findBestQuantizer ⟨Real.rpow, Real.sqrt⟩ stepComparator ⟨fun _ _ => 1, fun _ _ => 1⟩
      (fun _ _ => ⟨24, 8, fun _ _ _ => 0⟩) rowOfThree ⟨24, 8, fun _ _ _ => 0⟩ 1 cparams field =
      some (setQuantFieldCalls calls) := by
    rw [findBestQuantizer, regime]
    exact congrArg (Option.map setQuantFieldCalls) search
  exact ⟨tiling_rowOfThree, diffmaps, notHq, _, run,
    regionConstant_findBestQuantizer _ _ _ _ tiling_rowOfThree diffmaps _ 1 _ notHq _ ⟨rfl, rfl⟩ run⟩

/-- **Over the reals `FindBestQuantizer` never aborts** from a positive initial field on a
non-empty tiled grid: the envelope's ratio is 250, so the assertion of the Butteraugli search
holds, and every other regime returns its calls. -/
theorem isSome_findBestQuantizer (pow : ℝ → ℝ → ℝ) (cmp : Comparator ℝ)
    (quantizer : QuantizerScales ℝ) (roundtripImage : ℕ → Plane ℝ → Image3 ℝ)
    {acs : AcStrategyImage} (tiling : acs.Tiling) (opsin : Image3 ℝ) (rescale : ℝ)
    (cparams : CompressParams ℝ) {initialQuantField : Plane ℝ}
    (sized : initialQuantField.xsize = acs.xsize ∧ initialQuantField.ysize = acs.ysize)
    (nonempty : 0 < acs.xsize ∧ 0 < acs.ysize)
    (positive : ∀ x y, x < initialQuantField.xsize → y < initialQuantField.ysize →
      0 < initialQuantField.row y x) :
    (findBestQuantizer ⟨pow, Real.sqrt⟩ cmp quantizer roundtripImage acs opsin rescale cparams
      initialQuantField).isSome := by
  obtain ⟨asserts, passes⟩ := findBestQuantization_asserts pow tiling sized nonempty positive
  unfold findBestQuantizer
  split
  case h_6 => rw [Option.isSome_map', findBestQuantization_eq _ _ _ _ _ _ _ asserts passes]; rfl
  all_goals simp only [if_pos asserts, Option.isSome_some]

/-- The Butteraugli search of the kitten tier on one 8×8 block with field 1. -/
theorem isSome_findBestQuantizer_kitten :
    (AcStrategyImage.Tiling (Plane.filled 1 1 AcStrategy.dct) ∧
      ((Plane.filled 1 1 (1 : ℝ)).xsize = (Plane.filled 1 1 AcStrategy.dct).xsize ∧
        (Plane.filled 1 1 (1 : ℝ)).ysize = (Plane.filled 1 1 AcStrategy.dct).ysize) ∧
      (0 < (Plane.filled 1 1 AcStrategy.dct).xsize ∧ 0 < (Plane.filled 1 1 AcStrategy.dct).ysize) ∧
      ∀ x y, x < (Plane.filled 1 1 (1 : ℝ)).xsize → y < (Plane.filled 1 1 (1 : ℝ)).ysize →
        0 < (Plane.filled 1 1 (1 : ℝ)).row y x) ∧
    (findBestQuantizer ⟨fun _ _ => 1, Real.sqrt⟩ ⟨fun _ _ _ => (0, Plane.filled 8 8 0), true⟩
      ⟨fun _ _ => 1, fun _ _ => 1⟩ (fun _ _ => ⟨8, 8, fun _ _ _ => 0⟩)
      (Plane.filled 1 1 AcStrategy.dct) ⟨8, 8, fun _ _ _ => 0⟩ 1
      ⟨false, fun _ => 1, .kitten, 0, 1, 2, 2⟩ (Plane.filled 1 1 1)).isSome :=
  ⟨⟨AcStrategyImage.tiling_filled_dct 1 1, ⟨rfl, rfl⟩, ⟨Nat.one_pos, Nat.one_pos⟩,
      fun _ _ _ _ => one_pos⟩,
    isSome_findBestQuantizer _ _ _ _ (AcStrategyImage.tiling_filled_dct 1 1) _ _ _ ⟨rfl, rfl⟩
      ⟨Nat.one_pos, Nat.one_pos⟩ fun _ _ _ _ => one_pos⟩

end JxlEncoder
