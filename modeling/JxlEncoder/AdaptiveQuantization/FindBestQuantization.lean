import JxlEncoder.Image.FloatVal
import JxlEncoder.AdaptiveQuantization.AdjustQuantField
import JxlEncoder.AdaptiveQuantization.TileDistMap
import JxlEncoder.AdaptiveQuantization.Search

/-! # The default search: `FindBestQuantization`

The default search starts from the initial field made constant on transforms and iterates:
hand the field to the quantizer, round-trip and compare, score each transform twice (margin
`kMargins[i]` and margin 2), undo the last step where it raised the field and the local score
grew by more than 1.5 %, pull the field towards the initial one after the first comparison, and
raise the transforms whose score is above the target. Every step but the undo ends in a clamp to
the envelope `[qf_lower, qf_higher]` computed once from the initial field's range.

The search aborts on `AdjustQuantField`'s assertions and on `qf_higher / qf_lower < 253`, which
the sources compute in `float`: a field with a zero or with cells of both signs has a NaN
quotient and aborts (`quantEnvelopeVal_abort`), a positive field on a valid tiling passes both
(`findBestQuantization_asserts`).

Two invariants are proved over every run, every comparator and every quantizer: every field
handed to the quantizer is constant on transforms (`regionConstant_findBestQuantization`), and
the envelope has ratio 250 and holds every refined field (`findBestQuantization_envelope`).
-/

namespace JxlEncoder

variable {F : Type} [LinearOrderedField F] [FloorRing F]

/-- `kMargins`, the margin of the primary tile map at iteration `i`: 100 entries, all 0. An
iteration count past the table reads outside it; the model reads 0 there. -/
def kMargins (i : ℕ) : ℤ := (List.replicate 100 (0 : ℤ)).getD i 0

/-- `kPow` and `kPowMod`, the exponents of the multiplicative update at the first iterations. -/
def kPow : List F := [0.2, 0.2, 0, 0, 0, 0, 0, 0]

def kPowMod : List F := [0, 0, 0, 0, 0, 0, 0, 0]

/-- The exponent at iteration `i`: `kPow[i] + (target - 1) * kPowMod[i]`, at least 0, for
`i < 7`, and 0 after. -/
def curPow (butteraugliTarget : F) (i : ℕ) : F :=
  if i < 7 then
    let p := kPow.getD i 0 + (butteraugliTarget - 1) * kPowMod.getD i 0
    if p < 0 then 0 else p
  else 0

/-- The envelope `(qf_lower, qf_higher)` from the initial field's range: with
`dev = sqrt(250 / ratio)` and `asymmetry = min(2, dev)`, `qf_lower = min / (asymmetry * dev)` and
`qf_higher = max * (dev / asymmetry)`. -/
def quantEnvelope (m : MathFns F) (initialQuantField : Plane F) : F × F :=
  let initialQfMin := (Plane.imageMinMax initialQuantField).1
  let initialQfMax := (Plane.imageMinMax initialQuantField).2
  let initialQfRatio := initialQfMax / initialQfMin
  let qfMaxDeviationLow := m.sqrt (250 / initialQfRatio)
  let asymmetry : F := if qfMaxDeviationLow < 2 then qfMaxDeviationLow else 2
  (initialQfMin / (asymmetry * qfMaxDeviationLow), initialQfMax * (qfMaxDeviationLow / asymmetry))

/-- The envelope as `float`s: the expressions of `quantEnvelope` in IEEE arithmetic, which
`JXL_ASSERT(qf_higher / qf_lower < 253)` compares. On a positive field they are the finite values
of `quantEnvelope` (`quantEnvelopeVal_of_pos`); on a field whose extremes are not of one strict
sign `initial_qf_ratio` is `+inf`, `0`, negative or NaN, and the quotient is NaN
(`quantEnvelopeVal_abort`). -/
def quantEnvelopeVal (m : MathFns F) (initialQuantField : Plane F) : FloatVal F × FloatVal F :=
  let initialQfMin : FloatVal F := .fin (Plane.imageMinMax initialQuantField).1
  let initialQfMax : FloatVal F := .fin (Plane.imageMinMax initialQuantField).2
  let initialQfRatio := initialQfMax / initialQfMin
  let qfMaxDeviationLow := FloatVal.sqrt m.sqrt (.fin 250 / initialQfRatio)
  let asymmetry := if qfMaxDeviationLow < .fin 2 then qfMaxDeviationLow else .fin 2
  (initialQfMin / (asymmetry * qfMaxDeviationLow), initialQfMax * (qfMaxDeviationLow / asymmetry))

omit [FloorRing F] in
/-- **On a positive field the float envelope is finite**, and it is `quantEnvelope`, for every
square root that is positive on positive values. -/
theorem quantEnvelopeVal_of_pos (m : MathFns F) (p : Plane F) (sqrtPos : ∀ a, 0 < a → 0 < m.sqrt a)
    (minPos : 0 < (Plane.imageMinMax p).1)
    (ordered : (Plane.imageMinMax p).1 ≤ (Plane.imageMinMax p).2) :
    quantEnvelopeVal m p = (.fin (quantEnvelope m p).1, .fin (quantEnvelope m p).2) := by
  unfold quantEnvelopeVal quantEnvelope
  generalize (Plane.imageMinMax p).1 = a at minPos ordered ⊢
  generalize (Plane.imageMinMax p).2 = b at ordered ⊢
  have ratio : 0 < b / a := div_pos (minPos.trans_le ordered) minPos
  have arg : (0 : F) < 250 / (b / a) := div_pos (by norm_num) ratio
  have dev := sqrtPos _ arg
  have asym : 0 < if m.sqrt (250 / (b / a)) < 2 then m.sqrt (250 / (b / a)) else 2 := by
    split
    · exact dev
    · exact two_pos
  simp only [FloatVal.fin_div_fin minPos.ne', FloatVal.fin_div_fin ratio.ne',
    FloatVal.sqrt_fin_of_nonneg _ arg.le, FloatVal.ite_fin_lt_fin, FloatVal.fin_mul_fin,
    FloatVal.fin_div_fin (mul_pos asym dev).ne', FloatVal.fin_div_fin asym.ne']

omit [FloorRing F] in
/-- **A field with a zero or cells of both signs aborts**: the ratio of its extremes is `+inf`,
`0`, negative or NaN, `qf_lower` or `qf_higher` is NaN, and `qf_higher / qf_lower < 253` is
false, for every square root with `sqrt(0) = 0`. -/
theorem quantEnvelopeVal_abort (m : MathFns F) (p : Plane F) (sqrtZero : m.sqrt 0 = 0)
    (signs : (Plane.imageMinMax p).1 ≤ 0 ∧ 0 ≤ (Plane.imageMinMax p).2) :
    ¬ (quantEnvelopeVal m p).2 / (quantEnvelopeVal m p).1 < .fin 253 := by
  unfold quantEnvelopeVal
  generalize (Plane.imageMinMax p).1 = a at signs ⊢
  generalize (Plane.imageMinMax p).2 = b at signs ⊢
  dsimp only
  have two : (0 : F) < 2 := two_pos
  rcases signs.1.lt_or_eq with negative | rfl <;> rcases signs.2.lt_or_eq with positive | rfl
  · -- both signs: `250 / ratio` is negative and its square root NaN
    have ratio : b / a < 0 := div_neg_of_pos_of_neg positive negative
    simp only [FloatVal.fin_div_fin negative.ne, FloatVal.fin_div_fin ratio.ne,
      FloatVal.sqrt_fin_of_neg _ (div_neg_of_pos_of_neg (by norm_num : (0 : F) < 250) ratio),
      FloatVal.not_nan_lt, if_false, FloatVal.mul_nan, FloatVal.div_nan, FloatVal.nan_div,
      FloatVal.not_nan_lt, not_false_eq_true]
  · -- the maximum is 0: the ratio is 0 and `250 / 0 = +inf`
    simp only [FloatVal.fin_div_fin negative.ne, zero_div,
      FloatVal.fin_div_zero (by norm_num : (0 : F) < 250), FloatVal.sqrt_inf_false,
      FloatVal.not_inf_false_lt_fin, if_false, FloatVal.fin_mul_inf_of_pos two,
      FloatVal.inf_div_fin_of_pos _ two, FloatVal.fin_div_inf, FloatVal.fin_zero_mul_inf,
      FloatVal.nan_div, FloatVal.not_nan_lt, not_false_eq_true]
  · -- the minimum is 0: the ratio is `+inf`, the deviation 0 and `qf_lower = 0 / 0`
    simp only [FloatVal.fin_div_zero positive, FloatVal.fin_div_inf,
      FloatVal.sqrt_fin_of_nonneg _ le_rfl, sqrtZero, FloatVal.fin_lt_fin, two, if_true,
      FloatVal.fin_mul_fin, mul_zero, FloatVal.fin_zero_div_zero, FloatVal.mul_nan,
      FloatVal.div_nan, FloatVal.not_nan_lt, not_false_eq_true]
  · -- both extremes 0: the ratio is `0 / 0`
    simp only [FloatVal.fin_zero_div_zero, FloatVal.div_nan, FloatVal.sqrt_nan,
      FloatVal.not_nan_lt, if_false, FloatVal.mul_nan, FloatVal.nan_div, FloatVal.not_nan_lt,
      not_false_eq_true]

/-- The undo at one cell: `if (q > last_q && dist > 1.015 * last_dist) q = last_q`. -/
def revertCell (q lastQ dist lastDist : F) : F :=
  if q > lastQ ∧ dist > 1.015 * lastDist then lastQ else q

/-- The pull towards the initial field at one cell, at iteration 1:
`clamp = 0.4 * q + 0.6 * init`; a cell below it is raised to it and clamped. -/
def floorCell (q init qfLower qfHigher : F) : F :=
  let clamp := (1 - 0.6) * q + 0.6 * init
  if q < clamp then clampQuant clamp qfLower qfHigher else q

/-- The raise of a cell by `diff > 1`: `q *= diff`, and if that leaves the quantised value
`int(q * InvGlobalScale() + 0.5)` where it was, `q = old + Scale()` instead. -/
def raiseCell (q diff scale invGlobalScale : F) : F :=
  if castToInt (q * invGlobalScale + 0.5) = castToInt (q * diff * invGlobalScale + 0.5) then
    q + scale
  else q * diff

/-- The update at one cell with `cur_pow == 0`: raise the cell if its score is above target,
then clamp. -/
def updateCell (q dist butteraugliTarget scale invGlobalScale qfLower qfHigher : F) : F :=
  let diff := dist / butteraugliTarget
  clampQuant (if diff > 1 then raiseCell q diff scale invGlobalScale else q) qfLower qfHigher

/-- The update at one cell with `cur_pow != 0`: a cell at or below target is multiplied by
`pow(diff, cur_pow)`, one above is raised; then clamp. -/
def updateCellPow (pow : F → F → F) (curPow q dist butteraugliTarget scale invGlobalScale qfLower
    qfHigher : F) : F :=
  let diff := dist / butteraugliTarget
  clampQuant (if diff ≤ 1 then q * pow diff curPow else raiseCell q diff scale invGlobalScale)
    qfLower qfHigher

/-- The state of the default search between its steps. `lastTileDistmapLocalopt` starts as the
empty image; it is read only from iteration 2 on, after it has been set. -/
structure FbqState (F : Type) where
  quantField : Plane F
  lastQuantField : Plane F
  lastTileDistmapLocalopt : Plane F
  setQuantFieldCalls : List (F × Plane F)

section Model

variable (m : MathFns F) (cmp : Comparator F) (quantizer : QuantizerScales F)
  (acs : AcStrategyImage) (butteraugliTarget initialQuantDc : F) (initialQuantField : Plane F)
  (qfLower qfHigher : F)

/-- The first half of iteration `i`: `SetQuantField`, the round trip and the comparison, the two
tile maps, the undo (for `i > 1`) and the copies of the field and of the local map. Returns the
primary tile map alongside. -/
def roundtripStep (i : ℕ) (st : FbqState F) : FbqState F × Plane F :=
  let diffmap := (cmp.roundtrip i initialQuantDc st.quantField).2
  let tileDistmap := tileDistMap m.pow diffmap 8 (kMargins i) acs
  let tileDistmapLocalopt := tileDistMap m.pow diffmap 8 2 acs
  let quantField :=
    if 1 < i then
      st.quantField.updateCells fun x y q => revertCell q (st.lastQuantField.row y x)
        (tileDistmapLocalopt.row y x) (st.lastTileDistmapLocalopt.row y x)
    else st.quantField
  (⟨quantField, quantField, tileDistmapLocalopt,
    st.setQuantFieldCalls ++ [(initialQuantDc, st.quantField)]⟩, tileDistmap)

/-- The second half of iteration `i`, run when `i < max_butteraugli_iters`: the pull towards the
initial field at `i = 1`, then the update with the quantizer's scales. -/
def refineStep (i : ℕ) (scale invGlobalScale : F) (st : FbqState F) (tileDistmap : Plane F) :
    FbqState F :=
  let quantField :=
    if i = 1 then
      st.quantField.updateCells fun x y q =>
        floorCell q (initialQuantField.row y x) qfLower qfHigher
    else st.quantField
  let quantField :=
    if curPow butteraugliTarget i = 0 then
      quantField.updateCells fun x y q => updateCell q (tileDistmap.row y x) butteraugliTarget
        scale invGlobalScale qfLower qfHigher
    else
      quantField.updateCells fun x y q => updateCellPow m.pow (curPow butteraugliTarget i) q
        (tileDistmap.row y x) butteraugliTarget scale invGlobalScale qfLower qfHigher
  { st with quantField := quantField }

/-- A whole iteration `i < max_butteraugli_iters`. -/
def fbqIteration (i : ℕ) (st : FbqState F) : FbqState F :=
  refineStep m butteraugliTarget initialQuantField qfLower qfHigher i
    (quantizer.scale initialQuantDc st.quantField)
    (quantizer.invGlobalScale initialQuantDc st.quantField)
    (roundtripStep m cmp acs initialQuantDc i st).1
    (roundtripStep m cmp acs initialQuantDc i st).2

/-- The loop from iteration `i` with `n` iterations left before the last one, which stops after
the copies (`if (i == max_butteraugli_iters) break;`). -/
def fbqLoop : ℕ → ℕ → FbqState F → FbqState F
  | 0, i, st => (roundtripStep m cmp acs initialQuantDc i st).1
  | n + 1, i, st =>
    fbqLoop n (i + 1) (fbqIteration m cmp quantizer acs butteraugliTarget initialQuantDc
      initialQuantField qfLower qfHigher i st)

/-- The state entering iteration `i` from `start`: the iterations `0, …, i - 1` in turn. -/
def fbqStateAt (start : FbqState F) : ℕ → FbqState F
  | 0 => start
  | i + 1 => fbqIteration m cmp quantizer acs butteraugliTarget initialQuantDc initialQuantField
      qfLower qfHigher i (fbqStateAt start i)

end Model

/-- **`FindBestQuantization`**: the `SetQuantField` calls it makes, in order, or `none` when an
assertion aborts: one of `AdjustQuantField`'s, or `JXL_ASSERT(qf_higher / qf_lower < 253)` on the
envelope computed in `float` (`quantEnvelopeVal`). The loop clamps with the envelope's values as
`quantEnvelope` computes them, which are the float ones on a positive field. -/
def findBestQuantization (m : MathFns F) (cmp : Comparator F) (quantizer : QuantizerScales F)
    (acs : AcStrategyImage) (butteraugliTarget : F) (maxButteraugliIters : ℕ)
    (quantField : Plane F) : Option (List (F × Plane F)) :=
  let initialQuantDc := initialQuantDC m butteraugliTarget
  if AdjustQuantFieldAsserts acs quantField then
    let initialQuantField := adjustQuantField acs quantField
    let qfLower := (quantEnvelope m initialQuantField).1
    let qfHigher := (quantEnvelope m initialQuantField).2
    let envelope := quantEnvelopeVal m initialQuantField
    if envelope.2 / envelope.1 < .fin 253 then
      let st := fbqLoop m cmp quantizer acs butteraugliTarget initialQuantDc initialQuantField
        qfLower qfHigher maxButteraugliIters 0
        ⟨initialQuantField, initialQuantField, Plane.filled 0 0 0, []⟩
      some (st.setQuantFieldCalls ++ [(initialQuantDc, st.quantField)])
    else none
  else none

section Trace

variable {m : MathFns F} {cmp : Comparator F} {quantizer : QuantizerScales F}
  {acs : AcStrategyImage} {butteraugliTarget initialQuantDc : F} {initialQuantField : Plane F}
  {qfLower qfHigher : F}

/-- **The loop runs the iterations in order**: from the state entering iteration `i`, with `n`
iterations before the last, it ends with the round trip of iteration `i + n`. -/
theorem fbqLoop_fbqStateAt (start : FbqState F) : ∀ n i,
    fbqLoop m cmp quantizer acs butteraugliTarget initialQuantDc initialQuantField qfLower qfHigher
        n i (fbqStateAt m cmp quantizer acs butteraugliTarget initialQuantDc initialQuantField
          qfLower qfHigher start i) =
      (roundtripStep m cmp acs initialQuantDc (i + n) (fbqStateAt m cmp quantizer acs
        butteraugliTarget initialQuantDc initialQuantField qfLower qfHigher start (i + n))).1
  | 0, _ => rfl
  | n + 1, i => by
    have next := fbqLoop_fbqStateAt start n (i + 1)
    rw [show i + 1 + n = i + (n + 1) by omega] at next
    exact next

/-- Each iteration hands its entering field to the quantizer, after the calls before it. -/
theorem setQuantFieldCalls_fbqStateAt (start : FbqState F) : ∀ i,
    (fbqStateAt m cmp quantizer acs butteraugliTarget initialQuantDc initialQuantField qfLower
      qfHigher start i).setQuantFieldCalls = start.setQuantFieldCalls ++
        (List.range i).map fun j => (initialQuantDc, (fbqStateAt m cmp quantizer acs
          butteraugliTarget initialQuantDc initialQuantField qfLower qfHigher start j).quantField)
  | 0 => by simp [fbqStateAt]
  | i + 1 => by
    rw [List.range_succ, List.map_append, ← List.append_assoc,
      ← setQuantFieldCalls_fbqStateAt start i]
    rfl

/-- The loop from the start of a run ends with the round trip of its last iteration. -/
theorem fbqLoop_eq_fbqStateAt (start : FbqState F) (n : ℕ) :
    fbqLoop m cmp quantizer acs butteraugliTarget initialQuantDc initialQuantField qfLower qfHigher
        n 0 start =
      (roundtripStep m cmp acs initialQuantDc n (fbqStateAt m cmp quantizer acs butteraugliTarget
        initialQuantDc initialQuantField qfLower qfHigher start n)).1 := by
  conv_rhs => rw [← Nat.zero_add n]
  exact fbqLoop_fbqStateAt start n 0

omit [FloorRing F] in
/-- The round trip keeps the size of the field. -/
theorem size_roundtripStep (i : ℕ) (st : FbqState F) :
    (roundtripStep m cmp acs initialQuantDc i st).1.quantField.xsize = st.quantField.xsize ∧
      (roundtripStep m cmp acs initialQuantDc i st).1.quantField.ysize = st.quantField.ysize := by
  dsimp only [roundtripStep]
  split_ifs <;> simp

/-- An iteration keeps the size of the field. -/
theorem size_fbqIteration (i : ℕ) (st : FbqState F) :
    (fbqIteration m cmp quantizer acs butteraugliTarget initialQuantDc initialQuantField qfLower
      qfHigher i st).quantField.xsize = st.quantField.xsize ∧
    (fbqIteration m cmp quantizer acs butteraugliTarget initialQuantDc initialQuantField qfLower
      qfHigher i st).quantField.ysize = st.quantField.ysize := by
  dsimp only [fbqIteration, refineStep, roundtripStep]
  split_ifs <;> simp

/-- The iterations keep the size of the field. -/
theorem size_fbqStateAt (start : FbqState F) : ∀ i,
    (fbqStateAt m cmp quantizer acs butteraugliTarget initialQuantDc initialQuantField qfLower
      qfHigher start i).quantField.xsize = start.quantField.xsize ∧
    (fbqStateAt m cmp quantizer acs butteraugliTarget initialQuantDc initialQuantField qfLower
      qfHigher start i).quantField.ysize = start.quantField.ysize
  | 0 => ⟨rfl, rfl⟩
  | i + 1 => ⟨(size_fbqIteration i _).1.trans (size_fbqStateAt start i).1,
      (size_fbqIteration i _).2.trans (size_fbqStateAt start i).2⟩

end Trace

/-- **The calls of a run**: when the assertion passes, the default search hands the quantizer the
field entering each iteration `0, …, max_butteraugli_iters`, then the final field. -/
theorem findBestQuantization_eq (m : MathFns F) (cmp : Comparator F)
    (quantizer : QuantizerScales F) (acs : AcStrategyImage) (butteraugliTarget : F)
    (maxButteraugliIters : ℕ) (quantField : Plane F) (asserts : AdjustQuantFieldAsserts acs quantField)
    (passes : (quantEnvelopeVal m (adjustQuantField acs quantField)).2 /
      (quantEnvelopeVal m (adjustQuantField acs quantField)).1 < .fin 253) :
    let initialQuantDc := initialQuantDC m butteraugliTarget
    let initialQuantField := adjustQuantField acs quantField
    let stateAt := fbqStateAt m cmp quantizer acs butteraugliTarget initialQuantDc
      initialQuantField (quantEnvelope m initialQuantField).1 (quantEnvelope m initialQuantField).2
      ⟨initialQuantField, initialQuantField, Plane.filled 0 0 0, []⟩
    findBestQuantization m cmp quantizer acs butteraugliTarget maxButteraugliIters quantField =
      some ((List.range (maxButteraugliIters + 1)).map (fun j =>
          (initialQuantDc, (stateAt j).quantField)) ++
        [(initialQuantDc, (roundtripStep m cmp acs initialQuantDc maxButteraugliIters
          (stateAt maxButteraugliIters)).1.quantField)]) := by
  intro initialQuantDc initialQuantField stateAt
  unfold findBestQuantization
  dsimp only
  rw [if_pos asserts, if_pos passes, fbqLoop_eq_fbqStateAt]
  have calls : ∀ st : FbqState F, (roundtripStep m cmp acs initialQuantDc maxButteraugliIters
      st).1.setQuantFieldCalls = st.setQuantFieldCalls ++ [(initialQuantDc, st.quantField)] :=
    fun _ => rfl
  rw [calls, setQuantFieldCalls_fbqStateAt, List.range_succ, List.map_append]
  rfl

/-- Call `i + 1` of a run that passes its assertions, for `i < max_butteraugli_iters`, hands the
quantizer the field of the state entering iteration `i + 1`. -/
theorem findBestQuantization_call (m : MathFns F) (cmp : Comparator F)
    (quantizer : QuantizerScales F) (acs : AcStrategyImage) (butteraugliTarget : F)
    (maxButteraugliIters : ℕ) (quantField : Plane F) (asserts : AdjustQuantFieldAsserts acs quantField)
    (passes : (quantEnvelopeVal m (adjustQuantField acs quantField)).2 /
      (quantEnvelopeVal m (adjustQuantField acs quantField)).1 < .fin 253)
    {i : ℕ} (running : i < maxButteraugliIters) :
    (findBestQuantization m cmp quantizer acs butteraugliTarget maxButteraugliIters
        quantField).bind (·[i + 1]?) =
      some (initialQuantDC m butteraugliTarget, (fbqStateAt m cmp quantizer acs butteraugliTarget
        (initialQuantDC m butteraugliTarget) (adjustQuantField acs quantField)
        (quantEnvelope m (adjustQuantField acs quantField)).1
        (quantEnvelope m (adjustQuantField acs quantField)).2
        ⟨adjustQuantField acs quantField, adjustQuantField acs quantField, Plane.filled 0 0 0, []⟩
        (i + 1)).quantField) := by
  rw [findBestQuantization_eq _ _ _ _ _ _ _ asserts passes, Option.some_bind,
    List.getElem?_append_left (by simp; omega), List.getElem?_map, List.getElem?_range (by omega)]
  rfl

/-- **The last iteration reads past `kMargins`**: with `max_butteraugli_iters = 100` the loop ends
with the round trip of iteration 100, whose primary tile map takes its margin from
`kMargins[100]`, and the table has no entry 100. -/
theorem fbqLoop_reads_kMargins_past_end (m : MathFns F) (cmp : Comparator F)
    (quantizer : QuantizerScales F) (acs : AcStrategyImage) (butteraugliTarget initialQuantDc : F)
    (initialQuantField : Plane F) (qfLower qfHigher : F) (start : FbqState F) :
    let last := fbqStateAt m cmp quantizer acs butteraugliTarget initialQuantDc initialQuantField
      qfLower qfHigher start 100
    fbqLoop m cmp quantizer acs butteraugliTarget initialQuantDc initialQuantField qfLower qfHigher
        100 0 start = (roundtripStep m cmp acs initialQuantDc 100 last).1 ∧
      (roundtripStep m cmp acs initialQuantDc 100 last).2 = tileDistMap m.pow
        (cmp.roundtrip 100 initialQuantDc last.quantField).2 8 (kMargins 100) acs ∧
      (List.replicate 100 (0 : ℤ))[100]? = none :=
  ⟨fbqLoop_eq_fbqStateAt start 100, rfl, List.getElem?_eq_none (List.length_replicate 100 0).le⟩

open AcStrategyImage

section Uniform

/-- The planes of the default search are constant on transforms, and the field has the grid's
size. -/
structure FbqState.Uniform (acs : AcStrategyImage) (st : FbqState F) : Prop where
  sized : st.quantField.xsize = acs.xsize ∧ st.quantField.ysize = acs.ysize
  quantField : acs.RegionConstant st.quantField
  lastQuantField : acs.RegionConstant st.lastQuantField
  lastTileDistmapLocalopt : acs.RegionConstant st.lastTileDistmapLocalopt
  calls : ∀ c ∈ st.setQuantFieldCalls, acs.RegionConstant c.2

variable {m : MathFns F} {cmp : Comparator F} {quantizer : QuantizerScales F}
  {acs : AcStrategyImage} {butteraugliTarget initialQuantDc : F} {initialQuantField : Plane F}
  {qfLower qfHigher : F} (tiling : acs.Tiling) (diffmaps : cmp.DiffmapsMatch acs)
include tiling diffmaps

omit [FloorRing F] in
/-- The round trip keeps the invariant, and its primary tile map is constant on transforms. -/
theorem uniform_roundtripStep (i : ℕ) {st : FbqState F} (inv : st.Uniform acs) :
    (roundtripStep m cmp acs initialQuantDc i st).1.Uniform acs ∧
      acs.RegionConstant (roundtripStep m cmp acs initialQuantDc i st).2 := by
  have tiles := cmp.tilesMatch_roundtrip diffmaps i initialQuantDc st.quantField
  have localopt := regionConstant_tileDistMap m.pow 2 tiling tiles
  have reverted : acs.RegionConstant (st.quantField.updateCells fun x y q => revertCell q
      (st.lastQuantField.row y x) ((tileDistMap m.pow (cmp.roundtrip i initialQuantDc
        st.quantField).2 8 2 acs).row y x) (st.lastTileDistmapLocalopt.row y x)) :=
    inv.quantField.updateCells tiling inv.sized fun ax ay x y first inRegion => by
      simp only [inv.lastQuantField ax ay x y first inRegion, localopt ax ay x y first inRegion,
        inv.lastTileDistmapLocalopt ax ay x y first inRegion]
  have field : acs.RegionConstant (if 1 < i then st.quantField.updateCells fun x y q =>
      revertCell q (st.lastQuantField.row y x) ((tileDistMap m.pow (cmp.roundtrip i initialQuantDc
        st.quantField).2 8 2 acs).row y x) (st.lastTileDistmapLocalopt.row y x)
      else st.quantField) := by
    split
    · exact reverted
    · exact inv.quantField
  refine ⟨⟨?_, field, field, localopt, ?_⟩, regionConstant_tileDistMap m.pow _ tiling tiles⟩
  · dsimp only [roundtripStep]
    split <;> simpa using inv.sized
  · intro c member
    rcases List.mem_append.mp member with old | new
    · exact inv.calls c old
    · rw [List.mem_singleton.mp new]
      exact inv.quantField

omit diffmaps in
/-- The refinement keeps the invariant: the pull towards the initial field and both updates read
only planes that are constant on transforms. -/
theorem uniform_refineStep (i : ℕ) (scale invGlobalScale : F) {st : FbqState F} {tile : Plane F}
    (inv : st.Uniform acs) (tileConst : acs.RegionConstant tile)
    (initConst : acs.RegionConstant initialQuantField) :
    (refineStep m butteraugliTarget initialQuantField qfLower qfHigher i scale invGlobalScale st
      tile).Uniform acs := by
  have floored : acs.RegionConstant (st.quantField.updateCells fun x y q =>
      floorCell q (initialQuantField.row y x) qfLower qfHigher) :=
    inv.quantField.updateCells tiling inv.sized fun ax ay x y first inRegion => by
      simp only [initConst ax ay x y first inRegion]
  have sized : ∀ p : Plane F, p.xsize = acs.xsize ∧ p.ysize = acs.ysize →
      ∀ f : ℕ → ℕ → F → F, (p.updateCells f).xsize = acs.xsize ∧
        (p.updateCells f).ysize = acs.ysize := fun p same f => by simpa using same
  refine ⟨?_, ?_, inv.lastQuantField, inv.lastTileDistmapLocalopt, inv.calls⟩
  · dsimp only [refineStep]
    split_ifs <;> simpa using inv.sized
  · dsimp only [refineStep]
    split_ifs
    all_goals first
      | exact floored.updateCells tiling (sized _ inv.sized _) fun ax ay x y first inRegion => by
          simp only [tileConst ax ay x y first inRegion]
      | exact inv.quantField.updateCells tiling inv.sized fun ax ay x y first inRegion => by
          simp only [tileConst ax ay x y first inRegion]

/-- A whole iteration keeps the invariant. -/
theorem uniform_fbqIteration (i : ℕ) {st : FbqState F} (inv : st.Uniform acs)
    (initConst : acs.RegionConstant initialQuantField) :
    (fbqIteration m cmp quantizer acs butteraugliTarget initialQuantDc initialQuantField qfLower
      qfHigher i st).Uniform acs :=
  uniform_refineStep tiling i _ _ (uniform_roundtripStep tiling diffmaps i inv).1
    (uniform_roundtripStep tiling diffmaps i inv).2 initConst

/-- The whole loop keeps the invariant. -/
theorem uniform_fbqLoop (initConst : acs.RegionConstant initialQuantField) :
    ∀ (n i : ℕ) (st : FbqState F), st.Uniform acs →
      (fbqLoop m cmp quantizer acs butteraugliTarget initialQuantDc initialQuantField qfLower
        qfHigher n i st).Uniform acs
  | 0, i, _, inv => (uniform_roundtripStep tiling diffmaps i inv).1
  | n + 1, i, _, inv =>
    uniform_fbqLoop initConst n (i + 1) _ (uniform_fbqIteration tiling diffmaps i inv initConst)

end Uniform

section Envelope

/-- Every cell of the plane lies in `[qfLower, qfHigher]`. -/
def InEnvelope (qfLower qfHigher : F) (p : Plane F) : Prop :=
  ∀ x y, x < p.xsize → y < p.ysize → qfLower ≤ p.row y x ∧ p.row y x ≤ qfHigher

omit [FloorRing F] in
/-- A per-cell loop whose every result lies in the envelope leaves the plane in it. -/
theorem inEnvelope_updateCells {qfLower qfHigher : F} (p : Plane F) {f : ℕ → ℕ → F → F}
    (clamped : ∀ x y v, qfLower ≤ f x y v ∧ f x y v ≤ qfHigher) :
    InEnvelope qfLower qfHigher (p.updateCells f) := fun x y left below => by
  rw [Plane.updateCells_row_of_lt f (by simpa using left) (by simpa using below)]
  exact clamped x y _

variable {m : MathFns F} {cmp : Comparator F} {quantizer : QuantizerScales F}
  {acs : AcStrategyImage} {butteraugliTarget initialQuantDc : F} {initialQuantField : Plane F}
  {qfLower qfHigher : F}

/-- The refinement ends in a clamp of every cell, so its field is in the envelope. -/
theorem inEnvelope_refineStep (ordered : qfLower ≤ qfHigher) (i : ℕ) (scale invGlobalScale : F)
    (st : FbqState F) (tile : Plane F) : InEnvelope qfLower qfHigher
      (refineStep m butteraugliTarget initialQuantField qfLower qfHigher i scale invGlobalScale st
        tile).quantField := by
  dsimp only [refineStep]
  split_ifs <;> exact inEnvelope_updateCells _ fun _ _ _ => clampQuant_mem ordered

/-- The state entering iteration `i ≥ 1`: the field is in the envelope, the copy of the last
field has its size, and from iteration 2 on that copy is in the envelope too. -/
structure FbqState.Enveloped (qfLower qfHigher : F) (i : ℕ) (st : FbqState F) : Prop where
  quantField : InEnvelope qfLower qfHigher st.quantField
  sized : st.lastQuantField.xsize = st.quantField.xsize ∧
    st.lastQuantField.ysize = st.quantField.ysize
  lastQuantField : 1 < i → InEnvelope qfLower qfHigher st.lastQuantField

omit [FloorRing F] in
/-- The round trip from an enveloped state keeps the field in the envelope: the undo only puts
back values of the last field. -/
theorem inEnvelope_roundtripStep {i : ℕ} {st : FbqState F}
    (inv : st.Enveloped qfLower qfHigher i) :
    InEnvelope qfLower qfHigher (roundtripStep m cmp acs initialQuantDc i st).1.quantField := by
  dsimp only [roundtripStep]
  split
  case isTrue later =>
    intro x y left below
    simp only [Plane.updateCells_xsize, Plane.updateCells_ysize] at left below
    rw [Plane.updateCells_row_of_lt _ left below, revertCell]
    split
    · exact inv.lastQuantField later x y (by rw [inv.sized.1]; exact left)
        (by rw [inv.sized.2]; exact below)
    · exact inv.quantField x y left below
  case isFalse => exact inv.quantField

/-- After an iteration the copy of the last field has the size of the field. -/
theorem sized_fbqIteration (i : ℕ) (st : FbqState F) :
    let next := fbqIteration m cmp quantizer acs butteraugliTarget initialQuantDc initialQuantField
      qfLower qfHigher i st
    next.lastQuantField.xsize = next.quantField.xsize ∧
      next.lastQuantField.ysize = next.quantField.ysize := by
  dsimp only [fbqIteration, refineStep, roundtripStep]
  split_ifs <;> simp

/-- A whole iteration from an enveloped state leads to an enveloped state. -/
theorem enveloped_fbqIteration (ordered : qfLower ≤ qfHigher) {i : ℕ} {st : FbqState F}
    (inv : st.Enveloped qfLower qfHigher i) :
    (fbqIteration m cmp quantizer acs butteraugliTarget initialQuantDc initialQuantField qfLower
      qfHigher i st).Enveloped qfLower qfHigher (i + 1) where
  quantField := inEnvelope_refineStep ordered i _ _ _ _
  sized := sized_fbqIteration i st
  lastQuantField _ := inEnvelope_roundtripStep inv

/-- From iteration 1 on, the state entering every iteration is enveloped. -/
theorem enveloped_fbqStateAt (ordered : qfLower ≤ qfHigher) (start : FbqState F) : ∀ i, 0 < i →
    (fbqStateAt m cmp quantizer acs butteraugliTarget initialQuantDc initialQuantField qfLower
      qfHigher start i).Enveloped qfLower qfHigher i
  | 1, _ => ⟨inEnvelope_refineStep ordered 0 _ _ _ _, sized_fbqIteration 0 start,
      fun never => absurd never (lt_irrefl 1)⟩
  | i + 2, _ => enveloped_fbqIteration ordered (enveloped_fbqStateAt ordered start (i + 1) i.succ_pos)

omit [FloorRing F] in
/-- The pull towards the initial field keeps a field in the envelope. -/
theorem inEnvelope_floorCell (ordered : qfLower ≤ qfHigher) {p : Plane F}
    (inside : InEnvelope qfLower qfHigher p) : InEnvelope qfLower qfHigher
      (p.updateCells fun x y q => floorCell q (initialQuantField.row y x) qfLower qfHigher) := by
  intro x y left below
  simp only [Plane.updateCells_xsize, Plane.updateCells_ysize] at left below
  rw [Plane.updateCells_row_of_lt _ left below, floorCell]
  split
  · exact clampQuant_mem ordered
  · exact inside x y left below

/-- From an enveloped state the rest of the loop hands only enveloped fields to the quantizer,
one per remaining iteration, and ends with an enveloped field. -/
theorem enveloped_fbqLoop (ordered : qfLower ≤ qfHigher) :
    ∀ (n i : ℕ) (st : FbqState F), st.Enveloped qfLower qfHigher i →
      ∃ added, (fbqLoop m cmp quantizer acs butteraugliTarget initialQuantDc initialQuantField
          qfLower qfHigher n i st).setQuantFieldCalls = st.setQuantFieldCalls ++ added ∧
        added.length = n + 1 ∧ (∀ c ∈ added, InEnvelope qfLower qfHigher c.2) ∧
        InEnvelope qfLower qfHigher (fbqLoop m cmp quantizer acs butteraugliTarget initialQuantDc
          initialQuantField qfLower qfHigher n i st).quantField
  | 0, i, st, inv => ⟨[(initialQuantDc, st.quantField)], rfl, rfl,
      fun c member => List.mem_singleton.mp member ▸ inv.quantField,
      inEnvelope_roundtripStep inv⟩
  | n + 1, i, st, inv => by
    obtain ⟨added, calls, length, enveloped, final⟩ :=
      enveloped_fbqLoop ordered n (i + 1) _ (enveloped_fbqIteration ordered inv)
    refine ⟨(initialQuantDc, st.quantField) :: added, ?_, by simp [length], ?_, final⟩
    · rw [fbqLoop, calls]
      simp [fbqIteration, refineStep, roundtripStep]
    · intro c member
      rcases List.mem_cons.mp member with rfl | later
      · exact inv.quantField
      · exact enveloped c later

end Envelope

section Raise

variable {q diff inv qfLower qfHigher : F}

/-- The raise of a positive cell by `diff > 1` with `Scale() = 1 / InvGlobalScale() > 0` lands
above the cell and on a larger quantised value: either `q · diff` already moves
`⌊q · inv + 1/2⌋`, or the fallback `q + 1 / inv` moves it by one. -/
theorem raiseCell_lifts (qPos : 0 < q) (over : 1 < diff) (invPos : 0 < inv) :
    q < raiseCell q diff (1 / inv) inv ∧
      ⌊q * inv + 1 / 2⌋ < ⌊raiseCell q diff (1 / inv) inv * inv + 1 / 2⌋ := by
  have half : (0.5 : F) = 1 / 2 := by norm_num
  have grown : q < q * diff := lt_mul_of_one_lt_right qPos over
  have scaled : q * inv ≤ q * diff * inv := mul_le_mul_of_nonneg_right grown.le invPos.le
  unfold raiseCell
  rw [castToInt_of_nonneg (by positivity), castToInt_of_nonneg (by positivity), half]
  split_ifs with same
  · refine ⟨lt_add_of_pos_right q (by positivity), ?_⟩
    rw [show (q + 1 / inv) * inv + 1 / 2 = q * inv + 1 / 2 + 1 by
      rw [add_mul, one_div_mul_cancel invPos.ne']; ring, Int.floor_add_one]
    exact lt_add_one _
  · exact ⟨grown, lt_of_le_of_ne (Int.floor_mono (by linarith)) same⟩

/-- The clamp after a raise keeps the cell at or above where it was, and its quantised value
raised unless the ceiling cuts it. -/
theorem clampQuant_lifts {v : F} (ordered : qfLower ≤ qfHigher) (belowCeil : q ≤ qfHigher)
    (above : q < v) (invPos : 0 < inv) :
    ⌊q * inv + 1 / 2⌋ < ⌊v * inv + 1 / 2⌋ →
      q ≤ clampQuant v qfLower qfHigher ∧ (clampQuant v qfLower qfHigher = qfHigher ∨
        ⌊q * inv + 1 / 2⌋ < ⌊clampQuant v qfLower qfHigher * inv + 1 / 2⌋) := by
  intro lifted
  unfold clampQuant
  dsimp only
  split_ifs with high low low
  · linarith
  · exact ⟨belowCeil, .inl rfl⟩
  · refine ⟨by linarith, .inr (lifted.trans_le (Int.floor_mono ?_))⟩
    linarith [mul_le_mul_of_nonneg_right low.le invPos.le]
  · exact ⟨above.le, .inr lifted⟩

/-- **The update step on a cell over target**, in both the plain and the `pow` branch: the
cell's new value is at least its old one, and either the ceiling or a strictly larger quantised
value. -/
theorem update_lifts (pow : F → F → F) (curPow dist butteraugliTarget : F)
    (ordered : qfLower ≤ qfHigher) (qPos : 0 < q) (belowCeil : q ≤ qfHigher)
    (targetPos : 0 < butteraugliTarget) (over : butteraugliTarget < dist) (invPos : 0 < inv) :
    let q' := if curPow = 0 then updateCell q dist butteraugliTarget (1 / inv) inv qfLower qfHigher
      else updateCellPow pow curPow q dist butteraugliTarget (1 / inv) inv qfLower qfHigher
    q ≤ q' ∧ (q' = qfHigher ∨ ⌊q * inv + 1 / 2⌋ < ⌊q' * inv + 1 / 2⌋) := by
  have diff : 1 < dist / butteraugliTarget := (one_lt_div targetPos).mpr over
  have raised : ∀ branch : F, branch = raiseCell q (dist / butteraugliTarget) (1 / inv) inv →
      q ≤ clampQuant branch qfLower qfHigher ∧ (clampQuant branch qfLower qfHigher = qfHigher ∨
        ⌊q * inv + 1 / 2⌋ < ⌊clampQuant branch qfLower qfHigher * inv + 1 / 2⌋) := by
    rintro _ rfl
    exact clampQuant_lifts ordered belowCeil (raiseCell_lifts qPos diff invPos).1 invPos
      (raiseCell_lifts qPos diff invPos).2
  dsimp only
  split
  · exact raised _ (if_pos diff)
  · exact raised _ (if_neg (not_le.mpr diff))

end Raise

section Lower

variable {q qfLower qfHigher : F}

omit [FloorRing F] in
/-- The exponent of the multiplicative update is never negative. -/
theorem curPow_nonneg (butteraugliTarget : F) (i : ℕ) : 0 ≤ curPow butteraugliTarget i := by
  unfold curPow
  dsimp only
  split_ifs with early negative
  · exact le_rfl
  · exact not_lt.mp negative
  · exact le_rfl

omit [FloorRing F] in
/-- A clamp of a value at most `q`, with `q` below the ceiling, is at most `q` unless it lifts the
value to `qf_lower`. -/
theorem clampQuant_le_max {v : F} (below : v ≤ q) (belowCeil : q ≤ qfHigher) :
    clampQuant v qfLower qfHigher ≤ max q qfLower := by
  unfold clampQuant
  dsimp only
  split_ifs with high low low
  · exact le_max_right _ _
  · linarith
  · exact le_max_right _ _
  · exact below.trans (le_max_left _ _)

/-- **The update step never raises a cell at or under target**, in both the plain and the `pow`
branch, for every `pow` at most 1 on `[0, 1]`: the cell's new value lies between `qf_lower` and
the larger of its old value and `qf_lower`. -/
theorem update_not_raised (pow : F → F → F) (curPow dist butteraugliTarget scale inv : F)
    (ordered : qfLower ≤ qfHigher) (qNonneg : 0 ≤ q) (belowCeil : q ≤ qfHigher)
    (targetPos : 0 < butteraugliTarget) (distNonneg : 0 ≤ dist) (under : dist ≤ butteraugliTarget)
    (powLe : ∀ a, 0 ≤ a → a ≤ 1 → pow a curPow ≤ 1) :
    let q' := if curPow = 0 then updateCell q dist butteraugliTarget scale inv qfLower qfHigher
      else updateCellPow pow curPow q dist butteraugliTarget scale inv qfLower qfHigher
    qfLower ≤ q' ∧ q' ≤ max q qfLower := by
  have diffNonneg : 0 ≤ dist / butteraugliTarget := div_nonneg distNonneg targetPos.le
  have diffLe : dist / butteraugliTarget ≤ 1 := (div_le_one targetPos).mpr under
  have clamped : ∀ v, v ≤ q → qfLower ≤ clampQuant v qfLower qfHigher ∧
      clampQuant v qfLower qfHigher ≤ max q qfLower :=
    fun _ below => ⟨(clampQuant_mem ordered).1, clampQuant_le_max below belowCeil⟩
  dsimp only
  split
  · exact clamped _ (by rw [if_neg (not_lt.mpr diffLe)])
  · exact clamped _ (by
      rw [if_pos diffLe]
      exact mul_le_of_le_one_right qNonneg (powLe _ diffNonneg diffLe))

end Lower

/-- **Every field the default search hands to the quantizer is constant on transforms**, for
every tiling, initial field, target, iteration count, comparator whose distance maps cover the
grid, and quantizer. -/
theorem regionConstant_findBestQuantization {m : MathFns F} {cmp : Comparator F}
    {quantizer : QuantizerScales F} {acs : AcStrategyImage} (tiling : acs.Tiling)
    (diffmaps : cmp.DiffmapsMatch acs) (butteraugliTarget : F) (maxButteraugliIters : ℕ)
    {quantField : Plane F} (sized : quantField.xsize = acs.xsize ∧ quantField.ysize = acs.ysize)
    {calls : List (F × Plane F)}
    (run : findBestQuantization m cmp quantizer acs butteraugliTarget maxButteraugliIters
      quantField = some calls) :
    ∀ c ∈ calls, acs.RegionConstant c.2 := by
  unfold findBestQuantization at run
  dsimp only at run
  split at run
  case isFalse => cases run
  case isTrue =>
    split at run
    case isFalse => cases run
    cases run
    have initConst := regionConstant_adjustQuantField tiling sized
    have start : FbqState.Uniform acs ⟨adjustQuantField acs quantField,
        adjustQuantField acs quantField, Plane.filled 0 0 0, []⟩ :=
      ⟨by simpa using sized, initConst, initConst, fun _ _ _ _ _ _ => rfl,
        fun _ member => absurd member (List.not_mem_nil _)⟩
    have final : (fbqLoop m cmp quantizer acs butteraugliTarget (initialQuantDC m butteraugliTarget)
        (adjustQuantField acs quantField) (quantEnvelope m (adjustQuantField acs quantField)).1
        (quantEnvelope m (adjustQuantField acs quantField)).2 maxButteraugliIters 0 _).Uniform acs :=
      uniform_fbqLoop tiling diffmaps initConst maxButteraugliIters 0 _ start
    intro c member
    rcases List.mem_append.mp member with old | new
    · exact final.calls c old
    · rw [List.mem_singleton.mp new]
      exact final.quantField

section Real

/-- The envelope's arithmetic with the real square root: for a range `[a, b]` with `0 < a`,
`qf_lower` is positive, `qf_higher / qf_lower = 250`, `qf_higher` is above `b`, and `qf_lower` is
below `a` exactly when `b / a ≤ 250`. -/
theorem envelope_real (a b : ℝ) (positive : 0 < a) (ordered : a ≤ b) :
    let dev := Real.sqrt (250 / (b / a))
    let asym : ℝ := if dev < 2 then dev else 2
    0 < a / (asym * dev) ∧ a / (asym * dev) ≤ b * (dev / asym) ∧
      b * (dev / asym) / (a / (asym * dev)) = 250 ∧ b ≤ b * (dev / asym) ∧
      (a / (asym * dev) ≤ a ↔ b / a ≤ 250) := by
  intro dev asym
  have ratio : 0 < b / a := div_pos (positive.trans_le ordered) positive
  have square : dev * dev = 250 / (b / a) := Real.mul_self_sqrt (by positivity)
  have devPos : 0 < dev := Real.sqrt_pos.mpr (by positivity)
  have asymPos : 0 < asym := by dsimp only [asym]; split <;> linarith
  have asymLe : asym ≤ dev := by dsimp only [asym]; split <;> linarith
  have high : b ≤ b * (dev / asym) :=
    le_mul_of_one_le_right (positive.le.trans ordered) ((one_le_div asymPos).mpr asymLe)
  have quotient : b * (dev / asym) / (a / (asym * dev)) = 250 :=
    calc b * (dev / asym) / (a / (asym * dev)) = b * (dev / asym * asym) * dev / a := by
          rw [div_div_eq_mul_div]; ring
      _ = b / a * (dev * dev) := by rw [div_mul_cancel₀ _ asymPos.ne']; ring
      _ = 250 := by rw [square, mul_div_cancel₀ _ ratio.ne']
  have lowPos : 0 < a / (asym * dev) := by positivity
  refine ⟨lowPos, ?_, quotient, high, ?_⟩
  · rw [(div_eq_iff lowPos.ne').mp quotient]
    linarith
  · rw [div_le_iff₀ (by positivity), le_mul_iff_one_le_right positive]
    dsimp only [asym]
    split
    case isTrue small =>
      rw [square, one_le_div ratio]
    case isFalse large =>
      have big : 2 * 2 ≤ 250 / (b / a) := square ▸ mul_self_le_mul_self zero_le_two (not_lt.mp large)
      rw [le_div_iff₀ ratio] at big
      exact ⟨fun _ => by linarith, fun _ => by linarith [not_lt.mp large]⟩

/-- The extremes of the unrefined field of a positive initial field on a non-empty grid: every
cell of it is a cell of the input, so the least is positive and at most the greatest. -/
theorem imageMinMax_unrefined {acs : AcStrategyImage} (tiling : acs.Tiling) {quantField : Plane ℝ}
    (sized : quantField.xsize = acs.xsize ∧ quantField.ysize = acs.ysize)
    (nonempty : 0 < acs.xsize ∧ 0 < acs.ysize)
    (positive : ∀ x y, x < quantField.xsize → y < quantField.ysize → 0 < quantField.row y x) :
    let unrefined := adjustQuantField acs quantField
    (∀ x y, x < unrefined.xsize → y < unrefined.ysize → 0 < unrefined.row y x) ∧
      0 < (Plane.imageMinMax unrefined).1 ∧
      (Plane.imageMinMax unrefined).1 ≤ (Plane.imageMinMax unrefined).2 := by
  intro unrefined
  have cellsPositive : ∀ x y, x < unrefined.xsize → y < unrefined.ysize → 0 < unrefined.row y x :=
    fun x y left below => by
      obtain ⟨x', y', left', below', same⟩ :=
        exists_eq_adjustQuantField tiling sized (by simpa [unrefined] using left)
          (by simpa [unrefined] using below)
      exact same ▸ positive x' y' left' below'
  have grid : 0 < unrefined.xsize ∧ 0 < unrefined.ysize := by
    simpa [unrefined, sized.1, sized.2] using nonempty
  obtain ⟨xMin, yMin, leftMin, belowMin, atMin⟩ := Plane.exists_imageMinMax_fst grid
  exact ⟨cellsPositive, atMin ▸ cellsPositive xMin yMin leftMin belowMin,
    (Plane.imageMinMax_fst_le grid.1 grid.2).trans (Plane.le_imageMinMax_snd grid.1 grid.2)⟩

/-- The envelope of a positive initial field on a non-empty grid, with the real square root:
`0 < qf_lower ≤ qf_higher` with ratio 250, every cell of the unrefined field positive and at most
`qf_higher`, and the unrefined field inside the envelope exactly when its range has ratio at most
250. -/
theorem unrefined_envelope (pow : ℝ → ℝ → ℝ) {acs : AcStrategyImage} (tiling : acs.Tiling)
    {quantField : Plane ℝ} (sized : quantField.xsize = acs.xsize ∧ quantField.ysize = acs.ysize)
    (nonempty : 0 < acs.xsize ∧ 0 < acs.ysize)
    (positive : ∀ x y, x < quantField.xsize → y < quantField.ysize → 0 < quantField.row y x) :
    let unrefined := adjustQuantField acs quantField
    let envelope := quantEnvelope ⟨pow, Real.sqrt⟩ unrefined
    0 < envelope.1 ∧ envelope.1 ≤ envelope.2 ∧ envelope.2 / envelope.1 = 250 ∧
      (∀ x y, x < unrefined.xsize → y < unrefined.ysize →
        0 < unrefined.row y x ∧ unrefined.row y x ≤ envelope.2) ∧
      (InEnvelope envelope.1 envelope.2 unrefined ↔
        (Plane.imageMinMax unrefined).2 / (Plane.imageMinMax unrefined).1 ≤ 250) := by
  intro unrefined envelope
  obtain ⟨cellsPositive, minPos, minMax⟩ := imageMinMax_unrefined tiling sized nonempty positive
  have grid : 0 < unrefined.xsize ∧ 0 < unrefined.ysize := by
    simpa [unrefined, sized.1, sized.2] using nonempty
  obtain ⟨xMin, yMin, leftMin, belowMin, atMin⟩ := Plane.exists_imageMinMax_fst grid
  obtain ⟨lowPos, lowHigh, quotient, aboveMax, lowerIff⟩ : 0 < envelope.1 ∧
      envelope.1 ≤ envelope.2 ∧ envelope.2 / envelope.1 = 250 ∧
      (Plane.imageMinMax unrefined).2 ≤ envelope.2 ∧ (envelope.1 ≤ (Plane.imageMinMax unrefined).1 ↔
        (Plane.imageMinMax unrefined).2 / (Plane.imageMinMax unrefined).1 ≤ 250) :=
    envelope_real _ _ minPos minMax
  refine ⟨lowPos, lowHigh, quotient, fun x y left below => ⟨cellsPositive x y left below,
    (Plane.le_imageMinMax_snd left below).trans aboveMax⟩, ?_⟩
  rw [← lowerIff]
  constructor
  · intro inside
    exact atMin ▸ (inside xMin yMin leftMin belowMin).1
  · intro lower x y left below
    exact ⟨lower.trans (Plane.imageMinMax_fst_le left below),
      (Plane.le_imageMinMax_snd left below).trans aboveMax⟩

/-- **The assertions of the default search pass on a positive field**, with the real square
root: `AdjustQuantField`'s on a valid tiling, and the envelope's, whose float values are the
finite ones with quotient 250. -/
theorem findBestQuantization_asserts (pow : ℝ → ℝ → ℝ) {acs : AcStrategyImage} (tiling : acs.Tiling)
    {quantField : Plane ℝ} (sized : quantField.xsize = acs.xsize ∧ quantField.ysize = acs.ysize)
    (nonempty : 0 < acs.xsize ∧ 0 < acs.ysize)
    (positive : ∀ x y, x < quantField.xsize → y < quantField.ysize → 0 < quantField.row y x) :
    AdjustQuantFieldAsserts acs quantField ∧
      (quantEnvelopeVal ⟨pow, Real.sqrt⟩ (adjustQuantField acs quantField)).2 /
        (quantEnvelopeVal ⟨pow, Real.sqrt⟩ (adjustQuantField acs quantField)).1 < .fin 253 := by
  obtain ⟨-, minPos, minMax⟩ := imageMinMax_unrefined tiling sized nonempty positive
  obtain ⟨lowPos, -, quotient, -, -⟩ := unrefined_envelope pow tiling sized nonempty positive
  refine ⟨adjustQuantFieldAsserts_of_tiling tiling sized, ?_⟩
  rw [quantEnvelopeVal_of_pos _ _ (fun _ => Real.sqrt_pos.mpr) minPos minMax,
    FloatVal.fin_div_fin lowPos.ne', FloatVal.fin_lt_fin, quotient]
  norm_num

/-- **The envelope of the default search.** With exact real arithmetic and a positive initial
field on a non-empty grid: `0 < qf_lower ≤ qf_higher` and `qf_higher / qf_lower = 250`, so the
assertion never fires. The first round trip receives the unrefined field (the initial field made
constant on transforms), which lies in the envelope exactly when
`initial_qf_max / initial_qf_min ≤ 250`; once an iteration has run, every later field, the final
one included, lies in the envelope; with no iteration the final call hands the unrefined field
again. -/
theorem findBestQuantization_envelope (pow : ℝ → ℝ → ℝ) (cmp : Comparator ℝ)
    (quantizer : QuantizerScales ℝ) (acs : AcStrategyImage) (tiling : acs.Tiling)
    (butteraugliTarget : ℝ) (maxButteraugliIters : ℕ) (quantField : Plane ℝ)
    (sized : quantField.xsize = acs.xsize ∧ quantField.ysize = acs.ysize)
    (nonempty : 0 < acs.xsize ∧ 0 < acs.ysize)
    (positive : ∀ x y, x < quantField.xsize → y < quantField.ysize → 0 < quantField.row y x) :
    0 < (quantEnvelope ⟨pow, Real.sqrt⟩ (adjustQuantField acs quantField)).1 ∧
      (quantEnvelope ⟨pow, Real.sqrt⟩ (adjustQuantField acs quantField)).1 ≤
        (quantEnvelope ⟨pow, Real.sqrt⟩ (adjustQuantField acs quantField)).2 ∧
      (quantEnvelope ⟨pow, Real.sqrt⟩ (adjustQuantField acs quantField)).2 /
        (quantEnvelope ⟨pow, Real.sqrt⟩ (adjustQuantField acs quantField)).1 = 250 ∧
      ∃ rest, findBestQuantization ⟨pow, Real.sqrt⟩ cmp quantizer acs butteraugliTarget
          maxButteraugliIters quantField =
          some ((initialQuantDC ⟨pow, Real.sqrt⟩ butteraugliTarget,
            adjustQuantField acs quantField) :: rest) ∧
        rest.length = maxButteraugliIters + 1 ∧
        (InEnvelope (quantEnvelope ⟨pow, Real.sqrt⟩ (adjustQuantField acs quantField)).1
            (quantEnvelope ⟨pow, Real.sqrt⟩ (adjustQuantField acs quantField)).2
            (adjustQuantField acs quantField) ↔
          (Plane.imageMinMax (adjustQuantField acs quantField)).2 /
            (Plane.imageMinMax (adjustQuantField acs quantField)).1 ≤ 250) ∧
        (0 < maxButteraugliIters → ∀ c ∈ rest, InEnvelope
          (quantEnvelope ⟨pow, Real.sqrt⟩ (adjustQuantField acs quantField)).1
          (quantEnvelope ⟨pow, Real.sqrt⟩ (adjustQuantField acs quantField)).2 c.2) ∧
        (maxButteraugliIters = 0 → rest =
          [(initialQuantDC ⟨pow, Real.sqrt⟩ butteraugliTarget, adjustQuantField acs quantField)]) := by
  set unrefined := adjustQuantField acs quantField
  set qfLower := (quantEnvelope ⟨pow, Real.sqrt⟩ unrefined).1
  set qfHigher := (quantEnvelope ⟨pow, Real.sqrt⟩ unrefined).2
  set initialQuantDc := initialQuantDC ⟨pow, Real.sqrt⟩ butteraugliTarget
  obtain ⟨lowPos, lowHigh, quotient, -, unrefinedIn⟩ :=
    unrefined_envelope pow tiling sized nonempty positive
  refine ⟨lowPos, lowHigh, quotient, ?_⟩
  let loop := fbqLoop ⟨pow, Real.sqrt⟩ cmp quantizer acs butteraugliTarget initialQuantDc unrefined
    qfLower qfHigher
  obtain ⟨asserts, passes⟩ := findBestQuantization_asserts pow tiling sized nonempty positive
  have run : findBestQuantization ⟨pow, Real.sqrt⟩ cmp quantizer acs butteraugliTarget
      maxButteraugliIters quantField = some ((loop maxButteraugliIters 0
        ⟨unrefined, unrefined, Plane.filled 0 0 0, []⟩).setQuantFieldCalls ++
      [(initialQuantDc, (loop maxButteraugliIters 0
        ⟨unrefined, unrefined, Plane.filled 0 0 0, []⟩).quantField)]) := by
    rw [findBestQuantization, if_pos asserts, if_pos passes]
  rw [run]
  cases maxButteraugliIters with
  | zero => exact ⟨_, rfl, rfl, unrefinedIn, fun none => absurd none (lt_irrefl 0), fun _ => rfl⟩
  | succ n =>
    let first := fbqIteration ⟨pow, Real.sqrt⟩ cmp quantizer acs butteraugliTarget initialQuantDc
      unrefined qfLower qfHigher 0 ⟨unrefined, unrefined, Plane.filled 0 0 0, []⟩
    have start : first.Enveloped qfLower qfHigher 1 :=
      ⟨inEnvelope_refineStep lowHigh 0 _ _ _ _, sized_fbqIteration 0 _,
        fun never => absurd never (lt_irrefl 1)⟩
    obtain ⟨added, calls, length, enveloped, final⟩ := enveloped_fbqLoop lowHigh n 1 first start
    refine ⟨added ++ [(initialQuantDc, (loop n 1 first).quantField)], ?_, by simp [length],
      unrefinedIn, fun _ c member => ?_, fun never => absurd never n.succ_ne_zero⟩
    · show some ((loop n 1 first).setQuantFieldCalls ++ _) = _
      rw [calls]
      rfl
    · rcases List.mem_append.mp member with old | last
      · exact enveloped c old
      · exact List.mem_singleton.mp last ▸ final

/-- **The cell entering the update of iteration `i`**, with the real square root and a positive
initial field on a non-empty grid: it lies in `(0, qf_higher]`, from iteration 1 on in the
envelope, and the update makes of it what `updateCell` or `updateCellPow` does. -/
theorem fbqIteration_row (pow : ℝ → ℝ → ℝ) (cmp : Comparator ℝ) (quantizer : QuantizerScales ℝ)
    {acs : AcStrategyImage} (tiling : acs.Tiling) (butteraugliTarget : ℝ) {quantField : Plane ℝ}
    (sized : quantField.xsize = acs.xsize ∧ quantField.ysize = acs.ysize)
    (nonempty : 0 < acs.xsize ∧ 0 < acs.ysize)
    (positive : ∀ x y, x < quantField.xsize → y < quantField.ysize → 0 < quantField.row y x)
    (i : ℕ) {x y : ℕ} (left : x < acs.xsize) (below : y < acs.ysize) :
    let m : MathFns ℝ := ⟨pow, Real.sqrt⟩
    let initialQuantDc := initialQuantDC m butteraugliTarget
    let initialQuantField := adjustQuantField acs quantField
    let qfLower := (quantEnvelope m initialQuantField).1
    let qfHigher := (quantEnvelope m initialQuantField).2
    let st := fbqStateAt m cmp quantizer acs butteraugliTarget initialQuantDc initialQuantField
      qfLower qfHigher ⟨initialQuantField, initialQuantField, Plane.filled 0 0 0, []⟩ i
    let round := roundtripStep m cmp acs initialQuantDc i st
    let scale := quantizer.scale initialQuantDc st.quantField
    let inv := quantizer.invGlobalScale initialQuantDc st.quantField
    let q := (if i = 1 then round.1.quantField.updateCells fun x y q =>
      floorCell q (initialQuantField.row y x) qfLower qfHigher else round.1.quantField).row y x
    let next := fbqIteration m cmp quantizer acs butteraugliTarget initialQuantDc initialQuantField
      qfLower qfHigher i st
    (0 < q ∧ q ≤ qfHigher ∧ (0 < i → qfLower ≤ q)) ∧
      next.quantField.row y x = if curPow butteraugliTarget i = 0 then
        updateCell q (round.2.row y x) butteraugliTarget scale inv qfLower qfHigher
      else updateCellPow pow (curPow butteraugliTarget i) q (round.2.row y x) butteraugliTarget
        scale inv qfLower qfHigher := by
  intro m initialQuantDc initialQuantField qfLower qfHigher st round scale inv q next
  obtain ⟨lowPos, lowHigh, -, cells, -⟩ := unrefined_envelope pow tiling sized nonempty positive
  have fieldSized : initialQuantField.xsize = acs.xsize ∧ initialQuantField.ysize = acs.ysize := by
    simpa [initialQuantField] using sized
  have roundSized : round.1.quantField.xsize = acs.xsize ∧ round.1.quantField.ysize = acs.ysize :=
    ⟨(size_roundtripStep i st).1.trans ((size_fbqStateAt _ i).1.trans fieldSized.1),
      (size_roundtripStep i st).2.trans ((size_fbqStateAt _ i).2.trans fieldSized.2)⟩
  set floored := if i = 1 then round.1.quantField.updateCells fun x y q =>
    floorCell q (initialQuantField.row y x) qfLower qfHigher else round.1.quantField with flooredEq
  have flooredSized : x < floored.xsize ∧ y < floored.ysize := by
    rw [flooredEq]
    split <;> simp [roundSized, left, below]
  refine ⟨?_, by
    simp only [next, fbqIteration, refineStep]
    split <;> exact Plane.updateCells_row_of_lt _ flooredSized.1 flooredSized.2⟩
  rcases Nat.eq_zero_or_pos i with rfl | later
  · have cell := cells x y (fieldSized.1 ▸ left) (fieldSized.2 ▸ below)
    exact ⟨cell.1, cell.2, fun never => absurd never (lt_irrefl 0)⟩
  · have rounded : InEnvelope qfLower qfHigher round.1.quantField :=
      inEnvelope_roundtripStep (enveloped_fbqStateAt lowHigh _ i later)
    have inside : InEnvelope qfLower qfHigher floored := by
      rw [flooredEq]
      split
      exacts [inEnvelope_floorCell lowHigh rounded, rounded]
    obtain ⟨lower, upper⟩ := inside x y flooredSized.1 flooredSized.2
    exact ⟨lowPos.trans_le lower, upper, fun _ => lower⟩

/-- **A cell over target moves to a strictly larger quantised value unless it is at the
ceiling.** In every iteration `i < max_butteraugli_iters` of a run from a positive initial field
on a non-empty grid, with a target above 0 and a quantizer with
`Scale() = 1 / InvGlobalScale() > 0`, a cell whose tile score exceeds the target has a positive
value `q` before the update step (after the pull of iteration 1) and a value `q' ≥ q` after the
step's clamp, with `q' = qf_higher` or `⌊q' · InvGlobalScale() + 1/2⌋ > ⌊q · InvGlobalScale() + 1/2⌋`;
`q'` is what the run hands the quantizer at iteration `i + 1`. -/
theorem findBestQuantization_raise (pow : ℝ → ℝ → ℝ) (cmp : Comparator ℝ)
    (quantizer : QuantizerScales ℝ) {acs : AcStrategyImage} (tiling : acs.Tiling)
    {butteraugliTarget : ℝ} (targetPos : 0 < butteraugliTarget)
    (scales : ∀ dc field, 0 < quantizer.invGlobalScale dc field ∧
      quantizer.scale dc field = 1 / quantizer.invGlobalScale dc field)
    (maxButteraugliIters : ℕ) (quantField : Plane ℝ)
    (sized : quantField.xsize = acs.xsize ∧ quantField.ysize = acs.ysize)
    (nonempty : 0 < acs.xsize ∧ 0 < acs.ysize)
    (positive : ∀ x y, x < quantField.xsize → y < quantField.ysize → 0 < quantField.row y x)
    {i x y : ℕ} (running : i < maxButteraugliIters) (left : x < acs.xsize) (below : y < acs.ysize) :
    let m : MathFns ℝ := ⟨pow, Real.sqrt⟩
    let initialQuantDc := initialQuantDC m butteraugliTarget
    let initialQuantField := adjustQuantField acs quantField
    let qfLower := (quantEnvelope m initialQuantField).1
    let qfHigher := (quantEnvelope m initialQuantField).2
    let st := fbqStateAt m cmp quantizer acs butteraugliTarget initialQuantDc initialQuantField
      qfLower qfHigher ⟨initialQuantField, initialQuantField, Plane.filled 0 0 0, []⟩ i
    let round := roundtripStep m cmp acs initialQuantDc i st
    let inv := quantizer.invGlobalScale initialQuantDc st.quantField
    let q := (if i = 1 then round.1.quantField.updateCells fun x y q =>
      floorCell q (initialQuantField.row y x) qfLower qfHigher else round.1.quantField).row y x
    let next := fbqIteration m cmp quantizer acs butteraugliTarget initialQuantDc initialQuantField
      qfLower qfHigher i st
    butteraugliTarget < round.2.row y x →
      0 < q ∧ q ≤ next.quantField.row y x ∧ (next.quantField.row y x = qfHigher ∨
        ⌊q * inv + 1 / 2⌋ < ⌊next.quantField.row y x * inv + 1 / 2⌋) ∧
      (findBestQuantization m cmp quantizer acs butteraugliTarget maxButteraugliIters
        quantField).bind (·[i + 1]?) = some (initialQuantDc, next.quantField) := by
  intro m initialQuantDc initialQuantField qfLower qfHigher st round inv q next over
  obtain ⟨-, lowHigh, -, -, -⟩ := unrefined_envelope pow tiling sized nonempty positive
  obtain ⟨invPos, scale⟩ := scales initialQuantDc st.quantField
  obtain ⟨⟨qPos, belowCeil, -⟩, update⟩ := fbqIteration_row pow cmp quantizer tiling
    butteraugliTarget sized nonempty positive i left below
  have lifted := update_lifts pow (curPow butteraugliTarget i) (round.2.row y x) butteraugliTarget
    lowHigh qPos belowCeil targetPos over invPos
  rw [← scale, ← update] at lifted
  refine ⟨qPos, lifted.1, lifted.2, ?_⟩
  obtain ⟨asserts, passes⟩ := findBestQuantization_asserts pow tiling sized nonempty positive
  exact findBestQuantization_call _ _ _ _ _ _ _ asserts passes running

/-- `stepField` on `rowOfThree` with `stepComparator`, target 1 and two iterations: the first
block's tile is 1.2, over target, so the first update raises it from its positive value. -/
theorem findBestQuantization_raise_rowOfThree :
    rowOfThree.Tiling ∧ (0 : ℝ) < 1 ∧ 0 < 2 ∧
      1 < (tileDistMap Real.rpow stepDiffmap 8 0 rowOfThree).row 0 0 ∧
      0 < (adjustQuantField rowOfThree (stepField : Plane ℝ)).row 0 0 :=
  have over : (1 : ℝ) < (tileDistMap Real.rpow stepDiffmap 8 0 rowOfThree).row 0 0 := by
    rw [tileDistMap_stepDiffmap.2.2.1]
    norm_num
  ⟨tiling_rowOfThree, one_pos, two_pos, over,
    (findBestQuantization_raise Real.rpow stepComparator ⟨fun _ _ => 1, fun _ _ => 1⟩
      tiling_rowOfThree one_pos (fun _ _ => ⟨one_pos, by norm_num⟩) 2 stepField ⟨rfl, rfl⟩
      ⟨by decide, by decide⟩ (fun x y _ _ => stepField_pos x y) (two_pos : 0 < 2)
      (by decide : 0 < rowOfThree.xsize) (by decide : 0 < rowOfThree.ysize) over).1⟩

/-- **No cell at or under target is raised by the default search.** With exact real arithmetic,
`std::pow` the real power and a positive initial field on a non-empty grid, at every iteration
`i < max_butteraugli_iters` and every cell whose tile distance lies in `[0, butteraugli_target]`:
the update leaves the cell between `qf_lower` and the larger of `qf_lower` and its value before
the update, and from iteration 1 on, when the field is in the envelope, at or below that value;
the field after the update is the one the search hands to the quantizer next. -/
theorem findBestQuantization_not_raised (cmp : Comparator ℝ) (quantizer : QuantizerScales ℝ)
    {acs : AcStrategyImage} (tiling : acs.Tiling) {butteraugliTarget : ℝ}
    (targetPos : 0 < butteraugliTarget) (maxButteraugliIters : ℕ) (quantField : Plane ℝ)
    (sized : quantField.xsize = acs.xsize ∧ quantField.ysize = acs.ysize)
    (nonempty : 0 < acs.xsize ∧ 0 < acs.ysize)
    (positive : ∀ x y, x < quantField.xsize → y < quantField.ysize → 0 < quantField.row y x)
    {i x y : ℕ} (running : i < maxButteraugliIters) (left : x < acs.xsize) (below : y < acs.ysize) :
    let m : MathFns ℝ := ⟨Real.rpow, Real.sqrt⟩
    let initialQuantDc := initialQuantDC m butteraugliTarget
    let initialQuantField := adjustQuantField acs quantField
    let qfLower := (quantEnvelope m initialQuantField).1
    let qfHigher := (quantEnvelope m initialQuantField).2
    let st := fbqStateAt m cmp quantizer acs butteraugliTarget initialQuantDc initialQuantField
      qfLower qfHigher ⟨initialQuantField, initialQuantField, Plane.filled 0 0 0, []⟩ i
    let round := roundtripStep m cmp acs initialQuantDc i st
    let q := (if i = 1 then round.1.quantField.updateCells fun x y q =>
      floorCell q (initialQuantField.row y x) qfLower qfHigher else round.1.quantField).row y x
    let next := fbqIteration m cmp quantizer acs butteraugliTarget initialQuantDc initialQuantField
      qfLower qfHigher i st
    0 ≤ round.2.row y x → round.2.row y x ≤ butteraugliTarget →
      qfLower ≤ next.quantField.row y x ∧ next.quantField.row y x ≤ max q qfLower ∧
        (0 < i → next.quantField.row y x ≤ q) ∧
        (findBestQuantization m cmp quantizer acs butteraugliTarget maxButteraugliIters
          quantField).bind (·[i + 1]?) = some (initialQuantDc, next.quantField) := by
  intro m initialQuantDc initialQuantField qfLower qfHigher st round q next distNonneg under
  obtain ⟨-, lowHigh, quotient, -, -⟩ := unrefined_envelope Real.rpow tiling sized nonempty positive
  obtain ⟨⟨qPos, belowCeil, inside⟩, update⟩ := fbqIteration_row Real.rpow cmp quantizer tiling
    butteraugliTarget sized nonempty positive i left below
  have kept := update_not_raised Real.rpow (curPow butteraugliTarget i) (round.2.row y x)
    butteraugliTarget (quantizer.scale initialQuantDc st.quantField)
    (quantizer.invGlobalScale initialQuantDc st.quantField) lowHigh qPos.le belowCeil targetPos
    distNonneg under fun a nonneg le => Real.rpow_le_one nonneg le (curPow_nonneg _ _)
  rw [← update] at kept
  refine ⟨kept.1, kept.2, fun later => kept.2.trans (max_le le_rfl (inside later)), ?_⟩
  obtain ⟨asserts, passes⟩ := findBestQuantization_asserts Real.rpow tiling sized nonempty positive
  exact findBestQuantization_call _ _ _ _ _ _ _ asserts passes running

/-- `stepField` on `rowOfThree` with `stepComparator`, target 1 and two iterations: the wide
transform's tile is 0.6, under target, so the first update does not raise its first block. -/
theorem findBestQuantization_not_raised_rowOfThree :
    let m : MathFns ℝ := ⟨Real.rpow, Real.sqrt⟩
    let initialQuantField : Plane ℝ := adjustQuantField rowOfThree stepField
    (rowOfThree.Tiling ∧ (0 : ℝ) < 1 ∧ 0 < 2 ∧
      0 ≤ (tileDistMap Real.rpow stepDiffmap 8 0 rowOfThree).row 0 1 ∧
      (tileDistMap Real.rpow stepDiffmap 8 0 rowOfThree).row 0 1 ≤ 1) ∧
    (fbqIteration m stepComparator ⟨fun _ _ => 1, fun _ _ => 1⟩ rowOfThree 1 (initialQuantDC m 1)
        initialQuantField (quantEnvelope m initialQuantField).1 (quantEnvelope m initialQuantField).2
        0 ⟨initialQuantField, initialQuantField, Plane.filled 0 0 0, []⟩).quantField.row 0 1 ≤
      max (initialQuantField.row 0 1) (quantEnvelope m initialQuantField).1 :=
  have tile : (tileDistMap Real.rpow stepDiffmap 8 0 rowOfThree).row 0 1 = 0.6 :=
    tileDistMap_stepDiffmap.2.2.2.1
  have nonneg : (0 : ℝ) ≤ (tileDistMap Real.rpow stepDiffmap 8 0 rowOfThree).row 0 1 := by
    rw [tile]
    norm_num
  have under : (tileDistMap Real.rpow stepDiffmap 8 0 rowOfThree).row 0 1 ≤ 1 := by
    rw [tile]
    norm_num
  ⟨⟨tiling_rowOfThree, one_pos, two_pos, nonneg, under⟩,
    (findBestQuantization_not_raised stepComparator ⟨fun _ _ => 1, fun _ _ => 1⟩ tiling_rowOfThree
      one_pos 2 stepField ⟨rfl, rfl⟩ ⟨by decide, by decide⟩ (fun x y _ _ => stepField_pos x y)
      (two_pos : 0 < 2) (by decide : 1 < rowOfThree.xsize) (by decide : 0 < rowOfThree.ysize)
      nonneg under).2.1⟩

/-- The envelope of `stepField` on `rowOfThree`, with `stepComparator` and two iterations: the
field has ratio 5, inside the envelope of ratio 250. -/
theorem findBestQuantization_envelope_rowOfThree :
    rowOfThree.Tiling ∧
      (quantEnvelope ⟨Real.rpow, Real.sqrt⟩ (adjustQuantField rowOfThree (stepField : Plane ℝ))).2 /
        (quantEnvelope ⟨Real.rpow, Real.sqrt⟩ (adjustQuantField rowOfThree stepField)).1 = 250 :=
  ⟨tiling_rowOfThree, (findBestQuantization_envelope Real.rpow stepComparator
    ⟨fun _ _ => 1, fun _ _ => 1⟩ _ tiling_rowOfThree 1 2 stepField ⟨rfl, rfl⟩ ⟨by decide, by decide⟩
    fun x y _ _ => stepField_pos x y).2.2.1⟩

end Real

end JxlEncoder
