import JxlEncoder.Image.FloatVal
import JxlEncoder.AdaptiveQuantization.AdjustQuantField
import JxlEncoder.AdaptiveQuantization.DistToPeakMap
import JxlEncoder.AdaptiveQuantization.TileDistMap
import JxlEncoder.AdaptiveQuantization.Search

/-! # The peak-descent search: `FindBestQuantizationHQ`

The slowest speed tier searches the quant field by peak descent. Each round of its outer loop
hands the field to the quantizer, round-trips and compares, keeps the best field seen so far, and
maps the per-transform scores. The inner `while` then lowers `1 / q` around every tile above the
target, with `AdjustQuantVal` and the distance map of `DistToPeakMap`, at radii `0, …,
search_radius`; when nothing changes it widens the search (the radius, then the DC quant, then the
ceiling `quant_ceil`), and when it gives up the field is scaled by 0.75 and the next outer
iteration starts.

The rounds are a state machine on `HqState`; `hqRound` is one iteration of `for (;;)`, and
`hqLoop` runs it until it breaks.
-/

namespace JxlEncoder

variable {F : Type} [LinearOrderedField F]

/-- **`AdjustQuantVal`**: `false` and no change if the cell is at `0.999 * quant_max` or above;
otherwise `1 / q` is lowered by `factor / (d + 1)`, kept at least `1 / quant_max`, and its
inverse is stored (`true`). At `q = 0` the float `1 / q` is `+inf`, which stays the larger of the
two, and `1 / inf = 0` is stored back (`adjustQuantVal_eq_float`). -/
def adjustQuantVal (q d factor quantMax : F) : Bool × F :=
  if q ≥ 0.999 * quantMax then (false, q)
  else if q = 0 then (true, 0)
  else
    let invQ := 1 / q
    let adjInvQ := invQ - factor / (d + 1)
    (true, 1 / max (1 / quantMax) adjInvQ)

theorem adjustQuantVal_of_le {q d factor quantMax : F} (high : 0.999 * quantMax ≤ q) :
    adjustQuantVal q d factor quantMax = (false, q) :=
  if_pos high

theorem adjustQuantVal_of_lt {q d factor quantMax : F} (low : q < 0.999 * quantMax) (nonzero : q ≠ 0) :
    adjustQuantVal q d factor quantMax = (true, 1 / max (1 / quantMax) (1 / q - factor / (d + 1))) := by
  rw [adjustQuantVal, if_neg (not_le.mpr low), if_neg nonzero]

/-- **The stored value is the float computation's**: `1.0f / std::max(1.0f / quant_max, 1.0f / *q
- factor / (d + 1.0f))` with `1 / 0 = +inf`, for every `q` below the threshold and every positive
`quant_max` (the search's `quant_ceil` is in `[5, 8]`). -/
theorem adjustQuantVal_eq_float {q d factor quantMax : F} (ceilPositive : 0 < quantMax)
    (low : q < 0.999 * quantMax) :
    FloatVal.fin 1 / FloatVal.stdMax (.fin (1 / quantMax)) (.fin 1 / .fin q + .fin (-(factor / (d + 1)))) =
      .fin (adjustQuantVal q d factor quantMax).2 := by
  rcases eq_or_ne q 0 with rfl | nonzero
  · rw [adjustQuantVal, if_neg (not_le.mpr low), if_pos rfl, FloatVal.fin_div_zero one_pos,
      FloatVal.inf_add_fin, FloatVal.stdMax, if_pos (FloatVal.fin_lt_inf_false _), FloatVal.fin_div_inf]
  · have maxPos : 0 < max (1 / quantMax) (1 / q - factor / (d + 1)) :=
      lt_max_of_lt_left (one_div_pos.mpr ceilPositive)
    rw [adjustQuantVal_of_lt low nonzero, FloatVal.fin_div_fin nonzero, FloatVal.fin_add_fin,
      FloatVal.stdMax_fin_fin, ← sub_eq_add_neg, FloatVal.fin_div_fin maxPos.ne']

/-- `kAdjSpeed[outer_iter]`, for the two outer iterations. -/
def kAdjSpeed (outerIter : ℕ) : F := ([0.1, 0.04] : List F).getD outerIter 0

/-- `kMaxOuterIters` and `kQuantScale`. -/
def kMaxOuterIters : ℕ := 2

def kQuantScale : F := 0.75

section Model

variable (tileDistmap : Plane F) (butteraugliTarget : F)

/-- One radius of the sweep: the distance map to the tiles above target within `radius`, and
`AdjustQuantVal` at every cell the map reaches, with `factor = kAdjSpeed * tile`; the flag
records whether a call returned `true`. -/
def radiusPass (adjSpeed quantCeil : F) (radius : ℕ) (st : Plane F × Bool) : Plane F × Bool :=
  let distToPeakMap' := distToPeakMap tileDistmap butteraugliTarget radius 0
  Plane.forEachCell st.1.xsize st.1.ysize (fun (acc : Plane F × Bool) x y =>
    if distToPeakMap'.row y x ≥ 0 then
      let adjusted := adjustQuantVal (acc.1.row y x) (distToPeakMap'.row y x)
        (adjSpeed * tileDistmap.row y x) quantCeil
      (acc.1.set x y adjusted.2, acc.2 || adjusted.1)
    else acc) st

/-- `for (radius = 0; radius <= search_radius && !changed; ++radius)`, from `radius` with `n`
radii left. -/
def radiusSweep (adjSpeed quantCeil : F) : ℕ → ℕ → Plane F × Bool → Plane F × Bool
  | 0, _, st => st
  | n + 1, radius, st =>
    if st.2 then st
    else radiusSweep adjSpeed quantCeil n (radius + 1)
      (radiusPass tileDistmap butteraugliTarget adjSpeed quantCeil radius st)

end Model

/-- The variables the inner `while` changes. -/
structure HqSearch (F : Type) where
  quantField : Plane F
  searchRadius : ℕ
  quantCeil : F
  quantDc : F
  changed : Bool

section Search

variable [FloorRing F]

/-- What the inner loop has left to try: a pass that changes nothing, each radius step, and each
half step of `quant_ceil` towards 8. -/
def HqSearch.measure (s : HqSearch F) : ℕ :=
  (if s.changed then 0 else 1) + (4 - s.searchRadius) + ⌈(8 - s.quantCeil) * 2⌉₊

theorem HqSearch.measure_radius (s : HqSearch F) (q : Plane F) (changed : Bool)
    (below : s.searchRadius < 4) (unchanged : s.changed = false) :
    HqSearch.measure { s with
      quantField := q, changed := changed, searchRadius := s.searchRadius + 1 } < s.measure := by
  unfold HqSearch.measure
  cases changed <;> simp only [unchanged] <;> split_ifs <;> omega

theorem HqSearch.measure_ceil (s : HqSearch F) (q : Plane F) (changed : Bool)
    (below : s.quantCeil < 8) (unchanged : s.changed = false) :
    HqSearch.measure { s with
      quantField := q, changed := changed, quantCeil := s.quantCeil + 0.5 } < s.measure := by
  have positive : 0 < ⌈(8 - s.quantCeil) * 2⌉₊ := Nat.ceil_pos.mpr (by linarith)
  have decrease : ⌈(8 - (s.quantCeil + 0.5)) * 2⌉₊ < ⌈(8 - s.quantCeil) * 2⌉₊ := by
    rw [show (8 - (s.quantCeil + 0.5)) * 2 = (8 - s.quantCeil) * 2 - 1 by ring]
    rcases le_or_lt 0 ((8 - s.quantCeil) * 2 - 1) with nonneg | negative
    · have succ := Nat.ceil_add_one nonneg
      rw [sub_add_cancel] at succ
      omega
    · rwa [Nat.ceil_eq_zero.mpr negative.le]
  unfold HqSearch.measure
  cases changed <;> simp only [unchanged] <;> split_ifs <;> omega

/-- **The inner `while (!changed && score > butteraugli_target)`**: sweep the radii; if nothing
changed, or the search has stalled three times, widen it by one radius, or raise the DC quant by
0.2 (counted as a change), or raise `quant_ceil` by 0.5, in that order, and give up when none
applies. -/
def hqSearch [FloorRing F] (tileDistmap : Plane F) (butteraugliTarget score qmax adjSpeed : F)
    (numStallingIters : ℕ) (s : HqSearch F) : HqSearch F :=
  if s.changed = false ∧ score > butteraugliTarget then
    let sweep := radiusSweep tileDistmap butteraugliTarget adjSpeed s.quantCeil
      (s.searchRadius + 1) 0 (s.quantField, false)
    if !sweep.2 ∨ numStallingIters ≥ 3 then
      if s.searchRadius < 4 ∧ (qmax < 0.99 * s.quantCeil ∨ s.quantCeil ≥ 3 + s.searchRadius) then
        hqSearch tileDistmap butteraugliTarget score qmax adjSpeed numStallingIters { s with
          quantField := sweep.1, changed := sweep.2, searchRadius := s.searchRadius + 1 }
      else if s.quantDc < 0.4 * s.quantCeil - 0.8 then
        { s with quantField := sweep.1, quantDc := s.quantDc + 0.2, changed := true }
      else if s.quantCeil < 8 then
        hqSearch tileDistmap butteraugliTarget score qmax adjSpeed numStallingIters { s with
          quantField := sweep.1, changed := sweep.2, quantCeil := s.quantCeil + 0.5 }
      else { s with quantField := sweep.1, changed := sweep.2 }
    else { s with quantField := sweep.1, changed := sweep.2 }
  else s
termination_by s.measure
decreasing_by
  · exact HqSearch.measure_radius s _ _ ‹s.searchRadius < 4 ∧ _›.1 ‹s.changed = false ∧ _›.1
  · exact HqSearch.measure_ceil s _ _ ‹_› ‹s.changed = false ∧ _›.1

end Search

/-- The state of the search at the head of its outer loop, with the `SetQuantField` calls made so
far. -/
structure HqState (F : Type) where
  quantField : Plane F
  bestQuantField : Plane F
  bestScore : F
  outerIter : ℕ
  butteraugliIter : ℕ
  searchRadius : ℕ
  quantCeil : F
  quantDc : F
  bestQuantDc : F
  numStallingIters : ℕ
  setQuantFieldCalls : List (F × Plane F)

/-- The variables before the first round: `best_score = 1000000`, `quant_ceil = 5`,
`quant_dc = best_quant_dc = 1.2`, every counter 0, and the best field a copy of the field. -/
def hqInit (quantField : Plane F) : HqState F :=
  ⟨quantField, quantField, 1000000, 0, 0, 0, 5, 1.2, 1.2, 0, []⟩

/-- The search's variables as the loop state holds them, with `changed = false`. -/
def HqState.toSearch (st : HqState F) : HqSearch F :=
  ⟨st.quantField, st.searchRadius, st.quantCeil, st.quantDc, false⟩

/-- The search's results written back into the loop state. -/
def HqState.withSearch (st : HqState F) (s : HqSearch F) : HqState F :=
  { st with
    quantField := s.quantField, searchRadius := s.searchRadius, quantCeil := s.quantCeil,
    quantDc := s.quantDc }

/-- The next outer iteration: `quant_field *= kQuantScale` and `num_stalling_iters = 0`. -/
def HqState.nextOuter (st : HqState F) : HqState F :=
  { st with
    outerIter := st.outerIter + 1, numStallingIters := 0,
    quantField := st.quantField.updateCells fun _ _ q => q * kQuantScale }

section Round

variable (pow : F → F → F) (cmp : Comparator F) (acs : AcStrategyImage)
  (butteraugliTarget : F) (maxIters : ℕ)

/-- The first half of a round: `SetQuantField(quant_dc, quant_field)`, the round trip and the
comparison (with index `butteraugli_iter`), the update of the best field, and the tile map of the
distance map. Returns the score and the tile map alongside. -/
def hqRoundtrip (st : HqState F) : HqState F × F × Plane F :=
  let butteraugliIter := st.butteraugliIter + 1
  let result := cmp.roundtrip butteraugliIter st.quantDc st.quantField
  let st := { st with
    butteraugliIter := butteraugliIter,
    setQuantFieldCalls := st.setQuantFieldCalls ++ [(st.quantDc, st.quantField)] }
  let st :=
    if result.1 ≤ st.bestScore then
      { st with
        bestQuantField := st.quantField, bestScore := max result.1 butteraugliTarget,
        bestQuantDc := st.quantDc, numStallingIters := 0 }
    else if st.outerIter = 0 then { st with numStallingIters := st.numStallingIters + 1 }
    else st
  (st, result.1, tileDistMap pow result.2 8 0 acs)

theorem hqRoundtrip_butteraugliIter (st : HqState F) :
    (hqRoundtrip pow cmp acs butteraugliTarget st).1.butteraugliIter = st.butteraugliIter + 1 := by
  unfold hqRoundtrip
  dsimp only
  split_ifs <;> rfl

theorem hqRoundtrip_calls (st : HqState F) :
    (hqRoundtrip pow cmp acs butteraugliTarget st).1.setQuantFieldCalls =
      st.setQuantFieldCalls ++ [(st.quantDc, st.quantField)] := by
  unfold hqRoundtrip
  dsimp only
  split_ifs <;> rfl

variable [FloorRing F]

/-- **One iteration of the outer `for (;;)`** from the head of the loop: the round trip; unless
`butteraugli_iter >= max_iters`, the inner search; and if the search changed nothing, the next
outer iteration, or the end after `kMaxOuterIters`. The flag says whether the loop goes on. -/
def hqRound (st : HqState F) : HqState F × Bool :=
  let qmax := (Plane.imageMinMax st.quantField).2
  let trip := hqRoundtrip pow cmp acs butteraugliTarget st
  if trip.1.butteraugliIter ≥ maxIters then (trip.1, false)
  else
    let s := hqSearch trip.2.2 butteraugliTarget trip.2.1 qmax (kAdjSpeed trip.1.outerIter)
      trip.1.numStallingIters trip.1.toSearch
    if s.changed then (trip.1.withSearch s, true)
    else if trip.1.outerIter + 1 = kMaxOuterIters then
      ({ trip.1.withSearch s with outerIter := trip.1.outerIter + 1 }, false)
    else ((trip.1.withSearch s).nextOuter, true)

/-- A round after which the loop goes on made one more round trip, still below `max_iters`. -/
theorem hqRound_butteraugliIter {st : HqState F}
    (continues : (hqRound pow cmp acs butteraugliTarget maxIters st).2 = true) :
    (hqRound pow cmp acs butteraugliTarget maxIters st).1.butteraugliIter =
        st.butteraugliIter + 1 ∧ st.butteraugliIter + 1 < maxIters := by
  have trip := hqRoundtrip_butteraugliIter pow cmp acs butteraugliTarget st
  unfold hqRound at continues ⊢
  dsimp only at continues ⊢
  split_ifs at continues ⊢ <;> simp_all [HqState.withSearch, HqState.nextOuter]

/-- **The outer loop**, until a round breaks it. -/
def hqLoop (st : HqState F) : HqState F :=
  if (hqRound pow cmp acs butteraugliTarget maxIters st).2 then
    hqLoop (hqRound pow cmp acs butteraugliTarget maxIters st).1
  else (hqRound pow cmp acs butteraugliTarget maxIters st).1
termination_by maxIters - st.butteraugliIter
decreasing_by
  have next := hqRound_butteraugliIter pow cmp acs butteraugliTarget maxIters ‹_›
  omega

end Round

/-- **`FindBestQuantizationHQ`**: the `SetQuantField` calls it makes, in order: one per round
trip, then `(best_quant_dc, best_quant_field)`. `max_iters` is
`max_butteraugli_iters_guetzli_mode`; every value up to 1 makes a single round trip. -/
def findBestQuantizationHQ [FloorRing F] (pow : F → F → F) (cmp : Comparator F)
    (acs : AcStrategyImage) (butteraugliTarget : F) (maxIters : ℕ) (quantField : Plane F) :
    List (F × Plane F) :=
  let st := hqLoop pow cmp acs butteraugliTarget maxIters (hqInit (adjustQuantField acs quantField))
  st.setQuantFieldCalls ++ [(st.bestQuantDc, st.bestQuantField)]

section Sweep

variable {tileDistmap : Plane F} {butteraugliTarget adjSpeed quantCeil : F}

/-- **`AdjustQuantVal` only raises a cell**: with `d ≥ 0` and `factor ≥ 0` a positive cell ends
at least where it was, and above `quant_max` only if it was there already. -/
theorem adjustQuantVal_mem {q d factor quantMax : F} (positive : 0 < q) (distNonneg : 0 ≤ d)
    (factorNonneg : 0 ≤ factor) (ceilPositive : 0 < quantMax) :
    q ≤ (adjustQuantVal q d factor quantMax).2 ∧
      (adjustQuantVal q d factor quantMax).2 ≤ max q quantMax := by
  unfold adjustQuantVal
  split_ifs with high zero
  · exact ⟨le_rfl, le_max_left _ _⟩
  · exact absurd zero positive.ne'
  · have lowered : 0 < max (1 / quantMax) (1 / q - factor / (d + 1)) :=
      lt_max_of_lt_left (one_div_pos.mpr ceilPositive)
    have below : q ≤ quantMax :=
      ((not_le.mp high).trans_le (mul_le_of_le_one_left ceilPositive.le (by norm_num))).le
    refine ⟨?_, ((one_div_le lowered ceilPositive).mpr (le_max_left _ _)).trans (le_max_right _ _)⟩
    calc q = 1 / (1 / q) := (one_div_one_div q).symm
      _ ≤ 1 / max (1 / quantMax) (1 / q - factor / (d + 1)) :=
        one_div_le_one_div_of_le lowered (max_le (one_div_le_one_div_of_le positive below)
          (sub_le_self _ (div_nonneg factorNonneg (add_nonneg distNonneg zero_le_one))))

/-- The field after one radius: `AdjustQuantVal` at every cell the distance map reaches. -/
theorem radiusPass_fst (radius : ℕ) (st : Plane F × Bool) :
    (radiusPass tileDistmap butteraugliTarget adjSpeed quantCeil radius st).1 =
      st.1.updateCells fun x y v =>
        if (distToPeakMap tileDistmap butteraugliTarget radius 0).row y x ≥ 0 then
          (adjustQuantVal v ((distToPeakMap tileDistmap butteraugliTarget radius 0).row y x)
            (adjSpeed * tileDistmap.row y x) quantCeil).2
        else v := by
  unfold radiusPass
  refine Plane.forEachCellIn_fst _ _ _ _ _ _ (fun acc x y => ?_) st
  dsimp only
  split
  · rfl
  · exact (Plane.set_row_self _ _ _).symm

/-- A property of the field that every radius keeps holds after the sweep. -/
theorem radiusSweep_induction (Q : Plane F → Prop)
    (pass : ∀ radius st, Q st.1 →
      Q (radiusPass tileDistmap butteraugliTarget adjSpeed quantCeil radius st).1) :
    ∀ n radius st, Q st.1 →
      Q (radiusSweep tileDistmap butteraugliTarget adjSpeed quantCeil n radius st).1
  | 0, _, _, holds => holds
  | n + 1, radius, st, holds => by
    rw [radiusSweep]
    split
    · exact holds
    · exact radiusSweep_induction Q pass n _ _ (pass radius st holds)

/-- The sweep keeps the field's size. -/
theorem radiusSweep_size (n radius : ℕ) (st : Plane F × Bool) :
    (radiusSweep tileDistmap butteraugliTarget adjSpeed quantCeil n radius st).1.xsize = st.1.xsize ∧
      (radiusSweep tileDistmap butteraugliTarget adjSpeed quantCeil n radius st).1.ysize =
        st.1.ysize :=
  radiusSweep_induction (fun p => p.xsize = st.1.xsize ∧ p.ysize = st.1.ysize)
    (fun _ _ same => by rw [radiusPass_fst]; simpa using same) n radius st ⟨rfl, rfl⟩

/-- At search radius 0 the sweep is the single pass at radius 0. -/
theorem radiusSweep_radius_zero (q : Plane F) :
    radiusSweep tileDistmap butteraugliTarget adjSpeed quantCeil 1 0 (q, false) =
      radiusPass tileDistmap butteraugliTarget adjSpeed quantCeil 0 (q, false) := by
  simp [radiusSweep]

end Sweep

section SearchInduction

variable [FloorRing F] {tileDistmap : Plane F} {butteraugliTarget score qmax adjSpeed : F}
  {numStallingIters : ℕ}

/-- **What the inner loop can do to its state**: sweep, widen the radius, raise the DC quant, or
raise the ceiling. A property kept by each holds of the loop's result. -/
theorem hqSearch_induction (P : HqSearch F → Prop)
    (sweep : ∀ s : HqSearch F, s.changed = false → P s → P { s with
      quantField := (radiusSweep tileDistmap butteraugliTarget adjSpeed s.quantCeil
        (s.searchRadius + 1) 0 (s.quantField, false)).1,
      changed := (radiusSweep tileDistmap butteraugliTarget adjSpeed s.quantCeil
        (s.searchRadius + 1) 0 (s.quantField, false)).2 })
    (radius : ∀ s : HqSearch F, P s → s.searchRadius < 4 →
      P { s with searchRadius := s.searchRadius + 1 })
    (dc : ∀ s : HqSearch F, P s → P { s with quantDc := s.quantDc + 0.2, changed := true })
    (ceil : ∀ s : HqSearch F, P s → s.quantCeil < 8 → P { s with quantCeil := s.quantCeil + 0.5 })
    (s : HqSearch F) (start : P s) :
    P (hqSearch tileDistmap butteraugliTarget score qmax adjSpeed numStallingIters s) := by
  induction s using hqSearch.induct tileDistmap butteraugliTarget score qmax adjSpeed
    numStallingIters with
  | case1 s go sweepVal stall widen next =>
    simp only [sweepVal] at stall next
    rw [hqSearch, if_pos go]
    simp only [if_pos stall, if_pos widen]
    exact next (radius _ (sweep s go.1 start) widen.1)
  | case2 s go sweepVal stall notWiden lowDc =>
    simp only [sweepVal] at stall
    rw [hqSearch, if_pos go]
    simp only [if_pos stall, if_neg notWiden, if_pos lowDc]
    exact dc _ (sweep s go.1 start)
  | case3 s go sweepVal stall notWiden notLowDc belowCeil next =>
    simp only [sweepVal] at stall next
    rw [hqSearch, if_pos go]
    simp only [if_pos stall, if_neg notWiden, if_neg notLowDc, if_pos belowCeil]
    exact next (ceil _ (sweep s go.1 start) belowCeil)
  | case4 s go sweepVal stall notWiden notLowDc atCeil =>
    simp only [sweepVal] at stall
    rw [hqSearch, if_pos go]
    simp only [if_pos stall, if_neg notWiden, if_neg notLowDc, if_neg atCeil]
    exact sweep s go.1 start
  | case5 s go sweepVal settled =>
    simp only [sweepVal] at settled
    rw [hqSearch, if_pos go]
    simp only [if_neg settled]
    exact sweep s go.1 start
  | case6 s stop =>
    rw [hqSearch, if_neg stop]
    exact start

end SearchInduction

theorem getElem?_append_singleton {α : Type} {l : List α} {a c : α} {k : ℕ} :
    (l ++ [a])[k]? = some c ↔ l[k]? = some c ∨ k = l.length ∧ c = a := by
  rcases lt_trichotomy k l.length with before | rfl | after
  · rw [List.getElem?_append_left before]
    simp [before.ne]
  · simp [eq_comm]
  · rw [List.getElem?_append_right after.le, List.getElem?_eq_none after.le,
      List.getElem?_eq_none (show [a].length ≤ k - l.length by simp; omega)]
    simp [after.ne']

section Run

variable [FloorRing F] (pow : F → F → F) (cmp : Comparator F) (acs : AcStrategyImage)
  (butteraugliTarget : F) (maxIters : ℕ)

/-- **What a round can do**: stop after the round trip at `max_iters`; keep the search's result
and go on; or, when the search changed nothing, end after the last outer iteration or go on to
the next one. -/
theorem hqRound_cases (st : HqState F) :
    let trip := hqRoundtrip pow cmp acs butteraugliTarget st
    let s := hqSearch trip.2.2 butteraugliTarget trip.2.1 (Plane.imageMinMax st.quantField).2
      (kAdjSpeed trip.1.outerIter) trip.1.numStallingIters trip.1.toSearch
    hqRound pow cmp acs butteraugliTarget maxIters st = (trip.1, false) ∨
      (hqRound pow cmp acs butteraugliTarget maxIters st = (trip.1.withSearch s, true) ∧
        s.changed = true) ∨
      hqRound pow cmp acs butteraugliTarget maxIters st =
        ({ trip.1.withSearch s with outerIter := trip.1.outerIter + 1 }, false) ∨
      (hqRound pow cmp acs butteraugliTarget maxIters st = ((trip.1.withSearch s).nextOuter, true) ∧
        s.changed = false) := by
  unfold hqRound
  dsimp only
  split_ifs <;> simp_all

/-- A property that the round trip establishes and that the search, the end of an outer iteration
and the rescaling keep holds after every round. -/
theorem hqRound_induction (P : HqState F → Prop) (st : HqState F)
    (trip : P (hqRoundtrip pow cmp acs butteraugliTarget st).1)
    (search : P ((hqRoundtrip pow cmp acs butteraugliTarget st).1.withSearch
      (hqSearch (hqRoundtrip pow cmp acs butteraugliTarget st).2.2 butteraugliTarget
        (hqRoundtrip pow cmp acs butteraugliTarget st).2.1 (Plane.imageMinMax st.quantField).2
        (kAdjSpeed (hqRoundtrip pow cmp acs butteraugliTarget st).1.outerIter)
        (hqRoundtrip pow cmp acs butteraugliTarget st).1.numStallingIters
        (hqRoundtrip pow cmp acs butteraugliTarget st).1.toSearch)))
    (outer : ∀ st', P st' → P { st' with outerIter := st'.outerIter + 1 })
    (next : ∀ st', P st' → P st'.nextOuter) :
    P (hqRound pow cmp acs butteraugliTarget maxIters st).1 := by
  rcases hqRound_cases pow cmp acs butteraugliTarget maxIters st with
    same | ⟨same, -⟩ | same | ⟨same, -⟩ <;> rw [same]
  · exact trip
  · exact search
  · exact outer _ search
  · exact next _ search

/-- The states at the head of the loop: the start, and every state a round hands on. -/
inductive HqReachable (start : HqState F) : HqState F → Prop
  | start : HqReachable start start
  | step {st : HqState F} : HqReachable start st →
      (hqRound pow cmp acs butteraugliTarget maxIters st).2 = true →
      HqReachable start (hqRound pow cmp acs butteraugliTarget maxIters st).1

/-- **The loop ends with a round that breaks it**, from a reachable state. -/
theorem hqLoop_final (start : HqState F) :
    ∃ last, HqReachable pow cmp acs butteraugliTarget maxIters start last ∧
      (hqRound pow cmp acs butteraugliTarget maxIters last).2 = false ∧
      hqLoop pow cmp acs butteraugliTarget maxIters start =
        (hqRound pow cmp acs butteraugliTarget maxIters last).1 := by
  suffices ∀ st, HqReachable pow cmp acs butteraugliTarget maxIters start st →
      ∃ last, HqReachable pow cmp acs butteraugliTarget maxIters start last ∧
        (hqRound pow cmp acs butteraugliTarget maxIters last).2 = false ∧
        hqLoop pow cmp acs butteraugliTarget maxIters st =
          (hqRound pow cmp acs butteraugliTarget maxIters last).1 from this start .start
  intro st
  induction st using hqLoop.induct pow cmp acs butteraugliTarget maxIters with
  | case1 st continues ih =>
    intro reachable
    rw [hqLoop, if_pos continues]
    exact ih (.step reachable continues)
  | case2 st stops =>
    intro reachable
    rw [hqLoop, if_neg stops]
    exact ⟨st, reachable, by simpa using stops, rfl⟩

end Run

section Best

variable [FloorRing F] (pow : F → F → F) (cmp : Comparator F) (acs : AcStrategyImage)
  (butteraugliTarget : F) (maxIters : ℕ)

/-- The normalised score of round trip `k + 1` (`butteraugli_iter`) for the pair handed to the
quantizer. -/
def hqScore (k : ℕ) (c : F × Plane F) : F := (cmp.roundtrip (k + 1) c.1 c.2).1

/-- The best-field invariant, with `first` the pair of the first round trip: the calls are
counted by `butteraugli_iter`; `best_score` is at most `max(s_k, target)` for every score so far;
and either no score has reached the initial `best_score` and the best pair is the first one, or
the best pair is a call `j` and `best_score = max(s_j, target)`. -/
structure HqBest (first : F × Plane F) (st : HqState F) : Prop where
  iter : st.butteraugliIter = st.setQuantFieldCalls.length
  fresh : st.setQuantFieldCalls = [] → (st.quantDc, st.quantField) = first
  head : ∀ c, st.setQuantFieldCalls[0]? = some c → c = first
  bounded : ∀ k c, st.setQuantFieldCalls[k]? = some c →
    st.bestScore ≤ max (hqScore cmp k c) butteraugliTarget
  best : (st.bestScore = 1000000 ∧ (st.bestQuantDc, st.bestQuantField) = first ∧
      ∀ k c, st.setQuantFieldCalls[k]? = some c → 1000000 < hqScore cmp k c) ∨
    ∃ j, st.setQuantFieldCalls[j]? = some (st.bestQuantDc, st.bestQuantField) ∧
      st.bestScore = max (hqScore cmp j (st.bestQuantDc, st.bestQuantField)) butteraugliTarget

omit [FloorRing F] in
/-- The round trip keeps the invariant: a score at or below `best_score` makes its pair the best
one with `best_score = max(s, target)`, which is at most `max(s_k, target)` for every earlier `k`
as `s` was. -/
theorem hqBest_roundtrip {first : F × Plane F} {st : HqState F}
    (inv : HqBest cmp butteraugliTarget first st) :
    HqBest cmp butteraugliTarget first (hqRoundtrip pow cmp acs butteraugliTarget st).1 := by
  have score : (cmp.roundtrip (st.butteraugliIter + 1) st.quantDc st.quantField).1 =
      hqScore cmp st.setQuantFieldCalls.length (st.quantDc, st.quantField) := by
    rw [inv.iter]
    rfl
  have iter : st.butteraugliIter + 1 =
      (st.setQuantFieldCalls ++ [(st.quantDc, st.quantField)]).length := by simp [inv.iter]
  have fresh : st.setQuantFieldCalls ++ [(st.quantDc, st.quantField)] = [] →
      (st.quantDc, st.quantField) = first := fun empty => absurd empty (by simp)
  have head : ∀ c, (st.setQuantFieldCalls ++ [(st.quantDc, st.quantField)])[0]? = some c →
      c = first := fun c found => (getElem?_append_singleton.mp found).elim (inv.head c)
    fun ⟨empty, same⟩ => same ▸ inv.fresh (List.length_eq_zero.mp empty.symm)
  unfold hqRoundtrip
  dsimp only
  rw [score]
  split_ifs with better
  · refine ⟨iter, fresh, head, fun k c found => ?_, .inr ⟨_, by simp, rfl⟩⟩
    rcases getElem?_append_singleton.mp found with old | ⟨rfl, rfl⟩
    · exact max_le (better.trans (inv.bounded k c old)) (le_max_right _ _)
    · exact le_rfl
  all_goals
    refine ⟨iter, fresh, head, fun k c found => ?_, ?_⟩
    · rcases getElem?_append_singleton.mp found with old | ⟨rfl, rfl⟩
      · exact inv.bounded k c old
      · exact (not_le.mp better).le.trans (le_max_left _ _)
    · rcases inv.best with ⟨initial, pair, above⟩ | ⟨j, found, equal⟩
      · refine .inl ⟨initial, pair, fun k c found => ?_⟩
        rcases getElem?_append_singleton.mp found with old | ⟨rfl, rfl⟩
        · exact above k c old
        · exact initial ▸ not_le.mp better
      · exact .inr ⟨j, getElem?_append_singleton.mpr (.inl found), equal⟩

/-- Every round keeps the invariant: only the round trip touches the calls and the best pair. -/
theorem hqBest_round {first : F × Plane F} {st : HqState F}
    (inv : HqBest cmp butteraugliTarget first st) :
    HqBest cmp butteraugliTarget first (hqRound pow cmp acs butteraugliTarget maxIters st).1 := by
  have trip := hqBest_roundtrip pow cmp acs butteraugliTarget inv
  have called : (hqRoundtrip pow cmp acs butteraugliTarget st).1.setQuantFieldCalls ≠ [] := by
    unfold hqRoundtrip
    dsimp only
    split_ifs <;> simp
  refine (hqRound_induction pow cmp acs butteraugliTarget maxIters
    (fun st' => HqBest cmp butteraugliTarget first st' ∧ st'.setQuantFieldCalls ≠ []) st
    ⟨trip, called⟩ ⟨⟨trip.iter, fun empty => absurd empty called, trip.head,
      trip.bounded, trip.best⟩, called⟩
    (fun _ ⟨inv', called'⟩ => ⟨⟨inv'.iter, fun empty => absurd empty called', inv'.head,
      inv'.bounded, inv'.best⟩, called'⟩)
    (fun _ ⟨inv', called'⟩ => ⟨⟨inv'.iter, fun empty => absurd empty called', inv'.head,
      inv'.bounded, inv'.best⟩, called'⟩)).1

/-- After a round the quantizer has received at least one field. -/
theorem hqRound_calls_ne_nil (st : HqState F) :
    (hqRound pow cmp acs butteraugliTarget maxIters st).1.setQuantFieldCalls ≠ [] :=
  hqRound_induction pow cmp acs butteraugliTarget maxIters (fun st' => st'.setQuantFieldCalls ≠ [])
    st (by unfold hqRoundtrip; dsimp only; split_ifs <;> simp)
    (by unfold hqRoundtrip; dsimp only; split_ifs <;> simp [HqState.withSearch])
    (fun _ called => called) (fun _ called => called)

/-- Every reachable state of a run from `quantField` satisfies the invariant. -/
theorem hqBest_reachable {quantField : Plane F} {st : HqState F}
    (reachable : HqReachable pow cmp acs butteraugliTarget maxIters (hqInit quantField) st) :
    HqBest cmp butteraugliTarget (1.2, quantField) st := by
  induction reachable with
  | start => exact ⟨rfl, fun _ => rfl, fun _ found => absurd found (by simp [hqInit]),
      fun _ _ found => absurd found (by simp [hqInit]),
      .inl ⟨rfl, rfl, fun _ _ found => absurd found (by simp [hqInit])⟩⟩
  | step _ _ ih => exact hqBest_round pow cmp acs butteraugliTarget maxIters ih

/-- **The final call hands over the best round trip.** For every run and every sequence of
scores, the last `SetQuantField` receives the pair of some round trip `j`, and if some score is at
most the initial `best_score` of `10^6`, then `s_j ≤ max(s_k, target)` for every round trip `k`,
that is `s_j ≤ max(min_k s_k, target)`. -/
theorem findBestQuantizationHQ_best (quantField : Plane F) :
    ∃ roundtrips j c, findBestQuantizationHQ pow cmp acs butteraugliTarget maxIters quantField =
        roundtrips ++ [c] ∧ roundtrips[j]? = some c ∧
      ((∃ k d, roundtrips[k]? = some d ∧ hqScore cmp k d ≤ 1000000) →
        ∀ k d, roundtrips[k]? = some d → hqScore cmp j c ≤ max (hqScore cmp k d) butteraugliTarget) := by
  obtain ⟨last, reachable, -, final⟩ := hqLoop_final pow cmp acs butteraugliTarget maxIters
    (hqInit (adjustQuantField acs quantField))
  have done := hqBest_round pow cmp acs butteraugliTarget maxIters
    (hqBest_reachable pow cmp acs butteraugliTarget maxIters reachable)
  have called := hqRound_calls_ne_nil pow cmp acs butteraugliTarget maxIters last
  rw [← final] at done called
  set st := hqLoop pow cmp acs butteraugliTarget maxIters (hqInit (adjustQuantField acs quantField))
  rcases done.best with ⟨_, pair, above⟩ | ⟨j, found, equal⟩
  · obtain ⟨c, rest, split⟩ := List.exists_cons_of_ne_nil called
    have first : st.setQuantFieldCalls[0]? = some (st.bestQuantDc, st.bestQuantField) := by
      rw [pair, ← done.head c (by simp [split]), split, List.getElem?_cons_zero]
    exact ⟨_, 0, _, rfl, first, fun ⟨k, d, found, low⟩ => absurd low (not_le.mpr (above k d found))⟩
  · refine ⟨_, j, _, rfl, found, fun _ k d found' => ?_⟩
    calc hqScore cmp j (st.bestQuantDc, st.bestQuantField)
        ≤ max (hqScore cmp j (st.bestQuantDc, st.bestQuantField)) butteraugliTarget :=
          le_max_left _ _
      _ = st.bestScore := equal.symm
      _ ≤ max (hqScore cmp k d) butteraugliTarget := done.bounded k d found'

end Best

section Bounds

variable {acs : AcStrategyImage}

/-- Every block of the plane holds a value in `(0, bound]`. -/
def InBounds (acs : AcStrategyImage) (bound : F) (p : Plane F) : Prop :=
  ∀ x y, x < acs.xsize → y < acs.ysize → 0 < p.row y x ∧ p.row y x ≤ bound

/-- The plane has the grid's size, and every block lies between its value in `low` and `bound`. -/
structure FieldBounds (acs : AcStrategyImage) (low : Plane F) (bound : F) (p : Plane F) : Prop where
  sized : p.xsize = acs.xsize ∧ p.ysize = acs.ysize
  cells : ∀ x y, x < acs.xsize → y < acs.ysize → low.row y x ≤ p.row y x ∧ p.row y x ≤ bound

/-- `quant_ceil` is one of `5, 5.5, …, 8`. -/
def HalfStep (quantCeil : F) : Prop := ∃ k : ℕ, k ≤ 6 ∧ quantCeil = 5 + k / 2

theorem HalfStep.pos_le {quantCeil : F} (half : HalfStep quantCeil) :
    0 < quantCeil ∧ quantCeil ≤ 8 := by
  obtain ⟨k, atMost, rfl⟩ := half
  have : (k : F) ≤ 6 := by exact_mod_cast atMost
  exact ⟨by positivity, by linarith⟩

theorem HalfStep.step {quantCeil : F} (half : HalfStep quantCeil) (below : quantCeil < 8) :
    HalfStep (quantCeil + 0.5) := by
  obtain ⟨k, -, rfl⟩ := half
  have : (k : F) < 6 := by linarith
  exact ⟨k + 1, by exact_mod_cast this, by push_cast; ring⟩

theorem kAdjSpeed_nonneg (outerIter : ℕ) : (0 : F) ≤ kAdjSpeed outerIter := by
  unfold kAdjSpeed
  rcases outerIter with _ | _ | _ <;> norm_num

variable {tileDistmap low : Plane F} {butteraugliTarget adjSpeed : F} {bound : F}
  (tileNonneg : ∀ x y, 0 ≤ tileDistmap.row y x) (speedNonneg : 0 ≤ adjSpeed)
  (lowPos : ∀ x y, x < acs.xsize → y < acs.ysize → 0 < low.row y x)
include tileNonneg speedNonneg lowPos

/-- A radius keeps the bounds when the ceiling is positive and within them. -/
theorem fieldBounds_radiusPass {quantCeil : F} (ceilPos : 0 < quantCeil) (ceilLe : quantCeil ≤ bound)
    (radius : ℕ) {st : Plane F × Bool} (inv : FieldBounds acs low bound st.1) :
    FieldBounds acs low bound
      (radiusPass tileDistmap butteraugliTarget adjSpeed quantCeil radius st).1 := by
  rw [radiusPass_fst]
  refine ⟨by simpa using inv.sized, fun x y left below => ?_⟩
  have cell := inv.cells x y left below
  rw [Plane.updateCells_row_of_lt _ (inv.sized.1 ▸ left) (inv.sized.2 ▸ below)]
  split
  case isTrue reached =>
    have adjusted := adjustQuantVal_mem ((lowPos x y left below).trans_le cell.1) reached
      (mul_nonneg speedNonneg (tileNonneg x y)) ceilPos
    exact ⟨cell.1.trans adjusted.1, adjusted.2.trans (max_le cell.2 ceilLe)⟩
  case isFalse => exact cell

variable [FloorRing F] {score qmax : F} {numStallingIters : ℕ}

/-- **The inner search only raises the field, and not above `max(bound, 8)`**; `quant_ceil` stays
on its half steps. -/
theorem hqSearch_bounds (eight : 8 ≤ bound) {s : HqSearch F}
    (start : FieldBounds acs low bound s.quantField ∧ HalfStep s.quantCeil) :
    FieldBounds acs low bound
        (hqSearch tileDistmap butteraugliTarget score qmax adjSpeed numStallingIters s).quantField ∧
      HalfStep
        (hqSearch tileDistmap butteraugliTarget score qmax adjSpeed numStallingIters s).quantCeil :=
  hqSearch_induction (fun s => FieldBounds acs low bound s.quantField ∧ HalfStep s.quantCeil)
    (fun _ _ ⟨inv, half⟩ => ⟨radiusSweep_induction (FieldBounds acs low bound)
      (fun _ _ => fieldBounds_radiusPass tileNonneg speedNonneg lowPos half.pos_le.1
        (half.pos_le.2.trans eight) _) _ _ _ inv, half⟩)
    (fun _ holds _ => holds) (fun _ holds => holds)
    (fun _ ⟨inv, half⟩ below => ⟨inv, half.step below⟩) s start

end Bounds

section RoundBounds

variable {acs : AcStrategyImage} {bound : F}

/-- The loop-state invariant behind the bounds: the field has the grid's size; the field, the
best field and every field handed over lie in `(0, bound]`; `quant_ceil` is on its half steps. -/
structure HqBounded (acs : AcStrategyImage) (bound : F) (st : HqState F) : Prop where
  sized : st.quantField.xsize = acs.xsize ∧ st.quantField.ysize = acs.ysize
  field : InBounds acs bound st.quantField
  best : InBounds acs bound st.bestQuantField
  calls : ∀ c ∈ st.setQuantFieldCalls, InBounds acs bound c.2
  ceil : HalfStep st.quantCeil

/-- The round trip leaves the search's variables alone. -/
theorem hqRoundtrip_frame (pow : F → F → F) (cmp : Comparator F) (butteraugliTarget : F)
    (st : HqState F) :
    (hqRoundtrip pow cmp acs butteraugliTarget st).1.quantField = st.quantField ∧
      (hqRoundtrip pow cmp acs butteraugliTarget st).1.outerIter = st.outerIter ∧
      (hqRoundtrip pow cmp acs butteraugliTarget st).1.searchRadius = st.searchRadius := by
  unfold hqRoundtrip
  dsimp only
  split_ifs <;> exact ⟨rfl, rfl, rfl⟩

theorem hqBounded_roundtrip (pow : F → F → F) (cmp : Comparator F) (butteraugliTarget : F)
    {st : HqState F} (inv : HqBounded acs bound st) :
    HqBounded acs bound (hqRoundtrip pow cmp acs butteraugliTarget st).1 := by
  have calls : ∀ c ∈ st.setQuantFieldCalls ++ [(st.quantDc, st.quantField)],
      InBounds acs bound c.2 := fun c member => (List.mem_append.mp member).elim (inv.calls c)
    fun new => List.mem_singleton.mp new ▸ inv.field
  unfold hqRoundtrip
  dsimp only
  split_ifs
  · exact ⟨inv.sized, inv.field, inv.field, calls, inv.ceil⟩
  all_goals exact ⟨inv.sized, inv.field, inv.best, calls, inv.ceil⟩

variable [FloorRing F]

/-- The search keeps the invariant, and leaves every block at least where it was. -/
theorem hqBounded_withSearch {tileDistmap : Plane F} {butteraugliTarget score qmax adjSpeed : F}
    {numStallingIters : ℕ} (tileNonneg : ∀ x y, 0 ≤ tileDistmap.row y x) (speedNonneg : 0 ≤ adjSpeed)
    (eight : 8 ≤ bound) {st : HqState F} (inv : HqBounded acs bound st) :
    HqBounded acs bound (st.withSearch (hqSearch tileDistmap butteraugliTarget score qmax adjSpeed
        numStallingIters st.toSearch)) ∧
      ∀ x y, x < acs.xsize → y < acs.ysize → st.quantField.row y x ≤
        (hqSearch tileDistmap butteraugliTarget score qmax adjSpeed numStallingIters
          st.toSearch).quantField.row y x := by
  obtain ⟨bounds, half⟩ : FieldBounds acs st.quantField bound (hqSearch tileDistmap
      butteraugliTarget score qmax adjSpeed numStallingIters st.toSearch).quantField ∧
      HalfStep (hqSearch tileDistmap butteraugliTarget score qmax adjSpeed numStallingIters
        st.toSearch).quantCeil :=
    hqSearch_bounds tileNonneg speedNonneg (fun x y left below => (inv.field x y left below).1)
      eight ⟨⟨inv.sized, fun x y left below => ⟨le_rfl, (inv.field x y left below).2⟩⟩, inv.ceil⟩
  exact ⟨⟨bounds.sized, fun x y left below => ⟨(inv.field x y left below).1.trans_le
    (bounds.cells x y left below).1, (bounds.cells x y left below).2⟩, inv.best, inv.calls, half⟩,
    fun x y left below => (bounds.cells x y left below).1⟩

omit [FloorRing F] in
/-- Scaling by `kQuantScale` keeps a positive field positive and lowers it. -/
theorem hqBounded_nextOuter {st : HqState F} (inv : HqBounded acs bound st) :
    HqBounded acs bound st.nextOuter := by
  refine ⟨by simpa [HqState.nextOuter] using inv.sized, fun x y left below => ?_, inv.best,
    inv.calls, inv.ceil⟩
  have cell := inv.field x y left below
  simp only [HqState.nextOuter, kQuantScale,
    Plane.updateCells_row_of_lt _ (inv.sized.1 ▸ left) (inv.sized.2 ▸ below)]
  constructor <;> linarith

variable (pow : F → F → F) (cmp : Comparator F) (butteraugliTarget : F) (maxIters : ℕ)
  (powNonneg : ∀ a b, 0 ≤ a → 0 ≤ pow a b) (eight : 8 ≤ bound)
include powNonneg eight

/-- **Every round keeps the bounds.** -/
theorem hqBounded_round {st : HqState F} (inv : HqBounded acs bound st) :
    HqBounded acs bound (hqRound pow cmp acs butteraugliTarget maxIters st).1 :=
  hqRound_induction pow cmp acs butteraugliTarget maxIters (HqBounded acs bound) st
    (hqBounded_roundtrip pow cmp butteraugliTarget inv)
    (hqBounded_withSearch (tileDistMap_nonneg _ _ _ _ powNonneg) (kAdjSpeed_nonneg _) eight
      (hqBounded_roundtrip pow cmp butteraugliTarget inv)).1
    (fun _ inv' => ⟨inv'.sized, inv'.field, inv'.best, inv'.calls, inv'.ceil⟩)
    (fun _ inv' => hqBounded_nextOuter inv')

/-- **Between two round trips of one outer iteration no block decreases.** -/
theorem hqRound_mono {st : HqState F} (inv : HqBounded acs bound st)
    (continues : (hqRound pow cmp acs butteraugliTarget maxIters st).2 = true)
    (sameOuter : (hqRound pow cmp acs butteraugliTarget maxIters st).1.outerIter = st.outerIter)
    {x y : ℕ} (left : x < acs.xsize) (below : y < acs.ysize) :
    st.quantField.row y x ≤ (hqRound pow cmp acs butteraugliTarget maxIters st).1.quantField.row y x := by
  obtain ⟨sameField, sameIter, -⟩ := hqRoundtrip_frame pow cmp butteraugliTarget st
  rcases hqRound_cases pow cmp acs butteraugliTarget maxIters st with
    stop | ⟨same, -⟩ | stop | ⟨next, -⟩
  · rw [stop] at continues
    cases continues
  · rw [same]
    calc st.quantField.row y x = (hqRoundtrip pow cmp acs butteraugliTarget st).1.quantField.row y x :=
          by rw [sameField]
      _ ≤ _ := (hqBounded_withSearch (tileDistMap_nonneg _ _ _ _ powNonneg) (kAdjSpeed_nonneg _)
          eight (hqBounded_roundtrip pow cmp butteraugliTarget inv)).2 x y left below
  · rw [stop] at continues
    cases continues
  · rw [next] at sameOuter
    simp [HqState.nextOuter, HqState.withSearch, sameIter] at sameOuter

end RoundBounds

section Uniform

open AcStrategyImage

variable {acs : AcStrategyImage} (tiling : acs.Tiling) {tileDistmap : Plane F}
  {butteraugliTarget adjSpeed : F} (tileConst : acs.RegionConstant tileDistmap)
  (tileSized : tileDistmap.xsize = acs.xsize ∧ tileDistmap.ysize = acs.ysize)
include tiling tileConst tileSized

/-- **At radius 0 a pass keeps the field constant on transforms**: the distance map is 0 on the
tiles above target and `-1` elsewhere, one value per transform, so every block of a transform
gets the same update. -/
theorem regionConstant_radiusPass_zero {quantCeil : F} {st : Plane F × Bool}
    (sized : st.1.xsize = acs.xsize ∧ st.1.ysize = acs.ysize) (const : acs.RegionConstant st.1) :
    acs.RegionConstant (radiusPass tileDistmap butteraugliTarget adjSpeed quantCeil 0 st).1 := by
  rw [radiusPass_fst]
  refine const.updateCells tiling sized fun ax ay x y first inRegion => ?_
  obtain ⟨left, below⟩ := tiling.lt_of_inRegion first inRegion
  simp only [distToPeakMap_row_radius_zero tileDistmap butteraugliTarget (tileSized.1 ▸ left)
      (tileSized.2 ▸ below),
    distToPeakMap_row_radius_zero tileDistmap butteraugliTarget (tileSized.1 ▸ first.1)
      (tileSized.2 ▸ first.2.1), tileConst ax ay x y first inRegion]

variable [FloorRing F] {score qmax : F} {numStallingIters : ℕ}

/-- The search never lowers the radius, and while the radius stays 0 it keeps the field constant
on transforms. -/
theorem hqSearch_uniform (radius0 : ℕ) {s : HqSearch F}
    (start : (s.quantField.xsize = acs.xsize ∧ s.quantField.ysize = acs.ysize) ∧
      radius0 ≤ s.searchRadius ∧ (s.searchRadius = 0 → acs.RegionConstant s.quantField)) :
    let s' := hqSearch tileDistmap butteraugliTarget score qmax adjSpeed numStallingIters s
    (s'.quantField.xsize = acs.xsize ∧ s'.quantField.ysize = acs.ysize) ∧
      radius0 ≤ s'.searchRadius ∧ (s'.searchRadius = 0 → acs.RegionConstant s'.quantField) :=
  hqSearch_induction (fun s => (s.quantField.xsize = acs.xsize ∧ s.quantField.ysize = acs.ysize) ∧
      radius0 ≤ s.searchRadius ∧ (s.searchRadius = 0 → acs.RegionConstant s.quantField))
    (fun s _ ⟨sized, atLeast, uniform⟩ => by
      refine ⟨⟨(radiusSweep_size _ _ _).1.trans sized.1, (radiusSweep_size _ _ _).2.trans sized.2⟩,
        atLeast, fun zero => ?_⟩
      dsimp only at zero ⊢
      rw [zero, radiusSweep_radius_zero]
      exact regionConstant_radiusPass_zero tiling tileConst tileSized sized (uniform zero))
    (fun _ ⟨sized, atLeast, _⟩ _ => ⟨sized, atLeast.trans (Nat.le_succ _), fun zero =>
      absurd zero (Nat.succ_ne_zero _)⟩)
    (fun _ holds => holds) (fun _ holds _ => holds) s start

end Uniform

section RoundUniform

open AcStrategyImage

variable {acs : AcStrategyImage}

/-- The loop-state invariant of constancy: the field has the grid's size, and while the search
radius is 0 the field, the best field and every field handed over are constant on transforms. -/
structure HqUniform (acs : AcStrategyImage) (st : HqState F) : Prop where
  sized : st.quantField.xsize = acs.xsize ∧ st.quantField.ysize = acs.ysize
  uniform : st.searchRadius = 0 → acs.RegionConstant st.quantField ∧
    acs.RegionConstant st.bestQuantField ∧ ∀ c ∈ st.setQuantFieldCalls, acs.RegionConstant c.2

theorem hqRoundtrip_tile (pow : F → F → F) (cmp : Comparator F) (butteraugliTarget : F)
    (st : HqState F) : (hqRoundtrip pow cmp acs butteraugliTarget st).2.2 =
      tileDistMap pow (cmp.roundtrip (st.butteraugliIter + 1) st.quantDc st.quantField).2 8 0 acs := by
  unfold hqRoundtrip
  dsimp only

theorem hqUniform_roundtrip (pow : F → F → F) (cmp : Comparator F) (butteraugliTarget : F)
    {st : HqState F} (inv : HqUniform acs st) :
    HqUniform acs (hqRoundtrip pow cmp acs butteraugliTarget st).1 := by
  have calls : st.searchRadius = 0 → ∀ c ∈ st.setQuantFieldCalls ++ [(st.quantDc, st.quantField)],
      acs.RegionConstant c.2 := fun zero c member => (List.mem_append.mp member).elim
    ((inv.uniform zero).2.2 c) fun new => List.mem_singleton.mp new ▸ (inv.uniform zero).1
  unfold hqRoundtrip
  dsimp only
  split_ifs
  · exact ⟨inv.sized, fun zero => ⟨(inv.uniform zero).1, (inv.uniform zero).1, calls zero⟩⟩
  all_goals exact ⟨inv.sized, fun zero => ⟨(inv.uniform zero).1, (inv.uniform zero).2.1, calls zero⟩⟩

variable [FloorRing F]

/-- The search keeps the constancy invariant when its tile map is constant on transforms. -/
theorem hqUniform_withSearch (tiling : acs.Tiling) {tileDistmap : Plane F}
    {butteraugliTarget score qmax adjSpeed : F} {numStallingIters : ℕ}
    (tileConst : acs.RegionConstant tileDistmap)
    (tileSized : tileDistmap.xsize = acs.xsize ∧ tileDistmap.ysize = acs.ysize) {st : HqState F}
    (inv : HqUniform acs st) :
    HqUniform acs (st.withSearch (hqSearch tileDistmap butteraugliTarget score qmax adjSpeed
      numStallingIters st.toSearch)) := by
  obtain ⟨sized, atLeast, uniform⟩ :
      let s' := hqSearch tileDistmap butteraugliTarget score qmax adjSpeed numStallingIters
        st.toSearch
      (s'.quantField.xsize = acs.xsize ∧ s'.quantField.ysize = acs.ysize) ∧
        st.searchRadius ≤ s'.searchRadius ∧ (s'.searchRadius = 0 → acs.RegionConstant s'.quantField) :=
    hqSearch_uniform tiling tileConst tileSized st.searchRadius
      ⟨inv.sized, le_rfl, fun zero => (inv.uniform zero).1⟩
  refine ⟨sized, fun zero => ?_⟩
  have before : st.searchRadius = 0 := Nat.eq_zero_of_le_zero (atLeast.trans_eq zero)
  exact ⟨uniform zero, (inv.uniform before).2.1, (inv.uniform before).2.2⟩

variable (pow : F → F → F) {cmp : Comparator F} (tiling : acs.Tiling)
  (diffmaps : cmp.DiffmapsMatch acs) (butteraugliTarget : F) (maxIters : ℕ)
include tiling diffmaps

/-- **Every round keeps the constancy invariant**: a search that ends at radius 0 swept at
radius 0 only, and the rescaling multiplies every block by the same factor. -/
theorem hqUniform_round {st : HqState F} (inv : HqUniform acs st) :
    HqUniform acs (hqRound pow cmp acs butteraugliTarget maxIters st).1 := by
  have trip := hqUniform_roundtrip pow cmp butteraugliTarget inv
  have tiles := cmp.tilesMatch_roundtrip diffmaps (st.butteraugliIter + 1) st.quantDc st.quantField
  refine hqRound_induction pow cmp acs butteraugliTarget maxIters (HqUniform acs) st trip
    (hqUniform_withSearch tiling
      (hqRoundtrip_tile pow cmp butteraugliTarget st ▸ regionConstant_tileDistMap pow 0 tiling tiles)
      (by rw [hqRoundtrip_tile]; exact ⟨(tileDistMap_xsize _ _ _ _ _).trans tiles.1,
        (tileDistMap_ysize _ _ _ _ _).trans tiles.2⟩) trip)
    (fun _ inv' => ⟨inv'.sized, inv'.uniform⟩)
    (fun _ inv' => ⟨by simpa [HqState.nextOuter] using inv'.sized, fun zero => ?_⟩)
  obtain ⟨const, best, calls⟩ := inv'.uniform zero
  exact ⟨const.updateCells tiling inv'.sized fun _ _ _ _ _ _ => rfl, best, calls⟩

/-- **While the search radius is 0, the HQ search keeps every field constant on transforms.**
For every tiling, initial field, comparator whose distance maps cover the grid, target and
iteration count: at the head of every round with `search_radius = 0` the field about to be
handed over, the best field and every field handed over so far are constant on transforms, and
if the search ends with radius 0 so is every field of every `SetQuantField` call. -/
theorem regionConstant_findBestQuantizationHQ_radius_zero {quantField : Plane F}
    (sized : quantField.xsize = acs.xsize ∧ quantField.ysize = acs.ysize) :
    (∀ st, HqReachable pow cmp acs butteraugliTarget maxIters
        (hqInit (adjustQuantField acs quantField)) st → st.searchRadius = 0 →
      acs.RegionConstant st.quantField ∧ acs.RegionConstant st.bestQuantField ∧
        ∀ c ∈ st.setQuantFieldCalls, acs.RegionConstant c.2) ∧
      ((hqLoop pow cmp acs butteraugliTarget maxIters
          (hqInit (adjustQuantField acs quantField))).searchRadius = 0 →
        ∀ c ∈ findBestQuantizationHQ pow cmp acs butteraugliTarget maxIters quantField,
          acs.RegionConstant c.2) := by
  have initial := regionConstant_adjustQuantField tiling sized
  have reach : ∀ st, HqReachable pow cmp acs butteraugliTarget maxIters
      (hqInit (adjustQuantField acs quantField)) st → HqUniform acs st := by
    intro st reachable
    induction reachable with
    | start => exact ⟨by simpa [hqInit] using sized, fun _ => ⟨initial, initial,
        fun _ member => absurd member (List.not_mem_nil _)⟩⟩
    | step _ _ ih => exact hqUniform_round pow tiling diffmaps butteraugliTarget maxIters ih
  refine ⟨fun st reachable => (reach st reachable).uniform, fun zero c member => ?_⟩
  obtain ⟨last, reachable, -, final⟩ := hqLoop_final pow cmp acs butteraugliTarget maxIters
    (hqInit (adjustQuantField acs quantField))
  have done := hqUniform_round pow tiling diffmaps butteraugliTarget maxIters (reach last reachable)
  rw [← final] at done
  obtain ⟨_, best, calls⟩ := done.uniform zero
  rcases List.mem_append.mp member with old | new
  · exact calls c old
  · exact List.mem_singleton.mp new ▸ best

end RoundUniform

/-- `stepField` on `rowOfThree` with a comparator that scores 0 and returns a zero distance map
over the row: the search never runs, the radius stays 0, and every call is constant on
transforms. -/
theorem regionConstant_findBestQuantizationHQ_radius_zero_rowOfThree :
    rowOfThree.Tiling ∧
      Comparator.DiffmapsMatch (⟨fun _ _ _ => (0, Plane.filled 24 8 0), true⟩ : Comparator ℝ)
        rowOfThree ∧
      ((hqLoop Real.rpow ⟨fun _ _ _ => (0, Plane.filled 24 8 0), true⟩ rowOfThree 1 2
          (hqInit (adjustQuantField rowOfThree stepField))).searchRadius = 0 →
        ∀ c ∈ findBestQuantizationHQ Real.rpow ⟨fun _ _ _ => (0, Plane.filled 24 8 0), true⟩
          rowOfThree 1 2 stepField, rowOfThree.RegionConstant c.2) :=
  have diffmaps : Comparator.DiffmapsMatch
      (⟨fun _ _ _ => (0, Plane.filled 24 8 0), true⟩ : Comparator ℝ) rowOfThree :=
    fun _ _ _ => by simp [TilesMatch, rowOfThree]
  ⟨tiling_rowOfThree, diffmaps,
    (regionConstant_findBestQuantizationHQ_radius_zero Real.rpow tiling_rowOfThree diffmaps 1 2
      ⟨rfl, rfl⟩).2⟩

/-! ### Past radius 0 a transform is split

One row of three blocks, an 8×8 transform and a transform two blocks wide, with field
`(5, 1, 1)`, and a comparator that always scores 2 against target 1 with a distance map of 1 over
the first block and `1/2` over the wide transform. The tiles are 1.2 and 0.6, so the first block
is the only peak. The pass at radius 0 changes nothing (5 is at the ceiling), the search widens to
radius 1, and there the wide transform's first block is at distance 1 from the peak and its
second block at distance 2: the first is raised to `1/0.97` and the second is not, and the second
round trip hands that field to the quantizer. -/

theorem forEachCell_three_one {σ : Type} (body : σ → ℕ → ℕ → σ) (init : σ) :
    Plane.forEachCell 3 1 body init = body (body (body init 0 0) 1 0) 2 0 := rfl

section StepTile

variable {tile : Plane ℝ} (sizeX : tile.xsize = 3) (sizeY : tile.ysize = 1)
  (peak : tile.row 0 0 = 1.2) (wide1 : tile.row 0 1 = 0.6) (wide2 : tile.row 0 2 = 0.6)
include sizeX sizeY peak wide1 wide2

theorem isPeak_stepTile (R x y : ℕ) : IsPeak tile 1 R 0 x y ↔ x = 0 ∧ y = 0 := by
  rw [isPeak_iff, sizeX, sizeY]
  constructor
  · rintro ⟨left, below, above⟩
    interval_cases x <;> interval_cases y <;> norm_num [peak, wide1, wide2] at above ⊢
  · rintro ⟨rfl, rfl⟩
    norm_num [peak]

theorem distToPeakMap_stepTile (R x : ℕ) (left : x < 3) :
    (distToPeakMap tile 1 R 0).row 0 x = if x ≤ R then (x : ℝ) else -1 := by
  rw [distToPeakMap_row_single_peak (isPeak_stepTile sizeX sizeY peak wide1 wide2 R) (sizeX ▸ left)
    (sizeY ▸ Nat.one_pos)]
  simp [chebyshev, Nat.dist]

/-- At radius 0 only the peak is reached, and it is at the ceiling. -/
theorem radiusPass_stepField_zero :
    radiusPass tile 1 (kAdjSpeed 0) 5 0 (stepField, false) = (stepField, false) := by
  have dist := distToPeakMap_stepTile sizeX sizeY peak wide1 wide2 0
  have unreached : ¬ (-1 : ℝ) ≥ 0 := by norm_num
  rw [radiusPass]
  simp only [stepField_xsize, stepField_ysize, forEachCell_three_one, dist 0 (by norm_num),
    dist 1 (by norm_num), dist 2 (by norm_num), Nat.reduceLeDiff, ↓reduceIte, Nat.cast_zero,
    ge_iff_le, le_refl, unreached]
  rw [adjustQuantVal_of_le (by norm_num [stepField])]
  simp only [Plane.set_row_self, Bool.or_false]

/-- At radius 1 the first block of the wide transform is raised and its second block is not. -/
theorem radiusPass_stepField_one :
    radiusPass tile 1 (kAdjSpeed 0) 5 1 (stepField, false) = (stepField.set 1 0 (100 / 97), true) := by
  have dist := distToPeakMap_stepTile sizeX sizeY peak wide1 wide2 1
  have unreached : ¬ (-1 : ℝ) ≥ 0 := by norm_num
  have low : (stepField : Plane ℝ).row 0 1 = 1 := rfl
  rw [radiusPass]
  simp only [stepField_xsize, stepField_ysize, forEachCell_three_one, dist 0 (by norm_num),
    dist 1 (by norm_num), dist 2 (by norm_num), Nat.reduceLeDiff, ↓reduceIte, Nat.cast_zero,
    Nat.cast_one, ge_iff_le, le_refl, zero_le_one, unreached]
  rw [adjustQuantVal_of_le (by norm_num [stepField])]
  simp only [Plane.set_row_self, Bool.or_false, Bool.false_or, low]
  rw [adjustQuantVal_of_lt (by norm_num) (by norm_num)]
  norm_num [kAdjSpeed, wide1]

/-- The search sweeps radius 0, widens to radius 1, and sweeps again with a change. -/
theorem hqSearch_stepField : hqSearch tile 1 2 5 (kAdjSpeed 0) 0 ⟨stepField, 0, 5, 1.2, false⟩ =
    ⟨stepField.set 1 0 (100 / 97), 1, 5, 1.2, true⟩ := by
  have pass0 := radiusPass_stepField_zero sizeX sizeY peak wide1 wide2
  have pass1 := radiusPass_stepField_one sizeX sizeY peak wide1 wide2
  rw [hqSearch, if_pos ⟨rfl, by norm_num⟩]
  simp only [radiusSweep, pass0, pass1]
  norm_num
  rw [hqSearch, if_pos ⟨rfl, by norm_num⟩]
  simp only [radiusSweep, pass0, pass1]
  norm_num

end StepTile

theorem hqRoundtrip_stepField : hqRoundtrip Real.rpow stepComparator rowOfThree 1 (hqInit stepField) =
    (⟨stepField, stepField, 2, 0, 1, 0, 5, 1.2, 1.2, 0, [(1.2, stepField)]⟩, 2,
      tileDistMap Real.rpow stepDiffmap 8 0 rowOfThree) := by
  simp [hqRoundtrip, hqInit, stepComparator, Comparator.roundtrip]
  norm_num

/-- The first round ends with the split field and goes on. -/
theorem hqRound_stepField : hqRound Real.rpow stepComparator rowOfThree 1 2 (hqInit stepField) =
    (⟨stepField.set 1 0 (100 / 97), stepField, 2, 0, 1, 1, 5, 1.2, 1.2, 0, [(1.2, stepField)]⟩,
      true) := by
  obtain ⟨sizeX, sizeY, peak, wide1, wide2⟩ := tileDistMap_stepDiffmap
  have qmax : (Plane.imageMinMax (stepField : Plane ℝ)).2 = 5 := by
    simp [Plane.imageMinMax, forEachCell_three_one, stepField]
  have init : (hqInit (stepField : Plane ℝ)).quantField = stepField := rfl
  rw [hqRound]
  simp only [hqRoundtrip_stepField, HqState.toSearch, init, qmax,
    hqSearch_stepField sizeX sizeY peak wide1 wide2]
  norm_num [HqState.withSearch]

/-- The second round trip is the last: the calls are the two fields. -/
theorem hqLoop_stepField :
    (hqLoop Real.rpow stepComparator rowOfThree 1 2 (hqInit stepField)).setQuantFieldCalls =
      [(1.2, stepField), (1.2, stepField.set 1 0 (100 / 97))] := by
  have last : ∀ st : HqState ℝ, st.butteraugliIter = 1 →
      hqRound Real.rpow stepComparator rowOfThree 1 2 st =
        ((hqRoundtrip Real.rpow stepComparator rowOfThree 1 st).1, false) := fun st one => by
    rw [hqRound, if_pos (by rw [hqRoundtrip_butteraugliIter, one])]
  rw [hqLoop, hqRound_stepField, if_pos rfl, hqLoop, last _ rfl, if_neg Bool.false_ne_true,
    hqRoundtrip_calls]
  rfl

/-- The HQ search hands the quantizer a field that is not constant on a transform. -/
theorem findBestQuantizationHQ_splits_transform :
    rowOfThree.Tiling ∧ Comparator.DiffmapsMatch (stepComparator : Comparator ℝ) rowOfThree ∧
      ∃ c ∈ findBestQuantizationHQ Real.rpow stepComparator rowOfThree 1 2 stepField,
        ¬ rowOfThree.RegionConstant c.2 := by
  refine ⟨tiling_rowOfThree, fun _ _ _ => tilesMatch_stepDiffmap,
    (1.2, stepField.set 1 0 (100 / 97)), ?_, fun const => ?_⟩
  · have fixed : adjustQuantField rowOfThree (stepField : Plane ℝ) = stepField :=
      adjustQuantField_of_regionConstant tiling_rowOfThree ⟨rfl, rfl⟩ regionConstant_stepField
    rw [findBestQuantizationHQ, fixed, hqLoop_stepField]
    simp
  · have split := const 1 0 2 0 (isFirst_rowOfThree.mpr ⟨rfl, .inr rfl⟩)
      (by simp [AcStrategyImage.InRegion, rowOfThree, AcStrategy.wide])
    norm_num [Plane.set, stepField] at split

/-- **The HQ search keeps the field in `(0, max(M, 8)]` and only raises it within an outer
iteration.** With exact real arithmetic and `std::pow` as the real power, for every tiling, every
initial field with its blocks in `(0, M]`, and every comparator: at the head of every round the
field and the best field lie in `(0, max(M, 8)]` and `quant_ceil ≤ 8`; between two round trips
with the same `outer_iter` no block decreases; and every field handed to the quantizer lies in
`(0, max(M, 8)]`. -/
theorem findBestQuantizationHQ_bounds (cmp : Comparator ℝ) {acs : AcStrategyImage}
    (tiling : acs.Tiling) (butteraugliTarget : ℝ) (maxIters : ℕ) {quantField : Plane ℝ}
    (sized : quantField.xsize = acs.xsize ∧ quantField.ysize = acs.ysize) (M : ℝ)
    (cells : ∀ x y, x < acs.xsize → y < acs.ysize → 0 < quantField.row y x ∧ quantField.row y x ≤ M) :
    (∀ st, HqReachable Real.rpow cmp acs butteraugliTarget maxIters
        (hqInit (adjustQuantField acs quantField)) st →
      InBounds acs (max M 8) st.quantField ∧ InBounds acs (max M 8) st.bestQuantField ∧
        st.quantCeil ≤ 8 ∧
        ((hqRound Real.rpow cmp acs butteraugliTarget maxIters st).2 = true →
          (hqRound Real.rpow cmp acs butteraugliTarget maxIters st).1.outerIter = st.outerIter →
          ∀ x y, x < acs.xsize → y < acs.ysize → st.quantField.row y x ≤
            (hqRound Real.rpow cmp acs butteraugliTarget maxIters st).1.quantField.row y x)) ∧
      ∀ c ∈ findBestQuantizationHQ Real.rpow cmp acs butteraugliTarget maxIters quantField,
        InBounds acs (max M 8) c.2 := by
  have eight : (8 : ℝ) ≤ max M 8 := le_max_right _ _
  have powNonneg : ∀ a b : ℝ, 0 ≤ a → 0 ≤ Real.rpow a b := fun _ b nonneg => Real.rpow_nonneg nonneg b
  have initial : InBounds acs (max M 8) (adjustQuantField acs quantField) := fun x y left below => by
    obtain ⟨x', y', left', below', same⟩ :=
      exists_eq_adjustQuantField tiling sized (sized.1 ▸ left) (sized.2 ▸ below)
    have cell := cells x' y' (sized.1 ▸ left') (sized.2 ▸ below')
    exact same ▸ ⟨cell.1, cell.2.trans (le_max_left _ _)⟩
  have reach : ∀ st, HqReachable Real.rpow cmp acs butteraugliTarget maxIters
      (hqInit (adjustQuantField acs quantField)) st → HqBounded acs (max M 8) st := by
    intro st reachable
    induction reachable with
    | start => exact ⟨by simpa [hqInit] using sized, initial, initial,
        fun _ member => absurd member (List.not_mem_nil _), ⟨0, by norm_num, by norm_num [hqInit]⟩⟩
    | step _ _ ih =>
      exact hqBounded_round Real.rpow cmp butteraugliTarget maxIters powNonneg eight ih
  refine ⟨fun st reachable => ?_, fun c member => ?_⟩
  · have inv := reach st reachable
    exact ⟨inv.field, inv.best, inv.ceil.pos_le.2, fun continues sameOuter _ _ left below =>
      hqRound_mono Real.rpow cmp butteraugliTarget maxIters powNonneg eight inv continues sameOuter
        left below⟩
  · obtain ⟨last, reachable, -, final⟩ := hqLoop_final Real.rpow cmp acs butteraugliTarget maxIters
      (hqInit (adjustQuantField acs quantField))
    have done := hqBounded_round Real.rpow cmp butteraugliTarget maxIters powNonneg eight
      (reach last reachable)
    rw [← final] at done
    rcases List.mem_append.mp member with old | new
    · exact done.calls c old
    · exact List.mem_singleton.mp new ▸ done.best

/-- The bounds on `stepField`, whose cells are at most 5, with `stepComparator` against target 1,
where the search splits the wide transform. -/
theorem findBestQuantizationHQ_bounds_rowOfThree :
    rowOfThree.Tiling ∧
      ∀ c ∈ findBestQuantizationHQ Real.rpow stepComparator rowOfThree 1 2 stepField,
        InBounds rowOfThree (max 5 8) c.2 :=
  ⟨tiling_rowOfThree, (findBestQuantizationHQ_bounds stepComparator tiling_rowOfThree 1 2
    ⟨rfl, rfl⟩ 5 fun x y _ _ => ⟨stepField_pos x y, by
      show (if x = 0 then 5 else 1 : ℝ) ≤ 5
      split <;> norm_num⟩).2⟩

end JxlEncoder
