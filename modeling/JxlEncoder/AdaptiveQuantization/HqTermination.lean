import JxlEncoder.AdaptiveQuantization.Hq

/-! # Termination of `FindBestQuantizationHQ`

The inner `while (!changed && score > butteraugli_target)` of the peak-descent search has no
counter. Its body sweeps the radii and, when nothing changed or the search has stalled, widens
the search by one step; `hqSearchPass` is that body, and `hqSearch` is its iteration
(`hqSearch_eq_hqSearchPass`). A pass that goes back to the loop's condition without a change has
widened the radius (below 4) or raised `quant_ceil` by 0.5 (below 8)
(`hqSearchPass_unchanged`), so `(4 - search_radius) + 2 (8 - quant_ceil)` drops by one on every
such pass, and the search parameters never decrease (`hqSearch_params`, `hqRound_params`). Every
state at the head of the outer loop has `search_radius ≤ 4`, `quant_ceil` on its half steps and
`outer_iter < kMaxOuterIters` (`hqParams_reachable`), and the outer loop makes one round trip per
round and at most `max(1, max_iters)` of them (`butteraugliIter_hqLoop_le`).
-/

namespace JxlEncoder

variable {F : Type} [LinearOrderedField F] [FloorRing F]

section Pass

variable (tileDistmap : Plane F) (butteraugliTarget qmax adjSpeed : F) (numStallingIters : ℕ)

/-- **One pass of the inner loop's body**: the sweep of the radii `0, …, search_radius`; then,
if nothing changed or the search has stalled three times, `++search_radius; continue;`, or
`quant_dc += 0.2; changed = true; continue;`, or `quant_ceil += 0.5; continue;`, or `break`.
`.inl` goes back to the loop's condition, `.inr` leaves the loop. -/
def hqSearchPass (s : HqSearch F) : HqSearch F ⊕ HqSearch F :=
  let sweep := radiusSweep tileDistmap butteraugliTarget adjSpeed s.quantCeil
    (s.searchRadius + 1) 0 (s.quantField, false)
  if !sweep.2 ∨ numStallingIters ≥ 3 then
    if s.searchRadius < 4 ∧ (qmax < 0.99 * s.quantCeil ∨ s.quantCeil ≥ 3 + s.searchRadius) then
      .inl { s with quantField := sweep.1, changed := sweep.2, searchRadius := s.searchRadius + 1 }
    else if s.quantDc < 0.4 * s.quantCeil - 0.8 then
      .inl { s with quantField := sweep.1, quantDc := s.quantDc + 0.2, changed := true }
    else if s.quantCeil < 8 then
      .inl { s with quantField := sweep.1, changed := sweep.2, quantCeil := s.quantCeil + 0.5 }
    else .inr { s with quantField := sweep.1, changed := sweep.2 }
  else .inl { s with quantField := sweep.1, changed := sweep.2 }

/-- A search state with a change leaves the loop at once. -/
theorem hqSearch_of_changed (score : F) {s : HqSearch F} (changed : s.changed = true) :
    hqSearch tileDistmap butteraugliTarget score qmax adjSpeed numStallingIters s = s := by
  rw [hqSearch, if_neg (by simp [changed])]

/-- **The inner loop iterates its body** while nothing has changed and the score is above the
target. -/
theorem hqSearch_eq_hqSearchPass (score : F) (s : HqSearch F) :
    hqSearch tileDistmap butteraugliTarget score qmax adjSpeed numStallingIters s =
      if s.changed = false ∧ score > butteraugliTarget then
        match hqSearchPass tileDistmap butteraugliTarget qmax adjSpeed numStallingIters s with
        | .inl s' => hqSearch tileDistmap butteraugliTarget score qmax adjSpeed numStallingIters s'
        | .inr s' => s'
      else s := by
  rw [hqSearch]
  by_cases go : s.changed = false ∧ score > butteraugliTarget
  · rw [if_pos go, if_pos go, hqSearchPass]
    dsimp only
    split_ifs with stall
    all_goals first
      | rfl
      | exact (hqSearch_of_changed _ _ _ _ _ _ rfl).symm
      | exact (hqSearch_of_changed _ _ _ _ _ _ (by simp only [not_or] at stall; simpa using stall.1)).symm
  · rw [if_neg go, if_neg go]

variable {tileDistmap butteraugliTarget qmax adjSpeed numStallingIters}

omit [FloorRing F] in
/-- **A pass that goes on without a change widens the search by one step**: one more radius
(from below 4), or half a step of `quant_ceil` (from below 8). -/
theorem hqSearchPass_unchanged {s s' : HqSearch F}
    (pass : hqSearchPass tileDistmap butteraugliTarget qmax adjSpeed numStallingIters s = .inl s')
    (unchanged : s'.changed = false) :
    (s'.searchRadius = s.searchRadius + 1 ∧ s.searchRadius < 4 ∧ s'.quantCeil = s.quantCeil) ∨
      (s'.searchRadius = s.searchRadius ∧ s.quantCeil < 8 ∧ s'.quantCeil = s.quantCeil + 0.5) := by
  unfold hqSearchPass at pass
  dsimp only at pass
  split_ifs at pass with stall widen lowDc belowCeil <;> cases pass
  · exact .inl ⟨rfl, widen.1, rfl⟩
  · cases unchanged
  · exact .inr ⟨rfl, belowCeil, rfl⟩
  · simp_all

end Pass

section Params

/-- The search parameters at the head of the outer loop: `search_radius ≤ 4`, `quant_ceil` on its
half steps, and `outer_iter < kMaxOuterIters`. -/
structure HqParams (st : HqState F) : Prop where
  radius : st.searchRadius ≤ 4
  ceil : HalfStep st.quantCeil
  outer : st.outerIter < kMaxOuterIters

/-- The inner loop never lowers `search_radius` or `quant_ceil`, and keeps them within their
bounds. -/
theorem hqSearch_params (tileDistmap : Plane F) (butteraugliTarget score qmax adjSpeed : F)
    (numStallingIters : ℕ) (s : HqSearch F) (radius : s.searchRadius ≤ 4)
    (ceil : HalfStep s.quantCeil) :
    let s' := hqSearch tileDistmap butteraugliTarget score qmax adjSpeed numStallingIters s
    s.searchRadius ≤ s'.searchRadius ∧ s.quantCeil ≤ s'.quantCeil ∧ s'.searchRadius ≤ 4 ∧
      HalfStep s'.quantCeil :=
  hqSearch_induction (fun s' => s.searchRadius ≤ s'.searchRadius ∧ s.quantCeil ≤ s'.quantCeil ∧
      s'.searchRadius ≤ 4 ∧ HalfStep s'.quantCeil)
    (fun _ _ holds => holds) (fun _ ⟨atLeast, ceilLe, _, half⟩ below =>
      ⟨atLeast.trans (Nat.le_succ _), ceilLe, below, half⟩)
    (fun _ holds => holds)
    (fun _ ⟨atLeast, ceilLe, le4, half⟩ below => ⟨atLeast, by linarith, le4, half.step below⟩)
    s ⟨le_rfl, le_rfl, radius, ceil⟩

variable (pow : F → F → F) (cmp : Comparator F) (acs : AcStrategyImage) (butteraugliTarget : F)
  (maxIters : ℕ)

omit [FloorRing F] in
/-- The round trip leaves the search parameters and the outer iteration alone. -/
theorem hqRoundtrip_params (st : HqState F) :
    (hqRoundtrip pow cmp acs butteraugliTarget st).1.searchRadius = st.searchRadius ∧
      (hqRoundtrip pow cmp acs butteraugliTarget st).1.quantCeil = st.quantCeil ∧
      (hqRoundtrip pow cmp acs butteraugliTarget st).1.outerIter = st.outerIter := by
  unfold hqRoundtrip
  dsimp only
  split_ifs <;> exact ⟨rfl, rfl, rfl⟩

/-- **A round never lowers `search_radius` or `quant_ceil`**, and a round after which the loop
goes on keeps the parameters' bounds: the last outer iteration breaks the loop. -/
theorem hqRound_params {st : HqState F} (params : HqParams st) :
    st.searchRadius ≤ (hqRound pow cmp acs butteraugliTarget maxIters st).1.searchRadius ∧
      st.quantCeil ≤ (hqRound pow cmp acs butteraugliTarget maxIters st).1.quantCeil ∧
      ((hqRound pow cmp acs butteraugliTarget maxIters st).2 = true →
        HqParams (hqRound pow cmp acs butteraugliTarget maxIters st).1) := by
  obtain ⟨sameRadius, sameCeil, sameOuter⟩ := hqRoundtrip_params pow cmp acs butteraugliTarget st
  obtain ⟨radiusLe, ceilLe, radius, ceil⟩ := hqSearch_params
    (hqRoundtrip pow cmp acs butteraugliTarget st).2.2 butteraugliTarget
    (hqRoundtrip pow cmp acs butteraugliTarget st).2.1 (Plane.imageMinMax st.quantField).2
    (kAdjSpeed (hqRoundtrip pow cmp acs butteraugliTarget st).1.outerIter)
    (hqRoundtrip pow cmp acs butteraugliTarget st).1.numStallingIters
    (hqRoundtrip pow cmp acs butteraugliTarget st).1.toSearch
    (by simpa [HqState.toSearch, sameRadius] using params.radius)
    (by simpa [HqState.toSearch, sameCeil] using params.ceil)
  unfold hqRound
  dsimp only
  split_ifs with stop changed last
  · exact ⟨sameRadius.ge, sameCeil.ge, fun never => absurd never (by simp)⟩
  · exact ⟨sameRadius ▸ radiusLe, sameCeil ▸ ceilLe, fun _ => ⟨radius, ceil, sameOuter ▸ params.outer⟩⟩
  · exact ⟨sameRadius ▸ radiusLe, sameCeil ▸ ceilLe, fun never => absurd never (by simp)⟩
  · refine ⟨sameRadius ▸ radiusLe, sameCeil ▸ ceilLe, fun _ => ⟨radius, ceil, ?_⟩⟩
    have := params.outer
    simp only [HqState.nextOuter, HqState.withSearch, sameOuter, kMaxOuterIters] at last this ⊢
    omega

end Params

section Run

variable (pow : F → F → F) (cmp : Comparator F) (acs : AcStrategyImage) (butteraugliTarget : F)
  (maxIters : ℕ)

omit [FloorRing F] in
theorem hqParams_hqInit (quantField : Plane F) : HqParams (hqInit quantField) :=
  ⟨by simp [hqInit], ⟨0, by norm_num, by simp [hqInit]⟩, by simp [hqInit, kMaxOuterIters]⟩

/-- **Every state at the head of the outer loop keeps the parameters' bounds.** -/
theorem hqParams_reachable {start st : HqState F} (params : HqParams start)
    (reachable : HqReachable pow cmp acs butteraugliTarget maxIters start st) : HqParams st := by
  induction reachable with
  | start => exact params
  | step _ continues ih =>
    exact (hqRound_params pow cmp acs butteraugliTarget maxIters ih).2.2 continues

/-- Every round of a run reads `kAdjSpeed[outer_iter]` with `outer_iter < kMaxOuterIters`. -/
theorem outerIter_lt_of_reachable {start st : HqState F} (params : HqParams start)
    (reachable : HqReachable pow cmp acs butteraugliTarget maxIters start st) :
    (hqRoundtrip pow cmp acs butteraugliTarget st).1.outerIter < kMaxOuterIters :=
  (hqRoundtrip_params pow cmp acs butteraugliTarget st).2.2 ▸
    (hqParams_reachable pow cmp acs butteraugliTarget maxIters params reachable).outer

/-- One round into the search on `stepField` with `stepComparator`, at the state that
`hqRound_stepField` computes, where the split field goes to the second round. -/
theorem outerIter_lt_of_reachable_stepField :
    let st : HqState ℝ := (hqRound Real.rpow stepComparator rowOfThree 1 2 (hqInit stepField)).1
    (HqParams (hqInit (stepField : Plane ℝ)) ∧
      HqReachable Real.rpow stepComparator rowOfThree 1 2 (hqInit stepField) st) ∧
      (hqRoundtrip Real.rpow stepComparator rowOfThree 1 st).1.outerIter < kMaxOuterIters :=
  have reachable : HqReachable Real.rpow stepComparator rowOfThree 1 2 (hqInit (stepField : Plane ℝ))
      (hqRound Real.rpow stepComparator rowOfThree 1 2 (hqInit stepField)).1 :=
    .step .start (by rw [hqRound_stepField])
  ⟨⟨hqParams_hqInit _, reachable⟩,
    outerIter_lt_of_reachable _ _ _ _ 2 (hqParams_hqInit _) reachable⟩

/-- A round makes exactly one round trip. -/
theorem hqRound_butteraugliIter_eq (st : HqState F) :
    (hqRound pow cmp acs butteraugliTarget maxIters st).1.butteraugliIter = st.butteraugliIter + 1 := by
  have trip := hqRoundtrip_butteraugliIter pow cmp acs butteraugliTarget st
  unfold hqRound
  dsimp only
  split_ifs <;> simp [HqState.withSearch, HqState.nextOuter, trip]

/-- **The outer loop makes at most `max(1, max_iters)` round trips**: a state at the head of the
loop has made none, or fewer than `max_iters`, and the last round makes one more. -/
theorem butteraugliIter_hqLoop_le (start : HqState F) (fresh : start.butteraugliIter = 0) :
    (hqLoop pow cmp acs butteraugliTarget maxIters start).butteraugliIter ≤ max 1 maxIters := by
  obtain ⟨last, reachable, -, final⟩ := hqLoop_final pow cmp acs butteraugliTarget maxIters start
  have before : last.butteraugliIter = 0 ∨ last.butteraugliIter < maxIters := by
    induction reachable with
    | start => exact .inl fresh
    | step _ continues _ =>
      obtain ⟨next, below⟩ := hqRound_butteraugliIter pow cmp acs butteraugliTarget maxIters continues
      exact .inr (next.trans_lt below)
  rw [final, hqRound_butteraugliIter_eq]
  omega

/-- **`FindBestQuantizationHQ` terminates**, for every `max_iters` and any scores and distance maps
of the comparator: it hands the quantizer one field per round trip and the best field at the end,
after at most `max(1, max_iters)` round trips. At the head of every round `search_radius ≤ 4`,
`quant_ceil` is one of `5, 5.5, …, 8` and `outer_iter < 2`, and no round lowers
`search_radius` or `quant_ceil`. The inner loop runs its body `hqSearchPass` while nothing has
changed and the score is above the target, and every pass that goes back to the loop's
condition without a change raises `search_radius` by one (to at most 4) or `quant_ceil` by 0.5 (to
at most 8), so `(4 - search_radius) + 2 (8 - quant_ceil)` drops by one on each such pass. -/
theorem findBestQuantizationHQ_terminates (quantField : Plane F) :
    let start := hqInit (adjustQuantField acs quantField)
    (hqLoop pow cmp acs butteraugliTarget maxIters start).butteraugliIter ≤ max 1 maxIters ∧
      (findBestQuantizationHQ pow cmp acs butteraugliTarget maxIters quantField).length =
        (hqLoop pow cmp acs butteraugliTarget maxIters start).butteraugliIter + 1 ∧
      (∀ st, HqReachable pow cmp acs butteraugliTarget maxIters start st →
        HqParams st ∧
          st.searchRadius ≤ (hqRound pow cmp acs butteraugliTarget maxIters st).1.searchRadius ∧
          st.quantCeil ≤ (hqRound pow cmp acs butteraugliTarget maxIters st).1.quantCeil) ∧
      ∀ (tileDistmap : Plane F) (qmax adjSpeed : F) (numStallingIters : ℕ),
        (∀ (score : F) (s : HqSearch F),
          hqSearch tileDistmap butteraugliTarget score qmax adjSpeed numStallingIters s =
            if s.changed = false ∧ score > butteraugliTarget then
              match hqSearchPass tileDistmap butteraugliTarget qmax adjSpeed numStallingIters s with
              | .inl s' => hqSearch tileDistmap butteraugliTarget score qmax adjSpeed numStallingIters s'
              | .inr s' => s'
            else s) ∧
        ∀ s s' : HqSearch F, s.searchRadius ≤ 4 → HalfStep s.quantCeil →
          hqSearchPass tileDistmap butteraugliTarget qmax adjSpeed numStallingIters s = .inl s' →
          s'.changed = false →
          ((s'.searchRadius = s.searchRadius + 1 ∧ s'.quantCeil = s.quantCeil) ∨
            (s'.searchRadius = s.searchRadius ∧ s'.quantCeil = s.quantCeil + 0.5)) ∧
          s'.searchRadius ≤ 4 ∧ HalfStep s'.quantCeil ∧ s'.quantCeil ≤ 8 ∧
          (4 - s'.searchRadius : F) + 2 * (8 - s'.quantCeil) =
            4 - s.searchRadius + 2 * (8 - s.quantCeil) - 1 := by
  intro start
  obtain ⟨last, reachable, -, final⟩ := hqLoop_final pow cmp acs butteraugliTarget maxIters start
  have calls := (hqBest_round pow cmp acs butteraugliTarget maxIters
    (hqBest_reachable pow cmp acs butteraugliTarget maxIters reachable)).iter
  rw [← final] at calls
  refine ⟨butteraugliIter_hqLoop_le pow cmp acs butteraugliTarget maxIters start rfl,
    by simp [findBestQuantizationHQ, calls], fun st reachable' => ?_,
    fun tileDistmap qmax adjSpeed numStallingIters => ⟨hqSearch_eq_hqSearchPass tileDistmap
      butteraugliTarget qmax adjSpeed numStallingIters,
      fun s s' radius ceil pass unchanged => ?_⟩⟩
  · have params := hqParams_reachable pow cmp acs butteraugliTarget maxIters
      (hqParams_hqInit _) reachable'
    exact ⟨params, (hqRound_params pow cmp acs butteraugliTarget maxIters params).1,
      (hqRound_params pow cmp acs butteraugliTarget maxIters params).2.1⟩
  · rcases hqSearchPass_unchanged pass unchanged with ⟨wider, below, same⟩ | ⟨same, below, higher⟩
    · rw [wider, same]
      exact ⟨.inl ⟨rfl, rfl⟩, below, ceil, ceil.pos_le.2, by push_cast; ring⟩
    · rw [same, higher]
      exact ⟨.inr ⟨rfl, rfl⟩, radius, ceil.step below, (ceil.step below).pos_le.2, by ring⟩

end Run

end JxlEncoder
