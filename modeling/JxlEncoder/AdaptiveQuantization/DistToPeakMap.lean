import JxlEncoder.Image.Plane

/-! # Distance to the nearest peak

`DistToPeakMap` marks the cells of a field that stand above a threshold mixed from `peak_min`
and their local maximum, and stamps every cell within Chebyshev distance `R` of such a peak with
the distance, keeping the smallest; cells no peak reaches keep `-1`. The stamps of different
peaks overlap and arrive in row-major order, with `-1` playing infinity inside the comparison.

The loop is shown to compute, at every cell, the least distance to a peak within `R`, or `-1`
(`distToPeakMap_spec`): after any prefix of the scan the map holds exactly this for the peaks
seen so far (`stamped_step`).
-/

namespace JxlEncoder

variable {F : Type} [LinearOrderedField F]

/-- The Chebyshev distance `max(|y - y0|, |x - x0|)` between `(x, y)` and `(x0, y0)`. -/
def chebyshev (x y x0 y0 : ℕ) : ℕ := max (Nat.dist y y0) (Nat.dist x x0)

section Model

variable (field : Plane F) (peakMin : F) (localRadius : ℕ) (peakWeight : F)

/-- The largest of `peak_min` and the field over the window of `(x0, y0)` clipped to the image,
`[max(0, x0 - R), min(xsize, x0 + 1 + R))` across and the same down. -/
def localMax (x0 y0 : ℕ) : F :=
  Plane.forEachCellIn (x0 - localRadius) (min field.xsize (x0 + 1 + localRadius))
    (y0 - localRadius) (min field.ysize (y0 + 1 + localRadius))
    (fun m x y => max m (field.row y x)) peakMin

/-- One stamp: `if (cur_dist < 0.0 || cur_dist > dist) result = dist`. -/
def stampDist (cur dist : F) : F := if cur < 0 ∨ cur > dist then dist else cur

/-- The loop body at `(x0, y0)`: if the cell is a peak, stamp its window. -/
def distToPeakMapBody (result : Plane F) (x0 y0 : ℕ) : Plane F :=
  if field.row y0 x0 > (1 - peakWeight) * peakMin + peakWeight * localMax field peakMin localRadius x0 y0
  then
    Plane.forEachCellIn (x0 - localRadius) (min field.xsize (x0 + 1 + localRadius))
      (y0 - localRadius) (min field.ysize (y0 + 1 + localRadius))
      (fun r x y => r.set x y (stampDist (r.row y x) (chebyshev x y x0 y0 : F))) result
  else result

/-- **`DistToPeakMap`**: start from `-1` everywhere and run the body at every cell. -/
def distToPeakMap : Plane F :=
  Plane.forEachCell field.xsize field.ysize (distToPeakMapBody field peakMin localRadius peakWeight)
    (Plane.filled field.xsize field.ysize (-1))

/-- A peak, stated without the loop: a cell of the image whose value exceeds
`(1 - w) * peak_min + w * M`, where `M` is the greatest of `peak_min` and the field over the
cells of the image within distance `R`. -/
def IsPeak (px py : ℕ) : Prop :=
  px < field.xsize ∧ py < field.ysize ∧ ∃ M, IsGreatest (insert peakMin
    {v | ∃ x y, x < field.xsize ∧ y < field.ysize ∧ chebyshev x y px py ≤ localRadius ∧
      field.row y x = v}) M ∧
    (1 - peakWeight) * peakMin + peakWeight * M < field.row py px

end Model

/-- A cell lies in the clipped window of `(x0, y0)` exactly when it is in the image and within
distance `R`. -/
theorem inWindow_iff {xsize ysize R x y x0 y0 : ℕ} :
    (x0 - R ≤ x ∧ x < min xsize (x0 + 1 + R) ∧ y0 - R ≤ y ∧ y < min ysize (y0 + 1 + R)) ↔
      x < xsize ∧ y < ysize ∧ chebyshev x y x0 y0 ≤ R := by
  simp only [chebyshev, Nat.dist, lt_min_iff, max_le_iff]
  omega

/-- The seeded local maximum is the greatest of `peak_min` and the field on the window. -/
theorem isGreatest_localMax (field : Plane F) (peakMin : F) (R x0 y0 : ℕ) :
    IsGreatest (insert peakMin {v | ∃ x y, x < field.xsize ∧ y < field.ysize ∧
      chebyshev x y x0 y0 ≤ R ∧ field.row y x = v}) (localMax field peakMin R x0 y0) := by
  rw [localMax, Plane.forEachCellIn_eq_foldl_cellsIn]
  obtain ⟨start, visited, choice⟩ := Plane.foldl_max_spec (fun c : ℕ × ℕ => field.row c.2 c.1)
    (Plane.cellsIn (x0 - R) (min field.xsize (x0 + 1 + R)) (y0 - R) (min field.ysize (y0 + 1 + R)))
    peakMin
  refine ⟨?_, ?_⟩
  · rcases choice with seed | ⟨c, member, found⟩
    · exact .inl seed
    · obtain ⟨left, below, near⟩ := inWindow_iff.mp (Plane.mem_cellsIn.mp member)
      exact .inr ⟨c.1, c.2, left, below, near, found.symm⟩
  · rintro v (rfl | ⟨x, y, left, below, near, rfl⟩)
    · exact start
    · exact visited (x, y) (Plane.mem_cellsIn.mpr (inWindow_iff.mpr ⟨left, below, near⟩))

/-- The peak test of the loop, against the seeded local maximum of the clipped window, is
`IsPeak`. -/
theorem isPeak_iff {field : Plane F} {peakMin peakWeight : F} {R px py : ℕ} :
    IsPeak field peakMin R peakWeight px py ↔ px < field.xsize ∧ py < field.ysize ∧
      field.row py px > (1 - peakWeight) * peakMin + peakWeight * localMax field peakMin R px py := by
  refine and_congr_right fun _ => and_congr_right fun _ => ⟨?_, fun above => ⟨_,
    isGreatest_localMax field peakMin R px py, above⟩⟩
  rintro ⟨M, greatest, above⟩
  rwa [(isGreatest_localMax field peakMin R px py).unique greatest]

/-- A stamp on a `-1`-or-distance cell keeps the smaller distance. -/
theorem stampDist_unset (d : ℕ) : stampDist (-1 : F) d = d := by
  simp [stampDist]

theorem stampDist_nat (e d : ℕ) : stampDist (e : F) d = (min e d : ℕ) := by
  rcases le_or_lt e d with le | lt
  · simp [stampDist, le, not_lt.mpr (Nat.cast_le.mpr le)]
  · simp [stampDist, lt, lt.le]

section Invariant

variable {field : Plane F} {peakMin : F} {R : ℕ} {peakWeight : F}

variable (field peakMin R peakWeight) in
/-- After the loop body has run at the cells of `done`, cell `(x, y)` holds `-1` if no peak among
them is within `R`, and otherwise the least distance to one that is. -/
def Stamped (done : List (ℕ × ℕ)) (r : Plane F) (x y : ℕ) : Prop :=
  (r.row y x = -1 ∧
      ∀ p ∈ done, IsPeak field peakMin R peakWeight p.1 p.2 → R < chebyshev x y p.1 p.2) ∨
    ∃ d : ℕ, r.row y x = d ∧ d ≤ R ∧
      (∃ p ∈ done, IsPeak field peakMin R peakWeight p.1 p.2 ∧ chebyshev x y p.1 p.2 = d) ∧
      ∀ p ∈ done, IsPeak field peakMin R peakWeight p.1 p.2 → chebyshev x y p.1 p.2 ≤ R →
        d ≤ chebyshev x y p.1 p.2

/-- A cell that a new block does not reach keeps the invariant. -/
theorem stamped_append_far {done : List (ℕ × ℕ)} {r : Plane F} {x y : ℕ} {p : ℕ × ℕ}
    (far : IsPeak field peakMin R peakWeight p.1 p.2 → R < chebyshev x y p.1 p.2)
    (inv : Stamped field peakMin R peakWeight done r x y) :
    Stamped field peakMin R peakWeight (done ++ [p]) r x y := by
  rcases inv with ⟨unset, none⟩ | ⟨d, stamped, bound, ⟨q, member, peak, dist⟩, least⟩
  · refine .inl ⟨unset, fun q member peak => ?_⟩
    rcases List.mem_append.mp member with old | new
    · exact none q old peak
    · obtain rfl := List.mem_singleton.mp new
      exact far peak
  · refine .inr ⟨d, stamped, bound, ⟨q, List.mem_append_left _ member, peak, dist⟩,
      fun q' member' peak' near' => ?_⟩
    rcases List.mem_append.mp member' with old | new
    · exact least q' old peak' near'
    · obtain rfl := List.mem_singleton.mp new
      exact absurd near' (not_le.mpr (far peak'))

/-- A peak stamping a cell within its reach keeps the invariant. -/
theorem stamped_append_near {done : List (ℕ × ℕ)} {r : Plane F} {x y : ℕ} {p : ℕ × ℕ}
    (peak : IsPeak field peakMin R peakWeight p.1 p.2) (near : chebyshev x y p.1 p.2 ≤ R)
    (inv : Stamped field peakMin R peakWeight done r x y) :
    Stamped field peakMin R peakWeight (done ++ [p])
      (r.set x y (stampDist (r.row y x) (chebyshev x y p.1 p.2 : F))) x y := by
  have written : (r.set x y (stampDist (r.row y x) (chebyshev x y p.1 p.2 : F))).row y x =
      stampDist (r.row y x) (chebyshev x y p.1 p.2 : F) := by simp [Plane.set]
  rw [Stamped, written]
  rcases inv with ⟨unset, none⟩ | ⟨d, stamped, bound, ⟨q, member, qPeak, dist⟩, least⟩
  · refine .inr ⟨_, by rw [unset, stampDist_unset], near,
      ⟨p, List.mem_append_right _ (.head _), peak, rfl⟩, fun q member qPeak qNear => ?_⟩
    rcases List.mem_append.mp member with old | new
    · exact absurd qNear (not_le.mpr (none q old qPeak))
    · exact (List.mem_singleton.mp new ▸ le_rfl)
  · refine .inr ⟨_, by rw [stamped, stampDist_nat], by omega, ?_, fun q' member' peak' near' => ?_⟩
    · rcases le_total d (chebyshev x y p.1 p.2) with le | ge
      · exact ⟨q, List.mem_append_left _ member, qPeak, by omega⟩
      · exact ⟨p, List.mem_append_right _ (.head _), peak, by omega⟩
    · rcases List.mem_append.mp member' with old | new
      · exact (min_le_left _ _).trans (least q' old peak' near')
      · exact List.mem_singleton.mp new ▸ min_le_right _ _

/-- **One step of the scan keeps the invariant at every cell of the image.** -/
theorem stamped_step {done : List (ℕ × ℕ)} {r : Plane F} {p : ℕ × ℕ} (left : p.1 < field.xsize)
    (below : p.2 < field.ysize)
    (inv : ∀ x y, x < field.xsize → y < field.ysize → Stamped field peakMin R peakWeight done r x y)
    (x y : ℕ) (inX : x < field.xsize) (inY : y < field.ysize) :
    Stamped field peakMin R peakWeight (done ++ [p])
      (distToPeakMapBody field peakMin R peakWeight r p.1 p.2) x y := by
  unfold distToPeakMapBody
  split_ifs with test
  · have peak : IsPeak field peakMin R peakWeight p.1 p.2 := isPeak_iff.mpr ⟨left, below, test⟩
    by_cases near : chebyshev x y p.1 p.2 ≤ R
    · have stamp := stamped_append_near peak near (inv x y inX inY)
      rw [Stamped, Plane.forEachCellIn_set_row _ _ _ _
        (fun x y v => stampDist v (chebyshev x y p.1 p.2 : F)),
        if_pos (inWindow_iff.mpr ⟨inX, inY, near⟩)]
      simpa [Stamped, Plane.set] using stamp
    · rw [Stamped, Plane.forEachCellIn_set_row _ _ _ _
        (fun x y v => stampDist v (chebyshev x y p.1 p.2 : F)),
        if_neg fun inside => near (inWindow_iff.mp inside).2.2]
      exact stamped_append_far (fun _ => not_le.mp near) (inv x y inX inY)
  · exact stamped_append_far (fun peak => absurd (isPeak_iff.mp peak).2.2 test) (inv x y inX inY)

/-- The whole scan: every cell holds `-1` or its least distance to a peak within `R`. -/
theorem stamped_distToPeakMap (x y : ℕ) (inX : x < field.xsize) (inY : y < field.ysize) :
    Stamped field peakMin R peakWeight (Plane.cells field.xsize field.ysize)
      (distToPeakMap field peakMin R peakWeight) x y := by
  rw [distToPeakMap, Plane.forEachCell_eq_foldl_cells]
  suffices ∀ (todo done : List (ℕ × ℕ)) (r : Plane F), (∀ c ∈ todo, c ∈ Plane.cells field.xsize field.ysize) →
      (∀ x y, x < field.xsize → y < field.ysize → Stamped field peakMin R peakWeight done r x y) →
      ∀ x y, x < field.xsize → y < field.ysize → Stamped field peakMin R peakWeight (done ++ todo)
        (todo.foldl (fun r c => distToPeakMapBody field peakMin R peakWeight r c.1 c.2) r) x y from
    this _ [] _ (fun _ member => member) (fun _ _ _ _ => .inl ⟨rfl, fun _ member => absurd member
      (List.not_mem_nil _)⟩) x y inX inY
  intro todo
  induction todo with
  | nil => simp
  | cons c todo ih =>
    intro done r inGrid inv
    have cell := Plane.mem_cells.mp (inGrid c (.head _))
    simpa using ih (done ++ [c]) _ (fun c' member => inGrid c' (.tail _ member))
      (stamped_step cell.1 cell.2 inv)

end Invariant

/-- At radius 0 and peak weight 0 a cell is its own window: the map holds 0 on the cells above
`peak_min` and `-1` elsewhere. -/
theorem distToPeakMap_row_radius_zero (field : Plane F) (peakMin : F) {x y : ℕ}
    (inX : x < field.xsize) (inY : y < field.ysize) :
    (distToPeakMap field peakMin 0 0).row y x = if peakMin < field.row y x then 0 else -1 := by
  have self : (x, y) ∈ Plane.cells field.xsize field.ysize := Plane.mem_cells.mpr ⟨inX, inY⟩
  have peakSelf : IsPeak field peakMin 0 0 x y ↔ peakMin < field.row y x := by
    simp [isPeak_iff, inX, inY]
  rcases stamped_distToPeakMap x y inX inY with ⟨unset, none⟩ |
    ⟨d, stamped, bound, ⟨q, _, qPeak, dist⟩, -⟩
  · rw [unset, if_neg fun above => absurd (none (x, y) self (peakSelf.mpr above))
      (by simp [chebyshev])]
  · have same : q = (x, y) := by
      simp only [chebyshev, Nat.dist] at dist
      ext <;> dsimp only <;> omega
    subst same
    rw [stamped, show d = 0 by omega, if_pos (peakSelf.mp qPeak), Nat.cast_zero]

/-- With a single peak, every cell within `R` of it holds its distance to it and every other
cell `-1`. -/
theorem distToPeakMap_row_single_peak {field : Plane F} {peakMin peakWeight : F} {R px py : ℕ}
    (unique : ∀ x y, IsPeak field peakMin R peakWeight x y ↔ x = px ∧ y = py) {x y : ℕ}
    (inX : x < field.xsize) (inY : y < field.ysize) :
    (distToPeakMap field peakMin R peakWeight).row y x =
      if chebyshev x y px py ≤ R then (chebyshev x y px py : F) else -1 := by
  have peak := (unique px py).mpr ⟨rfl, rfl⟩
  rcases stamped_distToPeakMap x y inX inY with ⟨unset, none⟩ |
    ⟨d, stamped, bound, ⟨q, _, qPeak, dist⟩, -⟩
  · rw [unset, if_neg (not_le.mpr (none (px, py) (Plane.mem_cells.mpr ⟨peak.1, peak.2.1⟩) peak))]
  · obtain ⟨sameX, sameY⟩ := (unique q.1 q.2).mp qPeak
    rw [sameX, sameY] at dist
    rw [stamped, if_pos (dist ▸ bound), dist]

/-- **`DistToPeakMap` computes the distance to the nearest peak.** At every cell of the image the
result is the least Chebyshev distance to a peak within `R`, or `-1` if no peak is that close;
in particular every peak gets `0` and every value is `-1` or one of `0, …, R`. -/
theorem distToPeakMap_spec (field : Plane F) (peakMin : F) (R : ℕ) (peakWeight : F) (x y : ℕ)
    (inX : x < field.xsize) (inY : y < field.ysize) :
    (((distToPeakMap field peakMin R peakWeight).row y x = -1 ∧
        ∀ px py, IsPeak field peakMin R peakWeight px py → R < chebyshev x y px py) ∨
      ∃ d : ℕ, (distToPeakMap field peakMin R peakWeight).row y x = d ∧
        IsLeast {e | ∃ px py, IsPeak field peakMin R peakWeight px py ∧
          chebyshev x y px py = e ∧ e ≤ R} d) ∧
    (IsPeak field peakMin R peakWeight x y → (distToPeakMap field peakMin R peakWeight).row y x = 0) ∧
    ((distToPeakMap field peakMin R peakWeight).row y x = -1 ∨
      ∃ d : ℕ, d ≤ R ∧ (distToPeakMap field peakMin R peakWeight).row y x = d) := by
  have inCells : ∀ px py, IsPeak field peakMin R peakWeight px py →
      (px, py) ∈ Plane.cells field.xsize field.ysize := fun _ _ peak =>
    Plane.mem_cells.mpr ⟨peak.1, peak.2.1⟩
  rcases stamped_distToPeakMap x y inX inY with ⟨unset, none⟩ |
    ⟨d, stamped, bound, ⟨q, _, qPeak, dist⟩, least⟩
  · refine ⟨.inl ⟨unset, fun px py peak => none (px, py) (inCells px py peak) peak⟩,
      fun peak => ?_, .inl unset⟩
    exact absurd (none (x, y) (inCells x y peak) peak) (by simp [chebyshev])
  · refine ⟨.inr ⟨d, stamped, ⟨q.1, q.2, qPeak, dist, dist ▸ bound⟩, ?_⟩, fun peak => ?_,
      .inr ⟨d, bound, stamped⟩⟩
    · rintro e ⟨px, py, peak, rfl, near⟩
      exact least (px, py) (inCells px py peak) peak near
    · have zero := least (x, y) (inCells x y peak) peak (by simp [chebyshev])
      simp only [chebyshev, Nat.dist_self, max_self, nonpos_iff_eq_zero] at zero
      rw [stamped, zero, Nat.cast_zero]

/-- The field `(2, 0, 0)` with `peak_min = 1`, radius 1 and peak weight 0: its first cell is a
peak, and the map holds 0 there. -/
theorem distToPeakMap_peak :
    let field : Plane ℚ := ⟨3, 1, fun _ x => if x = 0 then 2 else 0⟩
    (0 < field.xsize ∧ 0 < field.ysize ∧ IsPeak field 1 1 0 0 0) ∧
      (distToPeakMap field 1 1 0).row 0 0 = 0 :=
  have peak : IsPeak (⟨3, 1, fun _ x => if x = 0 then 2 else 0⟩ : Plane ℚ) 1 1 0 0 0 :=
    isPeak_iff.mpr ⟨by norm_num, by norm_num, by norm_num⟩
  ⟨⟨by norm_num, by norm_num, peak⟩,
    (distToPeakMap_spec _ 1 1 0 0 0 (by norm_num) (by norm_num)).2.1 peak⟩

end JxlEncoder
