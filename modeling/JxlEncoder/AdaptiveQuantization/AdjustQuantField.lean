import JxlEncoder.Image.AcStrategy

/-! # Broadcasting the maximum over each transform

`AdjustQuantField` replaces the quant field on every transform larger than one block by the
maximum of the field over the transform. It is a first-block scan whose body reads the cells of
its transform and writes them back, so on a valid tiling every cell ends up holding the maximum
of the input over its own transform (`adjustQuantField_row`). From this: the result is constant
on transforms, lies above the input, keeps its maximum, and a second call changes nothing
(`adjustQuantField_spec`). The call's two `JXL_ASSERT`s (`AdjustQuantFieldAsserts`), which its
callers check before they use the result, hold on every valid tiling of the field's size
(`adjustQuantFieldAsserts_of_tiling`).
-/

namespace JxlEncoder

variable {F : Type} [LinearOrder F]

/-- The maximum of the quant field over the `cx × cy` cells whose top-left cell is `(x, y)`:
`float max = quant_row[x]; for iy, ix: max = std::max(quant_row[x + ix + iy * stride], max)`. -/
def regionMax (q : Plane F) (x y cx cy : ℕ) : F :=
  Plane.forEachCell cx cy (fun m ix iy => max (q.row (y + iy) (x + ix)) m) (q.row y x)

/-- The body of `AdjustQuantField` at a first block, after its two `JXL_ASSERT`s
(`AdjustQuantFieldAsserts`): broadcast the maximum over its transform. -/
def adjustQuantFieldBody (acs : AcStrategyImage) (q : Plane F) (x y : ℕ) : Plane F :=
  q.fillRect x y (acs.row y x).coveredBlocksX (acs.row y x).coveredBlocksY
    (regionMax q x y (acs.row y x).coveredBlocksX (acs.row y x).coveredBlocksY)

/-- **`AdjustQuantField`**: at every first block in row-major order, replace the quant field on
the transform by its maximum there. -/
def adjustQuantField (acs : AcStrategyImage) (q : Plane F) : Plane F :=
  acs.forEachFirstBlock q.xsize q.ysize (adjustQuantFieldBody acs) q

/-- The two `JXL_ASSERT`s of `AdjustQuantField`, `x + covered_blocks_x <= quant_field->xsize()`
and `y + covered_blocks_y <= quant_field->ysize()`, at every first block of the scan over the
field: they read only the strategies and the sizes, so the call aborts exactly when one of them
fails at some first block. -/
def AdjustQuantFieldAsserts {T : Type} (acs : AcStrategyImage) (q : Plane T) : Prop :=
  ∀ x < q.xsize, ∀ y < q.ysize, (acs.row y x).isFirstBlock = true →
    x + (acs.row y x).coveredBlocksX ≤ q.xsize ∧ y + (acs.row y x).coveredBlocksY ≤ q.ysize

instance {T : Type} (acs : AcStrategyImage) (q : Plane T) :
    Decidable (AdjustQuantFieldAsserts acs q) :=
  Nat.decidableBallLT _ _

/-- **The asserts hold on a valid tiling** of a field of the grid's size: every transform lies in
the grid. -/
theorem adjustQuantFieldAsserts_of_tiling {T : Type} {acs : AcStrategyImage} (tiling : acs.Tiling)
    {q : Plane T}
    (sized : q.xsize = acs.xsize ∧ q.ysize = acs.ysize) : AdjustQuantFieldAsserts acs q := by
  intro x left y below first
  rw [sized.1] at left ⊢
  rw [sized.2] at below ⊢
  exact tiling.inside x y ⟨left, below, first⟩

theorem regionMax_eq_foldl (q : Plane F) (x y cx cy : ℕ) : regionMax q x y cx cy =
    (Plane.cells cx cy).foldl (fun m c => max m (q.row (y + c.2) (x + c.1))) (q.row y x) := by
  rw [regionMax, Plane.forEachCell_eq_foldl_cells]
  exact List.foldl_ext _ _ _ fun m c _ => max_comm _ _

/-- The running maximum is at least every cell of the rectangle, and is one of them. -/
theorem regionMax_spec (q : Plane F) (x y cx cy : ℕ) (nonempty : 0 < cx ∧ 0 < cy) :
    (∀ ix iy, ix < cx → iy < cy → q.row (y + iy) (x + ix) ≤ regionMax q x y cx cy) ∧
      ∃ ix iy, ix < cx ∧ iy < cy ∧ regionMax q x y cx cy = q.row (y + iy) (x + ix) := by
  rw [regionMax_eq_foldl]
  obtain ⟨_, visited, choice⟩ :=
    Plane.foldl_max_spec (fun c : ℕ × ℕ => q.row (y + c.2) (x + c.1)) (Plane.cells cx cy) (q.row y x)
  refine ⟨fun ix iy left below => visited (ix, iy) (Plane.mem_cells.mpr ⟨left, below⟩), ?_⟩
  rcases choice with start | ⟨c, member, found⟩
  · exact ⟨0, 0, nonempty.1, nonempty.2, start⟩
  · exact ⟨c.1, c.2, (Plane.mem_cells.mp member).1, (Plane.mem_cells.mp member).2, found⟩

/-- The running maximum reads only the cells of its rectangle. -/
theorem regionMax_congr {q q' : Plane F} {x y cx cy : ℕ} (nonempty : 0 < cx ∧ 0 < cy)
    (same : ∀ ix iy, ix < cx → iy < cy → q.row (y + iy) (x + ix) = q'.row (y + iy) (x + ix)) :
    regionMax q x y cx cy = regionMax q' x y cx cy := by
  have corner := same 0 0 nonempty.1 nonempty.2
  simp only [Nat.add_zero] at corner
  rw [regionMax_eq_foldl, regionMax_eq_foldl, corner]
  exact List.foldl_ext _ _ _ fun m c member => by
    rw [same c.1 c.2 (Plane.mem_cells.mp member).1 (Plane.mem_cells.mp member).2]

namespace AcStrategyImage

variable {acs : AcStrategyImage}

/-- The body of `AdjustQuantField` rewrites only its transform, from the transform's cells. -/
theorem regionLocal_adjustQuantFieldBody :
    acs.RegionLocal (adjustQuantFieldBody acs : Plane F → ℕ → ℕ → Plane F) where
  frame s _ _ _ _ _ outside := fillRect_row_of_not_inRegion s _ outside
  reads s s' ax ay _ same x y inRegion := by
    have nonempty := And.intro (acs.row ay ax).coveredBlocksX_pos (acs.row ay ax).coveredBlocksY_pos
    rw [adjustQuantFieldBody, adjustQuantFieldBody, fillRect_row_of_inRegion _ _ inRegion,
      fillRect_row_of_inRegion _ _ inRegion]
    exact regionMax_congr nonempty fun ix iy left below =>
      same (ax + ix) (ay + iy) ⟨by omega, by omega, by omega, by omega⟩

/-- The values of a plane on the transform whose first block is `(ax, ay)`. -/
def regionValues {T : Type} (acs : AcStrategyImage) (p : Plane T) (ax ay : ℕ) : Set T :=
  {v | ∃ x y, acs.InRegion ax ay x y ∧ p.row y x = v}

end AcStrategyImage

open AcStrategyImage

section Spec

variable {acs : AcStrategyImage} {q : Plane F}

@[simp] theorem adjustQuantField_xsize : (adjustQuantField acs q).xsize = q.xsize :=
  forEachFirstBlock_induction (fun s : Plane F => s.xsize = q.xsize)
    (fun _ _ _ same => by simpa [adjustQuantFieldBody] using same) rfl

@[simp] theorem adjustQuantField_ysize : (adjustQuantField acs q).ysize = q.ysize :=
  forEachFirstBlock_induction (fun s : Plane F => s.ysize = q.ysize)
    (fun _ _ _ same => by simpa [adjustQuantFieldBody] using same) rfl

/-- The maximum over a transform is the greatest value of the field there. -/
theorem isGreatest_regionMax (q : Plane F) (ax ay : ℕ) :
    IsGreatest (acs.regionValues q ax ay)
      (regionMax q ax ay (acs.row ay ax).coveredBlocksX (acs.row ay ax).coveredBlocksY) := by
  obtain ⟨above, ix, iy, left, below, found⟩ := regionMax_spec q ax ay _ _
    ⟨(acs.row ay ax).coveredBlocksX_pos, (acs.row ay ax).coveredBlocksY_pos⟩
  refine ⟨⟨ax + ix, ay + iy, ⟨by omega, by omega, by omega, by omega⟩, found.symm⟩, ?_⟩
  rintro v ⟨x, y, ⟨afterX, beforeX, afterY, beforeY⟩, rfl⟩
  have bound := above (x - ax) (y - ay) (by omega) (by omega)
  rwa [Nat.add_sub_cancel' afterX, Nat.add_sub_cancel' afterY] at bound

variable (tiling : acs.Tiling) (sized : q.xsize = acs.xsize ∧ q.ysize = acs.ysize)
include tiling sized

/-- **`AdjustQuantField` puts on every cell the maximum of the input over its transform.** -/
theorem adjustQuantField_row {ax ay x y : ℕ} (first : acs.IsFirst ax ay)
    (inRegion : acs.InRegion ax ay x y) : (adjustQuantField acs q).row y x =
      regionMax q ax ay (acs.row ay ax).coveredBlocksX (acs.row ay ax).coveredBlocksY := by
  rw [adjustQuantField, sized.1, sized.2,
    forEachFirstBlock_row tiling regionLocal_adjustQuantFieldBody first inRegion]
  exact fillRect_row_of_inRegion _ _ inRegion

/-- Cells outside the grid are not touched. -/
theorem adjustQuantField_row_outside {x y : ℕ} (outside : ¬ (x < acs.xsize ∧ y < acs.ysize)) :
    (adjustQuantField acs q).row y x = q.row y x := by
  rw [adjustQuantField, sized.1, sized.2]
  exact forEachFirstBlock_row_outside tiling regionLocal_adjustQuantFieldBody outside

theorem regionConstant_adjustQuantField : acs.RegionConstant (adjustQuantField acs q) :=
  fun _ _ _ _ first inRegion => by
    rw [adjustQuantField_row tiling sized first inRegion,
      adjustQuantField_row tiling sized first (inRegion_self _ _)]

theorem le_adjustQuantField {x y : ℕ} (left : x < q.xsize) (below : y < q.ysize) :
    q.row y x ≤ (adjustQuantField acs q).row y x := by
  obtain ⟨ax, ay, first, inRegion⟩ := tiling.exists_first (sized.1 ▸ left) (sized.2 ▸ below)
  rw [adjustQuantField_row tiling sized first inRegion]
  exact (isGreatest_regionMax q ax ay).2 ⟨x, y, inRegion, rfl⟩

/-- Every value of the result is a value of the input on the grid. -/
theorem exists_eq_adjustQuantField {x y : ℕ} (left : x < q.xsize) (below : y < q.ysize) :
    ∃ x' y', x' < q.xsize ∧ y' < q.ysize ∧ (adjustQuantField acs q).row y x = q.row y' x' := by
  obtain ⟨ax, ay, first, inRegion⟩ := tiling.exists_first (sized.1 ▸ left) (sized.2 ▸ below)
  obtain ⟨⟨x', y', inRegion', found⟩, -⟩ :
      IsGreatest (acs.regionValues q ax ay) _ := isGreatest_regionMax q ax ay
  obtain ⟨left', below'⟩ := tiling.lt_of_inRegion first inRegion'
  exact ⟨x', y', sized.1 ▸ left', sized.2 ▸ below',
    (adjustQuantField_row tiling sized first inRegion).trans found.symm⟩

theorem imageMinMax_snd_adjustQuantField :
    (Plane.imageMinMax (adjustQuantField acs q)).2 = (Plane.imageMinMax q).2 := by
  by_cases nonempty : 0 < q.xsize ∧ 0 < q.ysize
  · apply le_antisymm
    · obtain ⟨x, y, left, below, found⟩ :=
        Plane.exists_imageMinMax_snd (show 0 < (adjustQuantField acs q).xsize ∧
          0 < (adjustQuantField acs q).ysize by simpa using nonempty)
      obtain ⟨x', y', left', below', same⟩ :=
        exists_eq_adjustQuantField tiling sized (by simpa using left) (by simpa using below)
      rw [found, same]
      exact Plane.le_imageMinMax_snd left' below'
    · obtain ⟨x, y, left, below, found⟩ := Plane.exists_imageMinMax_snd nonempty
      rw [found]
      exact (le_adjustQuantField tiling sized left below).trans
        (Plane.le_imageMinMax_snd (by simpa using left) (by simpa using below))
  · have empty : Plane.cells q.xsize q.ysize = [] :=
      List.eq_nil_iff_forall_not_mem.mpr fun c member => nonempty (by
        obtain ⟨left, below⟩ := Plane.mem_cells.mp member
        omega)
    have corner : (adjustQuantField acs q).row 0 0 = q.row 0 0 :=
      adjustQuantField_row_outside tiling sized (by omega)
    simp [Plane.imageMinMax_snd, empty, corner]

/-- **A field that is already constant on transforms is left as it is**: the maximum over a
transform is its constant. -/
theorem adjustQuantField_of_regionConstant (const : acs.RegionConstant q) :
    adjustQuantField acs q = q := by
  refine Plane.ext (by simp) (by simp) (funext fun y => funext fun x => ?_)
  by_cases inGrid : x < acs.xsize ∧ y < acs.ysize
  · obtain ⟨ax, ay, first, inRegion⟩ := tiling.exists_first inGrid.1 inGrid.2
    obtain ⟨-, ix, iy, left, below, found⟩ := regionMax_spec q ax ay _ _
      ⟨(acs.row ay ax).coveredBlocksX_pos, (acs.row ay ax).coveredBlocksY_pos⟩
    rw [adjustQuantField_row tiling sized first inRegion, found,
      const ax ay _ _ first ⟨by omega, by omega, by omega, by omega⟩, const ax ay x y first inRegion]
  · exact adjustQuantField_row_outside tiling sized inGrid

/-- A second call changes nothing. -/
theorem adjustQuantField_adjustQuantField :
    adjustQuantField acs (adjustQuantField acs q) = adjustQuantField acs q :=
  adjustQuantField_of_regionConstant tiling (by simpa using sized)
    (regionConstant_adjustQuantField tiling sized)

end Spec

/-- **`AdjustQuantField` on a valid tiling.** Every cell receives the maximum of the input over
its transform; so the result is constant on transforms, lies above the input, has the input's
maximum, and applying `AdjustQuantField` again changes nothing. -/
theorem adjustQuantField_spec (acs : AcStrategyImage) (tiling : acs.Tiling) (q : Plane F)
    (sized : q.xsize = acs.xsize ∧ q.ysize = acs.ysize) :
    (∀ ax ay x y, acs.IsFirst ax ay → acs.InRegion ax ay x y →
        IsGreatest (acs.regionValues q ax ay) ((adjustQuantField acs q).row y x)) ∧
      acs.RegionConstant (adjustQuantField acs q) ∧
      (∀ x y, x < q.xsize → y < q.ysize → q.row y x ≤ (adjustQuantField acs q).row y x) ∧
      (Plane.imageMinMax (adjustQuantField acs q)).2 = (Plane.imageMinMax q).2 ∧
      adjustQuantField acs (adjustQuantField acs q) = adjustQuantField acs q :=
  ⟨fun ax ay _ _ first inRegion =>
      adjustQuantField_row tiling sized first inRegion ▸ isGreatest_regionMax q ax ay,
    regionConstant_adjustQuantField tiling sized, fun _ _ => le_adjustQuantField tiling sized,
    imageMinMax_snd_adjustQuantField tiling sized, adjustQuantField_adjustQuantField tiling sized⟩

/-- On an 8×8 transform and a transform two blocks wide, the field `(5, 1, 3)` becomes
`(5, 3, 3)`: the wide transform gets its maximum. -/
theorem adjustQuantField_rowOfThree :
    let q : Plane ℚ := ⟨3, 1, fun _ x => if x = 0 then 5 else if x = 1 then 1 else 3⟩
    (rowOfThree.Tiling ∧ q.xsize = rowOfThree.xsize ∧ q.ysize = rowOfThree.ysize) ∧
      (∀ ax ay x y, rowOfThree.IsFirst ax ay → rowOfThree.InRegion ax ay x y →
        IsGreatest (rowOfThree.regionValues q ax ay) ((adjustQuantField rowOfThree q).row y x)) ∧
      rowOfThree.RegionConstant (adjustQuantField rowOfThree q) ∧
      (∀ x y, x < q.xsize → y < q.ysize → q.row y x ≤ (adjustQuantField rowOfThree q).row y x) ∧
      (Plane.imageMinMax (adjustQuantField rowOfThree q)).2 = (Plane.imageMinMax q).2 ∧
      adjustQuantField rowOfThree (adjustQuantField rowOfThree q) = adjustQuantField rowOfThree q :=
  ⟨⟨tiling_rowOfThree, rfl, rfl⟩, adjustQuantField_spec rowOfThree tiling_rowOfThree _ ⟨rfl, rfl⟩⟩

end JxlEncoder
