import JxlEncoder.Image.AcStrategy
import JxlEncoder.AdaptiveQuantization.Search

/-! # Per-transform distance scores

`TileDistMap` turns a per-pixel distance map into one score per block: for each transform it
takes a weighted 16-norm of the distances over the transform's pixels, widened by `margin` and
clipped to the image, and writes the score into every block of the transform. The image is
allocated without initialisation; on a valid tiling every cell is written, with the score of its
own transform (`tileDistMap_row`), so the map is constant on transforms whatever the distances
and the margin (`regionConstant_tileDistMap`).

`pow` is `std::pow`; nothing here depends on what it computes.
-/

namespace JxlEncoder

variable {F : Type} [LinearOrderedField F]

/-- `v^16` as the sources compute it, by squaring four times. -/
def pow16 (v : F) : F :=
  let v := v * v
  let v := v * v
  let v := v * v
  v * v

/-- The weight of pixel `(x, y)` of the window `[xBegin, xEnd) × [yBegin, yEnd)`: with a non-zero
margin, `kBorderMul = 0.98` on its edge rows and columns and `kCornerMul = 0.7` on its corners;
1 otherwise. -/
def tileWeight (margin xBegin xEnd yBegin yEnd x y : ℤ) : F :=
  let ymul : F := if margin ≠ 0 ∧ (y = yBegin ∨ y = yEnd - 1) then 0.98 else 1
  if margin ≠ 0 ∧ (x = xBegin ∨ x = xEnd - 1) then (if ymul = 1 then 0.98 else 0.7) else ymul

/-- The weighted sums `(dist_norm, pixels)` of the window: `dist_norm += xmul * v^16` and
`pixels += xmul` over its pixels in row-major order. -/
def tileSums (distmap : Plane F) (margin xBegin xEnd yBegin yEnd : ℤ) : F × F :=
  Plane.forEachCellIn xBegin.toNat xEnd.toNat yBegin.toNat yEnd.toNat
    (fun acc x y =>
      let xmul : F := tileWeight margin xBegin xEnd yBegin yEnd x y
      (acc.1 + xmul * pow16 (distmap.row y x), acc.2 + xmul))
    (0, 0)

section Model

variable (pow : F → F → F) (distmap : Plane F) (tileSize : ℕ) (margin : ℤ)
  (acs : AcStrategyImage)

/-- The score of the transform whose first block is `(tileX, tileY)`:
`kTileNorm * pow(dist_norm / pixels, 1.0 / 16)` with `kTileNorm = 1.2`, over the transform's
pixels widened by `margin` and clipped to the distance map, `pixels = 1` if it is zero. -/
def tileDist (tileX tileY : ℕ) : F :=
  let thisTileXsize := (acs.row tileY tileX).coveredBlocksX * tileSize
  let thisTileYsize := (acs.row tileY tileX).coveredBlocksY * tileSize
  let yBegin : ℤ := max 0 (tileSize * tileY - margin)
  let yEnd : ℤ := min distmap.ysize (tileSize * tileY + thisTileYsize + margin)
  let xBegin : ℤ := max 0 (tileSize * tileX - margin)
  let xEnd : ℤ := min distmap.xsize (tileSize * tileX + thisTileXsize + margin)
  let sums := tileSums distmap margin xBegin xEnd yBegin yEnd
  let pixels := if sums.2 = 0 then 1 else sums.2
  1.2 * pow (sums.1 / pixels) (1 / 16)

/-- The loop body at a first block: `dist_row[tile_x] = tile_dist`, then the score into every
block of the transform. -/
def tileDistMapBody (out : Plane F) (tileX tileY : ℕ) : Plane F :=
  (out.set tileX tileY (tileDist pow distmap tileSize margin acs tileX tileY)).fillRect tileX tileY
    (acs.row tileY tileX).coveredBlocksX (acs.row tileY tileX).coveredBlocksY
    (tileDist pow distmap tileSize margin acs tileX tileY)

/-- **`TileDistMap`** over the `⌈xsize / tile_size⌉ × ⌈ysize / tile_size⌉` tiles of the distance
map. The output image is not initialised by the sources; the model starts it at 0. -/
def tileDistMap : Plane F :=
  acs.forEachFirstBlock ((distmap.xsize + tileSize - 1) / tileSize)
    ((distmap.ysize + tileSize - 1) / tileSize) (tileDistMapBody pow distmap tileSize margin acs)
    (Plane.filled ((distmap.xsize + tileSize - 1) / tileSize)
      ((distmap.ysize + tileSize - 1) / tileSize) 0)

end Model

theorem pow16_nonneg (v : F) : 0 ≤ pow16 v := by
  unfold pow16
  exact mul_self_nonneg _

theorem tileWeight_pos (margin xBegin xEnd yBegin yEnd x y : ℤ) :
    0 < (tileWeight margin xBegin xEnd yBegin yEnd x y : F) := by
  unfold tileWeight
  split_ifs <;> norm_num

/-- Both sums of a window are non-negative. -/
theorem tileSums_nonneg (distmap : Plane F) (margin xBegin xEnd yBegin yEnd : ℤ) :
    0 ≤ (tileSums distmap margin xBegin xEnd yBegin yEnd).1 ∧
      0 ≤ (tileSums distmap margin xBegin xEnd yBegin yEnd).2 :=
  Plane.forEachCellIn_induction (fun acc : F × F => 0 ≤ acc.1 ∧ 0 ≤ acc.2)
    (fun _ _ _ ⟨sum, pixels⟩ =>
      have weight := (tileWeight_pos margin xBegin xEnd yBegin yEnd _ _ : (0 : F) < _)
      ⟨add_nonneg sum (mul_nonneg weight.le (pow16_nonneg _)), add_nonneg pixels weight.le⟩)
    ⟨le_rfl, le_rfl⟩

section Window

variable (distmap : Plane F) (margin xBegin xEnd yBegin yEnd : ℤ)

/-- The window sums are the sums, over the window's pixels, of `w · v^16` and of `w`. -/
theorem tileSums_eq_sum : tileSums distmap margin xBegin xEnd yBegin yEnd =
    (((Plane.cellsIn xBegin.toNat xEnd.toNat yBegin.toNat yEnd.toNat).map fun c =>
        tileWeight margin xBegin xEnd yBegin yEnd c.1 c.2 * pow16 (distmap.row c.2 c.1)).sum,
      ((Plane.cellsIn xBegin.toNat xEnd.toNat yBegin.toNat yEnd.toNat).map fun c =>
        (tileWeight margin xBegin xEnd yBegin yEnd c.1 c.2 : F)).sum) := by
  unfold tileSums
  refine Prod.ext ?_ ?_
  · exact (Plane.forEachCellIn_eq_sum Prod.fst _ (fun _ _ _ => rfl) _ _ _ _ _).trans (zero_add _)
  · exact (Plane.forEachCellIn_eq_sum Prod.snd _ (fun _ _ _ => rfl) _ _ _ _ _).trans (zero_add _)

/-- With margin 0 every weight is 1, so a window on which the distance map is `v` sums to
`(n · v^16, n)` for its `n` pixels. -/
theorem tileSums_of_const (v : F)
    (const : ∀ x y, (x, y) ∈ Plane.cellsIn xBegin.toNat xEnd.toNat yBegin.toNat yEnd.toNat →
      distmap.row y x = v) :
    tileSums distmap 0 xBegin xEnd yBegin yEnd =
      ((Plane.cellsIn xBegin.toNat xEnd.toNat yBegin.toNat yEnd.toNat).length * pow16 v,
        ((Plane.cellsIn xBegin.toNat xEnd.toNat yBegin.toNat yEnd.toNat).length : F)) := by
  have weight : ∀ c : ℕ × ℕ, (tileWeight 0 xBegin xEnd yBegin yEnd c.1 c.2 : F) = 1 := fun _ => by
    simp [tileWeight]
  rw [tileSums_eq_sum, List.map_congr_left fun c _ => weight c, List.map_congr_left fun c member =>
    show _ * pow16 (distmap.row c.2 c.1) = pow16 v by rw [weight, one_mul, const c.1 c.2 member]]
  simp

/-- A window with a pixel has a positive weight sum, so the `pixels == 0` fallback of
`TileDistMap` never applies to it. -/
theorem tileSums_snd_pos {c : ℕ × ℕ}
    (member : c ∈ Plane.cellsIn xBegin.toNat xEnd.toNat yBegin.toNat yEnd.toNat) :
    0 < (tileSums distmap margin xBegin xEnd yBegin yEnd).2 := by
  rw [tileSums_eq_sum]
  refine List.sum_pos _ (fun w weight => ?_) (List.ne_nil_of_mem (List.mem_map_of_mem _ member))
  obtain ⟨c, -, rfl⟩ := List.mem_map.mp weight
  exact tileWeight_pos ..

theorem pow16_eq_pow (v : F) : pow16 v = v ^ 16 := by
  unfold pow16
  ring

theorem pow16_le_pow16 {v M : F} (le : |v| ≤ M) : pow16 v ≤ pow16 M := by
  rw [pow16_eq_pow, pow16_eq_pow, ← Even.pow_abs ⟨8, rfl⟩ v]
  exact pow_le_pow_left₀ (abs_nonneg v) le 16

/-- **Power-mean bound**: when every distance of the window is at most `M` in absolute value,
the weighted sum of sixteenth powers is at most `M^16` times the weight sum. -/
theorem tileSums_fst_le {M : F}
    (bounded : ∀ c ∈ Plane.cellsIn xBegin.toNat xEnd.toNat yBegin.toNat yEnd.toNat,
      |distmap.row c.2 c.1| ≤ M) :
    (tileSums distmap margin xBegin xEnd yBegin yEnd).1 ≤
      pow16 M * (tileSums distmap margin xBegin xEnd yBegin yEnd).2 := by
  rw [tileSums_eq_sum, ← List.sum_map_mul_left]
  refine List.sum_le_sum fun c member => ?_
  rw [mul_comm (pow16 M)]
  exact mul_le_mul_of_nonneg_left (pow16_le_pow16 (bounded c member)) (tileWeight_pos ..).le

end Window

/-- The distance map's tiles are the blocks of the AC strategy image. -/
def TilesMatch (distmap : Plane F) (tileSize : ℕ) (acs : AcStrategyImage) : Prop :=
  (distmap.xsize + tileSize - 1) / tileSize = acs.xsize ∧
    (distmap.ysize + tileSize - 1) / tileSize = acs.ysize

section Sizes

variable (pow : F → F → F) (distmap : Plane F) (tileSize : ℕ) (margin : ℤ) (acs : AcStrategyImage)

@[simp] theorem tileDistMap_xsize :
    (tileDistMap pow distmap tileSize margin acs).xsize = (distmap.xsize + tileSize - 1) / tileSize :=
  AcStrategyImage.forEachFirstBlock_induction (fun s : Plane F => s.xsize = _)
    (fun _ _ _ same => by simp [tileDistMapBody, same]) rfl

@[simp] theorem tileDistMap_ysize :
    (tileDistMap pow distmap tileSize margin acs).ysize = (distmap.ysize + tileSize - 1) / tileSize :=
  AcStrategyImage.forEachFirstBlock_induction (fun s : Plane F => s.ysize = _)
    (fun _ _ _ same => by simp [tileDistMapBody, same]) rfl

variable {pow} (powNonneg : ∀ a b, 0 ≤ a → 0 ≤ pow a b)
include powNonneg

/-- With a `pow` that is non-negative on non-negative bases, every score is non-negative: the
sixteenth powers and the weights are. -/
theorem tileDist_nonneg (tileX tileY : ℕ) : 0 ≤ tileDist pow distmap tileSize margin acs tileX tileY := by
  have sums := tileSums_nonneg distmap margin
    (max 0 (tileSize * tileX - margin)) (min distmap.xsize
      (tileSize * tileX + (acs.row tileY tileX).coveredBlocksX * tileSize + margin))
    (max 0 (tileSize * tileY - margin)) (min distmap.ysize
      (tileSize * tileY + (acs.row tileY tileX).coveredBlocksY * tileSize + margin))
  unfold tileDist
  refine mul_nonneg (by norm_num) (powNonneg _ _ (div_nonneg sums.1 ?_))
  split
  · exact zero_le_one
  · exact sums.2

/-- Every cell of the tile map is non-negative. -/
theorem tileDistMap_nonneg (x y : ℕ) : 0 ≤ (tileDistMap pow distmap tileSize margin acs).row y x :=
  AcStrategyImage.forEachFirstBlock_induction (fun s : Plane F => ∀ x y, 0 ≤ s.row y x)
    (fun s ax ay nonneg x y => by
      rw [tileDistMapBody, Plane.fillRect_row]
      split
      · exact tileDist_nonneg distmap tileSize margin acs powNonneg ax ay
      · simp only [Plane.set]
        split
        · exact tileDist_nonneg distmap tileSize margin acs powNonneg ax ay
        · exact nonneg x y)
    (fun _ _ => le_rfl) x y

end Sizes

namespace AcStrategyImage

variable {acs : AcStrategyImage}

/-- The body of `TileDistMap` writes one value over its transform and nothing else. -/
theorem regionLocal_tileDistMapBody (pow : F → F → F) (distmap : Plane F) (tileSize : ℕ)
    (margin : ℤ) : acs.RegionLocal (tileDistMapBody pow distmap tileSize margin acs) where
  frame s ax ay x y _ outside := by
    have other : ¬ (x = ax ∧ y = ay) := by
      rintro ⟨rfl, rfl⟩
      exact outside (inRegion_self x y)
    rw [tileDistMapBody, fillRect_row_of_not_inRegion _ _ outside]
    simp [Plane.set, other]
  reads s s' ax ay _ _ x y inRegion := by
    rw [tileDistMapBody, tileDistMapBody, fillRect_row_of_inRegion _ _ inRegion,
      fillRect_row_of_inRegion _ _ inRegion]

end AcStrategyImage

open AcStrategyImage

section Spec

variable {acs : AcStrategyImage} (pow : F → F → F) {distmap : Plane F} {tileSize : ℕ}
  (margin : ℤ) (tiling : acs.Tiling) (tiles : TilesMatch distmap tileSize acs)
include tiling tiles

/-- **Every block receives the score of its own transform.** -/
theorem tileDistMap_row {ax ay x y : ℕ} (first : acs.IsFirst ax ay)
    (inRegion : acs.InRegion ax ay x y) : (tileDistMap pow distmap tileSize margin acs).row y x =
      tileDist pow distmap tileSize margin acs ax ay := by
  rw [tileDistMap, tiles.1, tiles.2, forEachFirstBlock_row tiling
    (regionLocal_tileDistMapBody pow distmap tileSize margin) first inRegion, tileDistMapBody,
    fillRect_row_of_inRegion _ _ inRegion]

/-- The tile map is constant on every transform, for every distance map and margin. -/
theorem regionConstant_tileDistMap :
    acs.RegionConstant (tileDistMap pow distmap tileSize margin acs) :=
  fun _ _ _ _ first inRegion => by
    rw [tileDistMap_row pow margin tiling tiles first inRegion,
      tileDistMap_row pow margin tiling tiles first (inRegion_self _ _)]

end Spec

/-- Every distance map the comparator returns covers the block grid with its 8×8 tiles. -/
def Comparator.DiffmapsMatch (cmp : Comparator F) (acs : AcStrategyImage) : Prop :=
  ∀ i dc field, TilesMatch (cmp.compare i dc field).2 8 acs

theorem Comparator.tilesMatch_roundtrip {cmp : Comparator F} {acs : AcStrategyImage}
    (diffmaps : cmp.DiffmapsMatch acs) (i : ℕ) (dc : F) (field : Plane F) :
    TilesMatch (cmp.roundtrip i dc field).2 8 acs := by
  unfold Comparator.roundtrip
  split
  · exact diffmaps i dc field
  · simpa [TilesMatch, scaleImage] using diffmaps i dc field

/-! ### The scores with `std::pow`

With the real power, a score is the 16-norm mean of its window scaled by 1.2: the window always
holds the transform's first pixel, so its weight sum is positive and the `pixels == 0` fallback
never fires, and the mean of sixteenth powers lies below the sixteenth power of the largest
distance. -/

/-! ### A row of three blocks

The concrete instances here and in the searches run on the row `rowOfThree` of an 8×8 transform
and a transform two blocks wide, the field `(5, 1, 1)`, and a comparator whose distance map is 1
over the first block and `1/2` over the wide transform. -/

/-- The field `(5, 1, 1)`: constant on both transforms. -/
def stepField : Plane F := ⟨3, 1, fun _ x => if x = 0 then 5 else 1⟩

/-- A distance map of 1 over the first block and `1/2` over the wide transform. -/
def stepDiffmap : Plane F := ⟨24, 8, fun _ x => if x < 8 then 1 else 1 / 2⟩

/-- The comparator that always scores 2 with `stepDiffmap`. -/
def stepComparator : Comparator F := ⟨fun _ _ _ => (2, stepDiffmap), true⟩

@[simp] theorem stepField_xsize : (stepField : Plane F).xsize = 3 := rfl

@[simp] theorem stepField_ysize : (stepField : Plane F).ysize = 1 := rfl

@[simp] theorem stepDiffmap_xsize : (stepDiffmap : Plane F).xsize = 24 := rfl

@[simp] theorem stepDiffmap_ysize : (stepDiffmap : Plane F).ysize = 8 := rfl

theorem stepField_pos (x y : ℕ) : (0 : F) < (stepField : Plane F).row y x := by
  show 0 < if x = 0 then (5 : F) else 1
  split <;> norm_num

theorem regionConstant_stepField : rowOfThree.RegionConstant (stepField : Plane F) := by
  intro ax ay x y first inRegion
  simp only [AcStrategyImage.InRegion, rowOfThree] at inRegion
  obtain ⟨rfl, rfl | rfl⟩ := isFirst_rowOfThree.mp first
  · obtain rfl : x = 0 := by simp [AcStrategy.dct] at inRegion; omega
    rfl
  · have wide : x ≠ 0 := by omega
    simp [stepField, wide]

theorem tilesMatch_stepDiffmap : TilesMatch (stepDiffmap : Plane F) 8 rowOfThree := by
  simp [TilesMatch, rowOfThree]

section Real

/-- The sixteenth root of a mean of sixteenth powers of values at most `M` is at most `M`. -/
theorem rpow_mean_le {sum pixels M : ℝ} (pos : 0 < pixels) (nonneg : 0 ≤ sum) (M0 : 0 ≤ M)
    (le : sum ≤ pow16 M * pixels) : Real.rpow (sum / pixels) (1 / 16) ≤ M :=
  calc Real.rpow (sum / pixels) (1 / 16)
      ≤ Real.rpow (M ^ 16) (1 / 16) := Real.rpow_le_rpow (div_nonneg nonneg pos.le)
        ((div_le_iff₀ pos).mpr (pow16_eq_pow M ▸ le)) (by norm_num)
    _ = M := by
      rw [show (1 / 16 : ℝ) = ((16 : ℕ) : ℝ)⁻¹ by norm_num]
      exact Real.pow_rpow_inv_natCast M0 (by norm_num : (16 : ℕ) ≠ 0)

/-- **The score of every block**, whatever the image the loop starts from (the sources do not
initialise it): on a valid tiling of the distance map's 8×8 tiles, each block of a transform
gets `1.2 · (Σ w·v^16 / Σ w)^(1/16)` over the transform's window widened by a non-negative
margin and clipped to the map, with `Σ w > 0`, and that score lies between 0 and 1.2 times the
largest distance of the window. -/
theorem tileDistMap_window_score (distmap : Plane ℝ) (margin : ℤ) (marginNonneg : 0 ≤ margin)
    {acs : AcStrategyImage} (tiling : acs.Tiling) (tiles : TilesMatch distmap 8 acs)
    (init : Plane ℝ) {ax ay x y : ℕ} (first : acs.IsFirst ax ay)
    (inRegion : acs.InRegion ax ay x y) :
    let xBegin : ℤ := max 0 (8 * ax - margin)
    let xEnd : ℤ := min distmap.xsize (8 * ax + ((acs.row ay ax).coveredBlocksX * 8 : ℕ) + margin)
    let yBegin : ℤ := max 0 (8 * ay - margin)
    let yEnd : ℤ := min distmap.ysize (8 * ay + ((acs.row ay ax).coveredBlocksY * 8 : ℕ) + margin)
    let sums := tileSums distmap margin xBegin xEnd yBegin yEnd
    let t := (acs.forEachFirstBlock acs.xsize acs.ysize
      (tileDistMapBody Real.rpow distmap 8 margin acs) init).row y x
    0 < sums.2 ∧ t = 1.2 * Real.rpow (sums.1 / sums.2) (1 / 16) ∧ 0 ≤ t ∧
      ∀ M, (∀ c ∈ Plane.cellsIn xBegin.toNat xEnd.toNat yBegin.toNat yEnd.toNat,
        |distmap.row c.2 c.1| ≤ M) → t ≤ 1.2 * M := by
  intro xBegin xEnd yBegin yEnd sums t
  have inside : 8 * ax < distmap.xsize ∧ 8 * ay < distmap.ysize := by
    have := tiles.1 ▸ first.1
    have := tiles.2 ▸ first.2.1
    omega
  have wide := (acs.row ay ax).coveredBlocksX_pos
  have tall := (acs.row ay ax).coveredBlocksY_pos
  have xs : 0 ≤ xBegin ∧ xBegin ≤ 8 * ax ∧ 8 * ax < xEnd :=
    ⟨le_max_left _ _, max_le (by positivity) (by omega), lt_min (by exact_mod_cast inside.1) (by omega)⟩
  have ys : 0 ≤ yBegin ∧ yBegin ≤ 8 * ay ∧ 8 * ay < yEnd :=
    ⟨le_max_left _ _, max_le (by positivity) (by omega), lt_min (by exact_mod_cast inside.2) (by omega)⟩
  have member : (8 * ax, 8 * ay) ∈ Plane.cellsIn xBegin.toNat xEnd.toNat yBegin.toNat yEnd.toNat := by
    simp only [Plane.mem_cellsIn]
    omega
  have pos : 0 < sums.2 := tileSums_snd_pos distmap margin _ _ _ _ member
  have score : t = 1.2 * Real.rpow (sums.1 / sums.2) (1 / 16) := by
    simp only [t]
    rw [forEachFirstBlock_row tiling (regionLocal_tileDistMapBody _ distmap 8 margin) first inRegion,
      tileDistMapBody, fillRect_row_of_inRegion _ _ inRegion, tileDist]
    exact congrArg (fun pixels => 1.2 * Real.rpow (sums.1 / pixels) (1 / 16)) (if_neg pos.ne')
  have mean := div_nonneg (tileSums_nonneg distmap margin xBegin xEnd yBegin yEnd).1 pos.le
  refine ⟨pos, score, score ▸ mul_nonneg (by norm_num) (Real.rpow_nonneg mean _), fun M bounded => ?_⟩
  rw [score]
  exact mul_le_mul_of_nonneg_left (rpow_mean_le pos (tileSums_nonneg ..).1
    ((abs_nonneg _).trans (bounded _ member)) (tileSums_fst_le _ _ _ _ _ _ bounded)) (by norm_num)

/-- `stepDiffmap` on `rowOfThree` with margin 2: the score of the wide transform's second block
is at most `1.2 · 1`. -/
theorem tileDistMap_window_score_rowOfThree :
    (0 ≤ (2 : ℤ) ∧ rowOfThree.Tiling ∧ TilesMatch (stepDiffmap : Plane ℝ) 8 rowOfThree ∧
        rowOfThree.IsFirst 1 0 ∧ rowOfThree.InRegion 1 0 2 0) ∧
      (rowOfThree.forEachFirstBlock rowOfThree.xsize rowOfThree.ysize
        (tileDistMapBody Real.rpow stepDiffmap 8 2 rowOfThree) (Plane.filled 3 1 0)).row 0 2 ≤
        1.2 * 1 :=
  have first : rowOfThree.IsFirst 1 0 := isFirst_rowOfThree.mpr ⟨rfl, .inr rfl⟩
  have inRegion : rowOfThree.InRegion 1 0 2 0 := by decide
  ⟨⟨by norm_num, tiling_rowOfThree, tilesMatch_stepDiffmap, first, inRegion⟩,
    (tileDistMap_window_score _ 2 (by norm_num) tiling_rowOfThree tilesMatch_stepDiffmap _ first
      inRegion).2.2.2 1
      fun c _ => by dsimp only [stepDiffmap]; split_ifs <;> rw [abs_le] <;> constructor <;> norm_num⟩

/-- On a one-pixel distance map with a margin, the pixel is a corner of its window and weighs
0.7: the score divides by that weight and is `1.2 · |v|`, where dividing by `max(Σ w, 1) = 1`
would give less. -/
theorem tileDistMap_single_pixel :
    (tileDistMap Real.rpow (Plane.filled 1 1 1) 8 1 (Plane.filled 1 1 AcStrategy.dct)).row 0 0 =
        1.2 ∧
      1.2 * Real.rpow ((tileSums (Plane.filled 1 1 (1 : ℝ)) 1 0 1 0 1).1 /
        max (tileSums (Plane.filled 1 1 (1 : ℝ)) 1 0 1 0 1).2 1) (1 / 16) < 1.2 := by
  have sums : tileSums (Plane.filled 1 1 (1 : ℝ)) 1 0 1 0 1 = (0.7, 0.7) := by
    rw [tileSums_eq_sum, show Plane.cellsIn (0 : ℤ).toNat (1 : ℤ).toNat (0 : ℤ).toNat
      (1 : ℤ).toNat = [(0, 0)] from rfl]
    norm_num [tileWeight, pow16]
  refine ⟨?_, ?_⟩
  · rw [tileDistMap_row Real.rpow 1 (tiling_filled_dct 1 1)
      (⟨rfl, rfl⟩ : TilesMatch (Plane.filled 1 1 (1 : ℝ)) 8 (Plane.filled 1 1 AcStrategy.dct))
      ⟨Nat.one_pos, Nat.one_pos, rfl⟩ (inRegion_self 0 0)]
    norm_num [tileDist, AcStrategy.dct, sums]
  · rw [sums, max_eq_right (by norm_num : (0.7 : ℝ) ≤ 1), div_one]
    exact mul_lt_of_lt_one_right (by norm_num) (Real.rpow_lt_one (by norm_num) (by norm_num) (by norm_num))

theorem tileDist_stepDiffmap_dct : tileDist Real.rpow stepDiffmap 8 0 rowOfThree 0 0 = 1.2 := by
  have sums : tileSums (stepDiffmap : Plane ℝ) 0 0 8 0 8 = (64 * pow16 1, 64) := by
    rw [tileSums_of_const stepDiffmap 0 8 0 8 1 fun x y mem => by
      simp only [Plane.mem_cellsIn] at mem; simp [stepDiffmap]; omega]
    simp [Plane.length_cellsIn]
  simp [tileDist, rowOfThree, AcStrategy.dct, sums, pow16]

theorem tileDist_stepDiffmap_wide : tileDist Real.rpow stepDiffmap 8 0 rowOfThree 1 0 = 0.6 := by
  have sums : tileSums (stepDiffmap : Plane ℝ) 0 8 24 0 8 = (128 * pow16 (1 / 2), 128) := by
    rw [tileSums_of_const stepDiffmap 8 24 0 8 (1 / 2) fun x y mem => by
      simp only [Plane.mem_cellsIn] at mem; simp [stepDiffmap]; omega]
    simp [Plane.length_cellsIn]
  have sixteenth : ((1 / 2 : ℝ) ^ 16) ^ (16⁻¹ : ℝ) = 1 / 2 :=
    Real.pow_rpow_inv_natCast (by norm_num) (by norm_num)
  simp [tileDist, rowOfThree, AcStrategy.wide, sums]
  rw [show pow16 (2⁻¹ : ℝ) = (1 / 2) ^ 16 by norm_num [pow16], sixteenth]
  norm_num

/-- The tile map of `stepDiffmap`: 1.2 on the first block, 0.6 on the wide transform. -/
theorem tileDistMap_stepDiffmap :
    (tileDistMap Real.rpow stepDiffmap 8 0 rowOfThree).xsize = 3 ∧
      (tileDistMap Real.rpow stepDiffmap 8 0 rowOfThree).ysize = 1 ∧
      (tileDistMap Real.rpow stepDiffmap 8 0 rowOfThree).row 0 0 = 1.2 ∧
      (tileDistMap Real.rpow stepDiffmap 8 0 rowOfThree).row 0 1 = 0.6 ∧
      (tileDistMap Real.rpow stepDiffmap 8 0 rowOfThree).row 0 2 = 0.6 := by
  have dct : rowOfThree.IsFirst 0 0 := isFirst_rowOfThree.mpr ⟨rfl, .inl rfl⟩
  have wide : rowOfThree.IsFirst 1 0 := isFirst_rowOfThree.mpr ⟨rfl, .inr rfl⟩
  refine ⟨by simp, by simp, ?_, ?_, ?_⟩
  · rw [tileDistMap_row Real.rpow 0 tiling_rowOfThree tilesMatch_stepDiffmap dct
      (AcStrategyImage.inRegion_self 0 0), tileDist_stepDiffmap_dct]
  · rw [tileDistMap_row Real.rpow 0 tiling_rowOfThree tilesMatch_stepDiffmap wide
      (AcStrategyImage.inRegion_self 1 0), tileDist_stepDiffmap_wide]
  · rw [tileDistMap_row Real.rpow 0 tiling_rowOfThree tilesMatch_stepDiffmap wide
      (by simp [AcStrategyImage.InRegion, rowOfThree, AcStrategy.wide]), tileDist_stepDiffmap_wide]

end Real

end JxlEncoder
