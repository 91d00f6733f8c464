import JxlEncoder.Image.AcStrategy
import JxlEncoder.AdaptiveQuantization.Search

/-! # Counting the non-zero coefficients of a block

`NumNonZeroExceptLLF` counts the coefficients of a transform whose truncation to `int32` is not
zero, leaving out the `cx × cy` lowest-frequency coefficients (LLF) in the top-left corner of its
`8cy × 8cx` layout; `NumNonZero8x8ExceptDC` does the same for an 8×8 block, whose only LLF
coefficient is the DC. Both walk the rows with vectors of `Lanes(df)` lanes, add `-1` for every
lane that truncates to zero (the LLF lanes masked to zero by `llf_mask_lanes` or `dc_mask_lanes`),
and subtract the total from the block's size. The lane sums are added at the end; the model adds
each lane's term to one total, which is the same sum.

Whatever the lane width that divides 8, the result is the number of non-LLF coefficients that
truncate to a non-zero value (`numNonZeroExceptLLF_eq_countP`, `numNonZero8x8ExceptDC_eq_countP`).
-/

namespace JxlEncoder

/-- `AcStrategy::kMaxCoeffBlocks`. -/
def kMaxCoeffBlocks : ℕ := 4

section Lanes

/-- `for (x = 0; x < width; x += Lanes(df))`: the first column of every vector of a row. -/
def vectorChunks (width lanes : ℕ) : List ℕ := List.range' 0 ((width + lanes - 1) / lanes) lanes

/-- A loop that adds a term per element adds their sum. -/
theorem foldl_add_eq_sum {α : Type} (f : α → ℤ) (l : List α) (init : ℤ) :
    l.foldl (fun acc a => acc + f a) init = init + (l.map f).sum := by
  induction l generalizing init with
  | nil => simp
  | cons a l ih => rw [List.foldl_cons, ih, List.map_cons, List.sum_cons, add_assoc]

theorem foldl_flatMap {α β σ : Type} (g : α → List β) (f : σ → β → σ) (l : List α) (init : σ) :
    (l.flatMap g).foldl f init = l.foldl (fun acc a => (g a).foldl f acc) init := by
  induction l generalizing init with
  | nil => rfl
  | cons a l ih => rw [List.flatMap_cons, List.foldl_append, ih, List.foldl_cons]

/-- The cells `0, …, q·L - 1` are `q` runs of `L`. -/
theorem range_mul (q L : ℕ) :
    List.range (q * L) = (List.range q).flatMap fun y => (List.range L).map (y * L + ·) := by
  induction q with
  | zero => simp
  | succ q ih => rw [Nat.succ_mul, List.range_add, ih, List.range_succ, List.flatMap_append,
      List.flatMap_singleton]

theorem range'_eq_map_mul (L : ℕ) : ∀ q s, List.range' s q L = (List.range q).map (s + · * L)
  | 0, _ => rfl
  | q + 1, s => by
    rw [List.range'_succ, range'_eq_map_mul L q, List.range_succ_eq_map, List.map_cons,
      List.map_map]
    congr 1
    · simp
    · refine List.map_congr_left fun i _ => ?_
      simp only [Function.comp_apply, Nat.succ_mul]
      omega

theorem vectorChunks_mul {lanes : ℕ} (lanesPos : 0 < lanes) (q : ℕ) :
    vectorChunks (q * lanes) lanes = (List.range q).map (· * lanes) := by
  have count : (q * lanes + lanes - 1) / lanes = q := by
    rw [Nat.add_sub_assoc lanesPos, Nat.mul_comm, Nat.mul_add_div lanesPos,
      Nat.div_eq_of_lt (Nat.sub_lt lanesPos Nat.one_pos), Nat.add_zero]
  rw [vectorChunks, count, range'_eq_map_mul]
  simp

/-- **The vector loop over a row is the scalar loop**: with a lane width that divides the row,
the vectors visit every column once, in order. -/
theorem foldl_vectorChunks {σ : Type} {width lanes : ℕ} (lanesPos : 0 < lanes) (dvd : lanes ∣ width)
    (f : σ → ℕ → σ) (init : σ) :
    (vectorChunks width lanes).foldl
        (fun acc x => (List.range lanes).foldl (fun acc i => f acc (x + i)) acc) init =
      (List.range width).foldl f init := by
  obtain ⟨q, rfl⟩ := dvd
  rw [Nat.mul_comm, vectorChunks_mul lanesPos, range_mul, foldl_flatMap, List.foldl_map]
  simp only [List.foldl_map]

/-- Every vector of a row whose width the lane count divides lies inside the row. -/
theorem add_le_of_mem_vectorChunks {width lanes x : ℕ} (lanesPos : 0 < lanes)
    (dvd : lanes ∣ width) (member : x ∈ vectorChunks width lanes) : x + lanes ≤ width := by
  obtain ⟨q, rfl⟩ := dvd
  rw [Nat.mul_comm, vectorChunks_mul lanesPos] at member
  obtain ⟨j, below, rfl⟩ := List.mem_map.mp member
  calc j * lanes + lanes = (j + 1) * lanes := (Nat.succ_mul j lanes).symm
    _ ≤ q * lanes := Nat.mul_le_mul_right _ (List.mem_range.mp below)
    _ = lanes * q := Nat.mul_comm _ _

end Lanes

/-- One row of the vector loop: for every vector, the terms of its lanes added to the total. -/
def addRowLanes (width lanes : ℕ) (lane : ℕ → ℤ) (acc : ℤ) : ℤ :=
  (vectorChunks width lanes).foldl
    (fun acc x => (List.range lanes).foldl (fun acc i => acc + lane (x + i)) acc) acc

theorem addRowLanes_eq {width lanes : ℕ} (lanesPos : 0 < lanes) (dvd : lanes ∣ width)
    (lane : ℕ → ℤ) (acc : ℤ) :
    addRowLanes width lanes lane acc = acc + ((List.range width).map lane).sum := by
  rw [addRowLanes, foldl_vectorChunks lanesPos dvd (fun acc p => acc + lane p), foldl_add_eq_sum]

section Count

variable {F : Type} [LinearOrderedField F] [FloorRing F]

/-- `VecFromMask(ConvertTo(di, coef) == zero)` in one lane: `-1` if the coefficient truncates to
zero. -/
def isZeroLane (coef : F) : ℤ := if castToInt coef = 0 then -1 else 0

/-- `llf_mask_lanes`: `kMaxCoeffBlocks · (1 + kBlockDim)` entries, the first four `-1`. -/
def llfMaskLanes : List ℤ := [-1, -1, -1, -1] ++ List.replicate 32 0

/-- `dc_mask_lanes`: `kBlockDim` entries, the first `-1`. -/
def dcMaskLanes : List ℤ := [-1] ++ List.replicate 7 0

/-- **`NumNonZeroExceptLLF`** with vectors of `lanes` lanes over the `8cy` rows of `8cx`
coefficients: the rows below `cy` are masked by `llf_mask_lanes` from `kMaxCoeffBlocks - cx`,
which blanks their first `cx` coefficients. Returns the count and `nzeros_pos` with
`(nzeros + covered_blocks - 1) >> log2_covered_blocks` written over the transform's blocks. -/
def numNonZeroExceptLLF (lanes cx cy : ℕ) (acs : AcStrategy) (coveredBlocks log2CoveredBlocks : ℕ)
    (block : ℕ → F) (nzerosPos : Plane ℤ) (x0 y0 : ℕ) : ℤ × Plane ℤ :=
  let width := cx * kBlockDim
  let llfRows := (List.range cy).foldl (fun acc y =>
    addRowLanes width lanes (fun x =>
      let llfMask := llfMaskLanes.getD (kMaxCoeffBlocks - cx + x) 0
      isZeroLane (if llfMask ≠ 0 then 0 else block (y * width + x))) acc) 0
  let negSumZero := (List.range' cy (cy * kBlockDim - cy)).foldl (fun acc y =>
    addRowLanes width lanes (fun x => isZeroLane (block (y * width + x))) acc) llfRows
  let nzeros : ℤ := (cx * cy * kDCTBlockSize : ℕ) + negSumZero
  let shiftedNzeros : ℤ := ((nzeros.toNat + coveredBlocks - 1) / 2 ^ log2CoveredBlocks : ℕ)
  (nzeros, nzerosPos.fillRect x0 y0 acs.coveredBlocksX acs.coveredBlocksY shiftedNzeros)

/-- **`NumNonZero8x8ExceptDC`**: the first row masked by `dc_mask_lanes`, which blanks the DC;
returns the count and `nzeros_pos` with the count written at the block. -/
def numNonZero8x8ExceptDC (lanes : ℕ) (block : ℕ → F) (nzerosPos : Plane ℤ) (x0 y0 : ℕ) :
    ℤ × Plane ℤ :=
  let firstRow := addRowLanes kBlockDim lanes (fun x =>
    let dcMask := dcMaskLanes.getD x 0
    isZeroLane (if dcMask ≠ 0 then 0 else block (0 * kBlockDim + x))) 0
  let negSumZero := (List.range' 1 (kBlockDim - 1)).foldl (fun acc y =>
    addRowLanes kBlockDim lanes (fun x => isZeroLane (block (y * kBlockDim + x))) acc) firstRow
  let nzeros : ℤ := (kDCTBlockSize : ℤ) + negSumZero
  (nzeros, nzerosPos.set x0 y0 nzeros)

/-- What `NumNonZeroExceptLLF` writes is a function of the count it returns. -/
theorem numNonZeroExceptLLF_snd (lanes cx cy : ℕ) (acs : AcStrategy)
    (coveredBlocks log2CoveredBlocks : ℕ) (block : ℕ → F) (nzerosPos : Plane ℤ) (x0 y0 : ℕ) :
    (numNonZeroExceptLLF lanes cx cy acs coveredBlocks log2CoveredBlocks block nzerosPos x0 y0).2 =
      nzerosPos.fillRect x0 y0 acs.coveredBlocksX acs.coveredBlocksY
        (((numNonZeroExceptLLF lanes cx cy acs coveredBlocks log2CoveredBlocks block nzerosPos x0
          y0).1.toNat + coveredBlocks - 1) / 2 ^ log2CoveredBlocks : ℕ) :=
  rfl

/-- What `NumNonZero8x8ExceptDC` writes is the count it returns. -/
theorem numNonZero8x8ExceptDC_snd (lanes : ℕ) (block : ℕ → F) (nzerosPos : Plane ℤ) (x0 y0 : ℕ) :
    (numNonZero8x8ExceptDC lanes block nzerosPos x0 y0).2 =
      nzerosPos.set x0 y0 (numNonZero8x8ExceptDC lanes block nzerosPos x0 y0).1 :=
  rfl

/-- Position `p` of the `8cy × 8cx` layout is in the LLF corner: row below `cy`, column below
`cx`. -/
def IsLLF (cx cy p : ℕ) : Prop := p / (cx * kBlockDim) < cy ∧ p % (cx * kBlockDim) < cx

instance (cx cy p : ℕ) : Decidable (IsLLF cx cy p) := inferInstanceAs (Decidable (_ ∧ _))

/-- The number of coefficients outside the LLF corner whose truncation is not zero. -/
def nonZeroCount (cx cy : ℕ) (block : ℕ → F) : ℕ :=
  (List.range (cx * cy * kDCTBlockSize)).countP fun p =>
    !decide (IsLLF cx cy p) && decide (castToInt (block p) ≠ 0)

theorem llfMaskLanes_getD (j : ℕ) : llfMaskLanes.getD j 0 = if j < kMaxCoeffBlocks then -1 else 0 := by
  rcases lt_or_le j 4 with small | large
  · interval_cases j <;> rfl
  · rw [llfMaskLanes, List.getD_append_right _ _ _ _ (by simpa using large),
      List.getD_eq_getElem?_getD, List.getElem?_replicate]
    simp only [kMaxCoeffBlocks, show ¬ j < 4 by omega, if_false]
    split <;> rfl

theorem dcMaskLanes_getD (j : ℕ) : dcMaskLanes.getD j 0 = if j = 0 then -1 else 0 := by
  rcases Nat.eq_zero_or_pos j with rfl | positive
  · rfl
  · rw [dcMaskLanes, List.getD_append_right _ _ _ _ (by simpa using positive),
      List.getD_eq_getElem?_getD, List.getElem?_replicate]
    simp only [positive.ne', if_false]
    split <;> rfl

theorem sum_map_ite_neg_one {α : Type} (q : α → Bool) (l : List α) :
    (l.map fun a => if q a then (-1 : ℤ) else 0).sum = -(l.countP q : ℤ) := by
  induction l with
  | nil => simp
  | cons a l ih =>
    rw [List.map_cons, List.sum_cons, ih, List.countP_cons]
    cases q a <;> simp

theorem sum_flatMap {α : Type} (g : α → List ℤ) (l : List α) :
    (l.flatMap g).sum = (l.map fun a => (g a).sum).sum := by
  induction l with
  | nil => rfl
  | cons a l ih => rw [List.flatMap_cons, List.sum_append, ih, List.map_cons, List.sum_cons]

/-- Position `y · width + x` with `x < width` is row `y`, column `x`. -/
theorem div_mod_row {width y x : ℕ} (left : x < width) :
    (y * width + x) / width = y ∧ (y * width + x) % width = x := by
  have positive : 0 < width := by omega
  rw [Nat.add_comm, Nat.add_mul_div_right _ _ positive, Nat.div_eq_of_lt left, Nat.zero_add,
    Nat.add_mul_mod_self_right, Nat.mod_eq_of_lt left]
  exact ⟨rfl, rfl⟩

/-- The lane term the count adds at position `p`: `-1` for an LLF coefficient or one that
truncates to zero. -/
def zeroLane (cx cy : ℕ) (block : ℕ → F) (p : ℕ) : ℤ :=
  if decide (IsLLF cx cy p) || decide (castToInt (block p) = 0) then -1 else 0

theorem castToInt_zero : castToInt (0 : F) = 0 := by
  simp [castToInt]

/-- A lane of a masked row: the mask blanks exactly the LLF columns. -/
theorem isZeroLane_llfRow {cx cy y x : ℕ} (block : ℕ → F) (cxLe : cx ≤ kMaxCoeffBlocks)
    (above : y < cy) (left : x < cx * kBlockDim) :
    isZeroLane (if llfMaskLanes.getD (kMaxCoeffBlocks - cx + x) 0 ≠ 0 then 0
      else block (y * (cx * kBlockDim) + x)) = zeroLane cx cy block (y * (cx * kBlockDim) + x) := by
  obtain ⟨row, column⟩ := div_mod_row (y := y) left
  rw [llfMaskLanes_getD]
  by_cases corner : x < cx
  · simp [zeroLane, IsLLF, row, column, corner, above,
      show kMaxCoeffBlocks - cx + x < kMaxCoeffBlocks by omega, isZeroLane, castToInt_zero]
  · simp [zeroLane, IsLLF, row, column, corner,
      show ¬ kMaxCoeffBlocks - cx + x < kMaxCoeffBlocks by omega, isZeroLane]

/-- A lane of an unmasked row below the corner. -/
theorem isZeroLane_row {cx cy y x : ℕ} (block : ℕ → F) (below : cy ≤ y)
    (left : x < cx * kBlockDim) :
    isZeroLane (block (y * (cx * kBlockDim) + x)) = zeroLane cx cy block (y * (cx * kBlockDim) + x) := by
  obtain ⟨row, _⟩ := div_mod_row (y := y) left
  simp [zeroLane, IsLLF, row, not_lt.mpr below, isZeroLane]

/-- The lane terms over the whole layout count the LLF and zero coefficients. -/
theorem sum_zeroLane (cx cy : ℕ) (block : ℕ → F) :
    ((List.range (cx * cy * kDCTBlockSize)).map (zeroLane cx cy block)).sum =
      (nonZeroCount cx cy block : ℤ) - (cx * cy * kDCTBlockSize : ℕ) := by
  have split := List.length_eq_countP_add_countP (fun p =>
    decide (IsLLF cx cy p) || decide (castToInt (block p) = 0)) (List.range (cx * cy * kDCTBlockSize))
  rw [List.length_range] at split
  rw [show zeroLane cx cy block = fun p => if (decide (IsLLF cx cy p) ||
      decide (castToInt (block p) = 0)) then (-1 : ℤ) else 0 from rfl, sum_map_ite_neg_one,
    nonZeroCount]
  have same : (List.range (cx * cy * kDCTBlockSize)).countP (fun p =>
      !decide (IsLLF cx cy p) && decide (castToInt (block p) ≠ 0)) =
      (List.range (cx * cy * kDCTBlockSize)).countP (fun p =>
        ¬ (decide (IsLLF cx cy p) || decide (castToInt (block p) = 0))) := by
    congr
    funext p
    cases decide (IsLLF cx cy p) <;> simp
  rw [same]
  omega

variable {lanes cx cy : ℕ}

/-- **`NumNonZeroExceptLLF` counts the non-LLF coefficients that do not truncate to zero**, for
every lane width that divides 8 and every `cx ≤ kMaxCoeffBlocks`. -/
theorem numNonZeroExceptLLF_eq_countP (lanesPos : 0 < lanes) (dvd : lanes ∣ kBlockDim)
    (cxLe : cx ≤ kMaxCoeffBlocks) (acs : AcStrategy) (coveredBlocks log2CoveredBlocks : ℕ)
    (block : ℕ → F) (nzerosPos : Plane ℤ) (x0 y0 : ℕ) :
    (numNonZeroExceptLLF lanes cx cy acs coveredBlocks log2CoveredBlocks block nzerosPos x0 y0).1 =
      nonZeroCount cx cy block := by
  have rowDvd : lanes ∣ cx * kBlockDim := Dvd.dvd.mul_left dvd cx
  have rows : List.range (cy * kBlockDim) = List.range cy ++ List.range' cy (cy * kBlockDim - cy) := by
    rw [List.range'_eq_map_range, ← List.range_add, Nat.add_sub_cancel' (Nat.le_mul_of_pos_right cy
      (by decide))]
  have layout : ((List.range (cx * cy * kDCTBlockSize)).map (zeroLane cx cy block)).sum =
      ((List.range (cy * kBlockDim)).map fun y =>
        ((List.range (cx * kBlockDim)).map fun x => zeroLane cx cy block (y * (cx * kBlockDim) + x)).sum).sum := by
    rw [show cx * cy * kDCTBlockSize = cy * kBlockDim * (cx * kBlockDim) by
      simp only [kDCTBlockSize, kBlockDim]; ring, range_mul, List.map_flatMap, sum_flatMap]
    simp only [List.map_map, Function.comp_def]
  have total := sum_zeroLane cx cy block
  have llfRows : ((List.range cy).map fun y => ((List.range (cx * kBlockDim)).map fun x =>
      isZeroLane (if llfMaskLanes.getD (kMaxCoeffBlocks - cx + x) 0 ≠ 0 then 0
        else block (y * (cx * kBlockDim) + x))).sum) =
      (List.range cy).map fun y => ((List.range (cx * kBlockDim)).map fun x =>
        zeroLane cx cy block (y * (cx * kBlockDim) + x)).sum :=
    List.map_congr_left fun y member => congrArg List.sum (List.map_congr_left fun x left =>
      isZeroLane_llfRow block cxLe (List.mem_range.mp member) (List.mem_range.mp left))
  have otherRows : ((List.range' cy (cy * kBlockDim - cy)).map fun y =>
      ((List.range (cx * kBlockDim)).map fun x => isZeroLane (block (y * (cx * kBlockDim) + x))).sum) =
      (List.range' cy (cy * kBlockDim - cy)).map fun y => ((List.range (cx * kBlockDim)).map fun x =>
        zeroLane cx cy block (y * (cx * kBlockDim) + x)).sum :=
    List.map_congr_left fun y member => congrArg List.sum (List.map_congr_left fun x left =>
      isZeroLane_row block (List.mem_range'_1.mp member).1 (List.mem_range.mp left))
  simp only [numNonZeroExceptLLF, addRowLanes_eq lanesPos rowDvd, foldl_add_eq_sum, llfRows,
    otherRows]
  rw [rows, List.map_append, List.sum_append] at layout
  omega

/-- **`NumNonZero8x8ExceptDC` counts the non-DC coefficients of an 8×8 block that do not
truncate to zero**, for every lane width that divides 8: the count of `NumNonZeroExceptLLF` with
`cx = cy = 1`. -/
theorem numNonZero8x8ExceptDC_eq_countP (lanesPos : 0 < lanes) (dvd : lanes ∣ kBlockDim)
    (block : ℕ → F) (nzerosPos : Plane ℤ) (x0 y0 : ℕ) :
    (numNonZero8x8ExceptDC lanes block nzerosPos x0 y0).1 = nonZeroCount 1 1 block := by
  have layout : ((List.range (1 * 1 * kDCTBlockSize)).map (zeroLane 1 1 block)).sum =
      (([0] ++ List.range' 1 (kBlockDim - 1)).map fun y =>
        ((List.range kBlockDim).map fun x => zeroLane 1 1 block (y * kBlockDim + x)).sum).sum := by
    rw [show 1 * 1 * kDCTBlockSize = kBlockDim * kBlockDim from rfl, range_mul, List.map_flatMap,
      sum_flatMap]
    simp only [List.map_map, Function.comp_def]
    rfl
  have total := sum_zeroLane 1 1 block
  have firstRow : ((List.range kBlockDim).map fun x => isZeroLane
      (if dcMaskLanes.getD x 0 ≠ 0 then 0 else block (0 * kBlockDim + x))) =
      (List.range kBlockDim).map fun x => zeroLane 1 1 block (0 * kBlockDim + x) :=
    List.map_congr_left fun x left => by
      have small : x < 8 := List.mem_range.mp left
      rw [dcMaskLanes_getD]
      by_cases dc : x = 0
      · simp [dc, zeroLane, IsLLF, isZeroLane, castToInt_zero, kBlockDim]
      · simp [dc, zeroLane, IsLLF, isZeroLane, kBlockDim, Nat.div_eq_of_lt small,
          Nat.mod_eq_of_lt small, Nat.pos_of_ne_zero dc]
  have otherRows : ((List.range' 1 (kBlockDim - 1)).map fun y =>
      ((List.range kBlockDim).map fun x => isZeroLane (block (y * kBlockDim + x))).sum) =
      (List.range' 1 (kBlockDim - 1)).map fun y => ((List.range kBlockDim).map fun x =>
        zeroLane 1 1 block (y * kBlockDim + x)).sum :=
    List.map_congr_left fun y member => congrArg List.sum (List.map_congr_left fun x left => by
      have lane := @isZeroLane_row _ _ _ 1 _ _ _ block (List.mem_range'_1.mp member).1 (List.mem_range.mp left)
      simpa using lane)
  simp only [numNonZero8x8ExceptDC, addRowLanes_eq lanesPos dvd, foldl_add_eq_sum, firstRow,
    otherRows]
  simp only [List.singleton_append, List.map_cons, List.sum_cons] at layout
  omega

/-- **The 8×8 path is the general path at `cx = cy = 1`**: for every lane width that divides 8,
every block, counts plane and strategy of a single block, `NumNonZero8x8ExceptDC` returns the count
and the counts plane that `NumNonZeroExceptLLF` returns with `covered_blocks = 1` and
`log2_covered_blocks = 0`. -/
theorem numNonZero8x8ExceptDC_eq_numNonZeroExceptLLF (lanesPos : 0 < lanes)
    (dvd : lanes ∣ kBlockDim) {acs : AcStrategy}
    (single : acs.coveredBlocksX = 1 ∧ acs.coveredBlocksY = 1) (block : ℕ → F)
    (nzerosPos : Plane ℤ) (x0 y0 : ℕ) :
    numNonZero8x8ExceptDC lanes block nzerosPos x0 y0 =
      numNonZeroExceptLLF lanes 1 1 acs 1 0 block nzerosPos x0 y0 := by
  have fast := numNonZero8x8ExceptDC_eq_countP lanesPos dvd block nzerosPos x0 y0
  have general : (numNonZeroExceptLLF lanes 1 1 acs 1 0 block nzerosPos x0 y0).1 =
      nonZeroCount 1 1 block :=
    numNonZeroExceptLLF_eq_countP lanesPos dvd (by decide) acs 1 0 block nzerosPos x0 y0
  refine Prod.ext (fast.trans general.symm) ?_
  rw [numNonZero8x8ExceptDC_snd, numNonZeroExceptLLF_snd, single.1, single.2,
    Plane.fillRect_one_one, fast, general]
  simp

/-- One 8×8 block with a single AC coefficient of 3/2, four lanes. -/
theorem numNonZero8x8ExceptDC_eq_numNonZeroExceptLLF_dct :
    (0 < 4 ∧ 4 ∣ kBlockDim ∧ AcStrategy.dct.coveredBlocksX = 1 ∧
      AcStrategy.dct.coveredBlocksY = 1) ∧
    numNonZero8x8ExceptDC 4 (fun p : ℕ => if p = 9 then (3 / 2 : ℚ) else 0) (Plane.filled 1 1 0) 0
        0 =
      numNonZeroExceptLLF 4 1 1 AcStrategy.dct 1 0 (fun p : ℕ => if p = 9 then (3 / 2 : ℚ) else 0)
        (Plane.filled 1 1 0) 0 0 :=
  ⟨⟨by decide, by decide, rfl, rfl⟩,
    numNonZero8x8ExceptDC_eq_numNonZeroExceptLLF (by decide) (by decide) ⟨rfl, rfl⟩ _ _ 0 0⟩

/-! ### At the call site

`TokenizeCoefficients` calls `NumNonZeroExceptLLF` with the canonical `cx, cy ∈ {1, 2, 4}`,
`covered_blocks = cx · cy` and its base-2 logarithm, and `NumNonZero8x8ExceptDC` for the 8×8
transforms. -/

/-- `(n + k - 1) / k` is `⌈n / k⌉`. -/
theorem ceil_div_eq_add_sub_one_div (n : ℕ) {k : ℕ} (pos : 0 < k) :
    ⌈(n : ℚ) / k⌉₊ = (n + k - 1) / k := by
  have kPos : (0 : ℚ) < k := by exact_mod_cast pos
  have above : n + k - 1 < (n + k - 1) / k * k + k := Nat.lt_div_mul_add pos
  have below := Nat.div_mul_le_self (n + k - 1) k
  generalize (n + k - 1) / k = q at above below ⊢
  refine le_antisymm ?_ ?_
  · rw [Nat.ceil_le, div_le_iff₀ kPos]
    exact_mod_cast (by omega : n ≤ q * k)
  · rcases Nat.eq_zero_or_pos q with rfl | positive
    · exact Nat.zero_le _
    · have lower : q - 1 < ⌈(n : ℚ) / k⌉₊ := by
        rw [Nat.lt_ceil, lt_div_iff₀ kPos]
        have step : (q - 1) * k = q * k - k := Nat.sub_one_mul _ _
        have least : k ≤ q * k := Nat.le_mul_of_pos_left k positive
        exact_mod_cast (by omega : (q - 1) * k < n)
      omega

/-- The vectors of a masked row load `llf_mask_lanes` only inside the array: the last lane of a
row of `8cx` coefficients reads entry `kMaxCoeffBlocks - cx + 8cx - 1 ≤ 31`. -/
theorem llfMask_index_lt (lanesPos : 0 < lanes) (dvd : lanes ∣ kBlockDim)
    (cxLe : cx ≤ kMaxCoeffBlocks) {x i : ℕ} (member : x ∈ vectorChunks (cx * kBlockDim) lanes)
    (lane : i < lanes) : kMaxCoeffBlocks - cx + (x + i) < llfMaskLanes.length := by
  have inside := add_le_of_mem_vectorChunks lanesPos (Dvd.dvd.mul_left dvd cx) member
  have length : llfMaskLanes.length = 36 := rfl
  unfold kMaxCoeffBlocks kBlockDim at *
  omega

/-- **`NumNonZeroExceptLLF` at the call site's arguments**, for every lane width that divides 8
and every block: it returns the number `n` of non-LLF coefficients that do not truncate to zero,
writes `⌈n / (cx·cy)⌉` over the transform's `covered_blocks_x × covered_blocks_y` cells, loads
`llf_mask_lanes` only inside the array, and on an 8×8 transform `NumNonZero8x8ExceptDC` returns
and writes the same. -/
theorem numNonZeroExceptLLF_spec (lanesPos : 0 < lanes) (dvd : lanes ∣ kBlockDim)
    (cxs : cx = 1 ∨ cx = 2 ∨ cx = 4) (cys : cy = 1 ∨ cy = 2 ∨ cy = 4) {log2 : ℕ}
    (isLog : 2 ^ log2 = cx * cy) (acs : AcStrategy) (block : ℕ → F) (nzerosPos : Plane ℤ)
    (x0 y0 : ℕ) :
    numNonZeroExceptLLF lanes cx cy acs (cx * cy) log2 block nzerosPos x0 y0 =
        ((nonZeroCount cx cy block : ℤ), nzerosPos.fillRect x0 y0 acs.coveredBlocksX acs.coveredBlocksY
          ⌈(nonZeroCount cx cy block : ℚ) / (cx * cy : ℕ)⌉₊) ∧
      (∀ x ∈ vectorChunks (cx * kBlockDim) lanes, ∀ i < lanes,
        kMaxCoeffBlocks - cx + (x + i) < llfMaskLanes.length) ∧
      (cx = 1 → cy = 1 → acs.coveredBlocksX = 1 → acs.coveredBlocksY = 1 →
        numNonZero8x8ExceptDC lanes block nzerosPos x0 y0 =
          numNonZeroExceptLLF lanes cx cy acs (cx * cy) log2 block nzerosPos x0 y0) := by
  have cxLe : cx ≤ kMaxCoeffBlocks := by
    unfold kMaxCoeffBlocks
    omega
  have count : (numNonZeroExceptLLF lanes cx cy acs (cx * cy) log2 block nzerosPos x0 y0).1 =
      nonZeroCount cx cy block :=
    numNonZeroExceptLLF_eq_countP lanesPos dvd cxLe acs (cx * cy) log2 block nzerosPos x0 y0
  have general : numNonZeroExceptLLF lanes cx cy acs (cx * cy) log2 block nzerosPos x0 y0 =
      ((nonZeroCount cx cy block : ℤ), nzerosPos.fillRect x0 y0 acs.coveredBlocksX acs.coveredBlocksY
        ⌈(nonZeroCount cx cy block : ℚ) / (cx * cy : ℕ)⌉₊) := by
    refine Prod.ext count ?_
    rw [numNonZeroExceptLLF_snd, count, Int.toNat_natCast, isLog,
      ceil_div_eq_add_sub_one_div _ (Nat.mul_pos (by omega) (by omega))]
  refine ⟨general, fun x member i lane => llfMask_index_lt lanesPos dvd cxLe member lane,
    fun single single' wide tall => ?_⟩
  subst single single'
  rw [general]
  refine Prod.ext (numNonZero8x8ExceptDC_eq_countP lanesPos dvd block nzerosPos x0 y0) ?_
  rw [numNonZero8x8ExceptDC_snd, numNonZero8x8ExceptDC_eq_countP lanesPos dvd, wide, tall,
    Plane.fillRect_one_one]
  simp

theorem numNonZeroExceptLLF_spec_wide :
    0 < 4 ∧ 4 ∣ kBlockDim ∧ (2 = 1 ∨ 2 = 2 ∨ 2 = 4) ∧ (1 = 1 ∨ 1 = 2 ∨ 1 = 4) ∧ 2 ^ 1 = 2 * 1 ∧
      (numNonZeroExceptLLF 4 2 1 AcStrategy.dct (2 * 1) 1 (fun _ => (1 : ℚ)) (Plane.filled 1 1 0)
        0 0).1 = nonZeroCount 2 1 (fun _ => (1 : ℚ)) :=
  ⟨by decide, by decide, by decide, by decide, rfl,
    congrArg Prod.fst (numNonZeroExceptLLF_spec (by decide) (by decide) (by decide) (by decide)
      (by decide) AcStrategy.dct (fun _ => (1 : ℚ)) (Plane.filled 1 1 0) 0 0).1⟩

end Count

end JxlEncoder
