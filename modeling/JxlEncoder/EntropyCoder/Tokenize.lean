import JxlEncoder.EntropyCoder.NumNonZero

/-! # Tokenizing the coefficients of a block: `TokenizeCoefficients`

For every first block of a transform and every channel, `TokenizeCoefficients` counts the
transform's non-zero coefficients outside the LLF corner (`NumNonZero8x8ExceptDC` for an 8×8
block, `NumNonZeroExceptLLF` otherwise), emits the count as a token, and then walks the scan
order from the first index past the LLF coefficients, emitting `PackSigned` of each coefficient's
truncation and counting down the non-zero ones, until none is left.

The contexts of the tokens come from the block context map and the zero-density model of
`ac_context.h`, which are not among the sources; the model takes them as parameters. For a scan
order that is a permutation putting the LLF coefficients first, the count token is the number of
non-zero coefficients, the coefficient tokens are the scan up to its last non-zero coefficient,
and the count reaches exactly zero (`tokenizeBlock_tokens`).
-/

namespace JxlEncoder

/-- A token: a context and a value. -/
structure Token where
  context : ℕ
  value : ℕ
  deriving DecidableEq, Repr

/-- The last non-zero element and everything before it: `rdropWhile` is kept by a leading
element when some element of the list is non-zero. -/
theorem rdropWhile_cons_of_exists {α : Type} {p : α → Bool} {a : α} {l : List α}
    (kept : ∃ x ∈ a :: l, p x = false) : (a :: l).rdropWhile p = a :: l.rdropWhile p := by
  induction l using List.reverseRecOn with
  | nil =>
    obtain ⟨x, member, notP⟩ := kept
    rw [List.mem_singleton.mp member] at notP
    rw [List.rdropWhile_singleton, if_neg (by simp [notP]), List.rdropWhile_nil]
  | append_singleton l x ih =>
    rw [← List.cons_append]
    by_cases last : p x
    · rw [List.rdropWhile_concat_pos _ _ _ last, List.rdropWhile_concat_pos _ _ _ last]
      refine ih ?_
      obtain ⟨y, member, notP⟩ := kept
      rcases List.mem_cons.mp member with rfl | tail
      · exact ⟨y, .head _, notP⟩
      rcases List.mem_append.mp tail with inner | single
      · exact ⟨y, .tail _ inner, notP⟩
      · rw [List.mem_singleton.mp single, last] at notP
        cases notP
    · rw [List.rdropWhile_concat_neg _ _ _ last, List.rdropWhile_concat_neg _ _ _ last,
        List.cons_append]

section Scan

variable (context : ℤ → ℕ → ℕ → ℕ) (packSigned : ℤ → ℕ) (coeff : ℕ → ℤ)

/-- **The scan loop** `for (k = covered_blocks; k < size && nzeros != 0; ++k)` with `remaining`
indices left: the token `(ctx, PackSigned(coeff))`, `prev = coeff != 0`, `nzeros -= prev`.
Returns the tokens and the final `nzeros`. -/
def zeroDensityLoop : (remaining k : ℕ) → (nzeros : ℤ) → (prev : ℕ) → List Token × ℤ
  | 0, _, nzeros, _ => ([], nzeros)
  | remaining + 1, k, nzeros, prev =>
    if nzeros = 0 then ([], nzeros)
    else
      let c := coeff k
      let prev' : ℕ := if c ≠ 0 then 1 else 0
      let rest := zeroDensityLoop remaining (k + 1) (nzeros - prev') prev'
      (⟨context nzeros k prev, packSigned c⟩ :: rest.1, rest.2)

/-- **The scan loop emits the scan up to its last non-zero coefficient** when it starts from the
number of non-zero coefficients left, and it ends with `nzeros = 0`. -/
theorem zeroDensityLoop_spec : ∀ (remaining k : ℕ) (nzeros : ℤ) (prev : ℕ),
    nzeros = ((List.range' k remaining).countP fun j => coeff j ≠ 0 : ℕ) →
      (zeroDensityLoop context packSigned coeff remaining k nzeros prev).2 = 0 ∧
        (zeroDensityLoop context packSigned coeff remaining k nzeros prev).1.map Token.value =
          (((List.range' k remaining).map coeff).rdropWhile (· = 0)).map packSigned
  | 0, k, nzeros, prev, counted => by
    simp only [List.range'_zero, List.countP_nil, Nat.cast_zero] at counted
    simp [zeroDensityLoop, counted]
  | remaining + 1, k, nzeros, prev, counted => by
    by_cases done : nzeros = 0
    · have none : ((List.range' k (remaining + 1)).countP fun j => coeff j ≠ 0) = 0 := by omega
      have zeros : ∀ c ∈ (List.range' k (remaining + 1)).map coeff, decide (c = 0) = true :=
        List.forall_mem_map.mpr fun j member => by simpa using List.countP_eq_zero.mp none j member
      simp [zeroDensityLoop, done, List.rdropWhile_eq_nil_iff.mpr zeros]
    · obtain ⟨j, member, nonzero⟩ := List.countP_pos_iff.mp
        (show 0 < (List.range' k (remaining + 1)).countP fun j => coeff j ≠ 0 by omega)
      have kept : ∃ c ∈ (List.range' k (remaining + 1)).map coeff, decide (c = 0) = false :=
        ⟨coeff j, List.mem_map_of_mem _ member, by simpa using nonzero⟩
      rw [List.range'_succ, List.map_cons] at kept
      rw [List.range'_succ, List.countP_cons] at counted
      have next := zeroDensityLoop_spec remaining (k + 1)
        (nzeros - (if coeff k ≠ 0 then 1 else 0 : ℕ)) (if coeff k ≠ 0 then 1 else 0)
        (by split_ifs at counted ⊢ <;> simp_all)
      simp only [zeroDensityLoop, if_neg done]
      refine ⟨next.1, ?_⟩
      rw [List.range'_succ, List.map_cons coeff, rdropWhile_cons_of_exists kept, List.map_cons,
        List.map_cons, next.2]

/-- With no non-zero coefficient left the loop emits nothing. -/
theorem zeroDensityLoop_zero (remaining k : ℕ) (prev : ℕ) :
    zeroDensityLoop context packSigned coeff remaining k 0 prev = ([], 0) := by
  cases remaining <;> simp [zeroDensityLoop]

/-- The loop emits at most one token per position. -/
theorem length_zeroDensityLoop_le : ∀ (remaining k : ℕ) (nzeros : ℤ) (prev : ℕ),
    (zeroDensityLoop context packSigned coeff remaining k nzeros prev).1.length ≤ remaining
  | 0, _, _, _ => le_rfl
  | remaining + 1, k, nzeros, prev => by
    unfold zeroDensityLoop
    split_ifs
    · simp
    · simpa using length_zeroDensityLoop_le remaining (k + 1) _ _

/-- The loop reads the coefficients only at its own positions. -/
theorem zeroDensityLoop_congr (coeff' : ℕ → ℤ) : ∀ (remaining k : ℕ) (nzeros : ℤ) (prev : ℕ),
    (∀ j, k ≤ j → j < k + remaining → coeff j = coeff' j) →
      zeroDensityLoop context packSigned coeff remaining k nzeros prev =
        zeroDensityLoop context packSigned coeff' remaining k nzeros prev
  | 0, _, _, _, _ => rfl
  | remaining + 1, k, nzeros, prev, same => by
    have rest := fun nzeros prev => zeroDensityLoop_congr coeff' remaining (k + 1) nzeros prev
      fun j after before => same j (by omega) (by omega)
    simp only [zeroDensityLoop, same k le_rfl (by omega), rest]

end Scan

/-! ### Reading the tokens back

The decoder is not among the sources; what follows is the reading the tokens are made for. After
a block's count, the decoder walks the same scan: while non-zero coefficients remain it reads one
token per position and unpacks it, and the positions past the last non-zero coefficient are zero.
The stream of `zeroDensityLoop` reads back as the whole scan, and nothing past it is consumed
(`readScan_zeroDensityLoop`). -/

section Read

variable (unpackSigned : ℕ → ℤ)

/-- **The decoder's scan** over `remaining` positions with `nzeros` non-zero coefficients left:
the coefficients in scan order and the tokens after them, or `none` when the stream ends early or
the count is not used up. -/
def readScan : (remaining nzeros : ℕ) → List Token → Option (List ℤ × List Token)
  | 0, nzeros, tokens => if nzeros = 0 then some ([], tokens) else none
  | remaining + 1, 0, tokens => (readScan remaining 0 tokens).map fun r => (0 :: r.1, r.2)
  | _ + 1, _ + 1, [] => none
  | remaining + 1, nzeros + 1, t :: tokens =>
    let c := unpackSigned t.value
    (readScan remaining (if c ≠ 0 then nzeros else nzeros + 1) tokens).map fun r => (c :: r.1, r.2)

/-- **A block's count token, then its scan** over the `64·covered_blocks - covered_blocks`
positions past the LLF coefficients. -/
def readBlock (coveredBlocks : ℕ) : List Token → Option (List ℤ × List Token)
  | [] => none
  | t :: tokens => readScan unpackSigned (coveredBlocks * kDCTBlockSize - coveredBlocks) t.value tokens

variable {context : ℤ → ℕ → ℕ → ℕ} {packSigned : ℤ → ℕ} (coeff : ℕ → ℤ)

/-- **The scan loop's tokens read back as the scan**, whatever the contexts, when the loop starts
from the number of non-zero coefficients and `UnpackSigned` undoes `PackSigned`; the tokens
after them are left for the next block. -/
theorem readScan_zeroDensityLoop (inverse : ∀ c, unpackSigned (packSigned c) = c) :
    ∀ (remaining k nzeros prev : ℕ) (rest : List Token),
      nzeros = (List.range' k remaining).countP (fun j => coeff j ≠ 0) →
      readScan unpackSigned remaining nzeros
          ((zeroDensityLoop context packSigned coeff remaining k nzeros prev).1 ++ rest) =
        some ((List.range' k remaining).map coeff, rest)
  | 0, k, nzeros, prev, rest, counted => by
    simp only [List.range'_zero, List.countP_nil] at counted
    simp [zeroDensityLoop, readScan, counted]
  | remaining + 1, k, 0, prev, rest, counted => by
    rw [List.range'_succ, List.countP_cons] at counted
    have zero : coeff k = 0 := by
      by_contra nonzero
      simp [nonzero] at counted
    have inner := readScan_zeroDensityLoop inverse remaining (k + 1) 0 prev rest (by omega)
    rw [Nat.cast_zero, zeroDensityLoop_zero, List.nil_append] at inner
    rw [Nat.cast_zero, zeroDensityLoop_zero, List.nil_append, readScan, inner, List.range'_succ,
      List.map_cons, zero]
    rfl
  | remaining + 1, k, nzeros + 1, prev, rest, counted => by
    rw [List.range'_succ, List.countP_cons] at counted
    have left : ((nzeros + 1 : ℕ) : ℤ) - ((if coeff k ≠ 0 then 1 else 0 : ℕ) : ℤ) =
        ((if coeff k ≠ 0 then nzeros else nzeros + 1 : ℕ) : ℤ) := by
      split_ifs <;> push_cast <;> ring
    have inner := readScan_zeroDensityLoop inverse remaining (k + 1)
      (if coeff k ≠ 0 then nzeros else nzeros + 1) (if coeff k ≠ 0 then 1 else 0) rest
      (by split_ifs at counted ⊢ <;> simp_all)
    rw [zeroDensityLoop, if_neg (by omega)]
    dsimp only
    rw [List.cons_append, readScan, inverse, left, inner, List.range'_succ, List.map_cons]
    rfl

end Read


/-- `CoefficientLayout(&cy, &cx)` of `ac_strategy.h` (not among the sources): the canonical order
of a transform's sizes, with `ysize ≤ xsize`. -/
def coefficientLayout (ysize xsize : ℕ) : ℕ × ℕ :=
  if ysize > xsize then (xsize, ysize) else (ysize, xsize)

theorem coefficientLayout_mul (ysize xsize : ℕ) :
    (coefficientLayout ysize xsize).2 * (coefficientLayout ysize xsize).1 = xsize * ysize := by
  unfold coefficientLayout
  split_ifs <;> simp [Nat.mul_comm]

theorem coefficientLayout_le {ysize xsize bound : ℕ} (xLe : xsize ≤ bound) (yLe : ysize ≤ bound) :
    (coefficientLayout ysize xsize).2 ≤ bound := by
  unfold coefficientLayout
  split_ifs <;> assumption

/-- `NumZeroBitsBelowLSBNonzero` of `bits.h` (not among the sources): the number of zero bits
below the lowest set bit of a non-zero value, which lies among its first `n` bits. -/
def numZeroBitsBelowLSBNonzero (n : ℕ) : ℕ :=
  ((List.range n).takeWhile fun i => n / 2 ^ i % 2 = 0).length

/-- **A scan order** of the canonical `cx × cy` layout: a permutation of its `64·cx·cy`
positions that lists the `cx·cy` LLF positions first. -/
structure IsScanOrder (cx cy : ℕ) (order : ℕ → ℕ) : Prop where
  perm : ((List.range (cx * cy * kDCTBlockSize)).map order).Perm
    (List.range (cx * cy * kDCTBlockSize))
  llfFirst : ∀ k < cx * cy * kDCTBlockSize, (k < cx * cy ↔ IsLLF cx cy (order k))

/-- A scan order reaches every position outside the LLF corner past its first `cx·cy` indices. -/
theorem IsScanOrder.exists_index {cx cy : ℕ} {order : ℕ → ℕ} (scan : IsScanOrder cx cy order)
    {p : ℕ} (inside : p < cx * cy * kDCTBlockSize) (notLLF : ¬ IsLLF cx cy p) :
    ∃ k, cx * cy ≤ k ∧ k < cx * cy * kDCTBlockSize ∧ order k = p := by
  obtain ⟨k, member, rfl⟩ := List.mem_map.mp (scan.perm.mem_iff.mpr (List.mem_range.mpr inside))
  have kInside := List.mem_range.mp member
  exact ⟨k, not_lt.mp fun llf => notLLF ((scan.llfFirst k kInside).mp llf), kInside, rfl⟩

/-- A scan order keeps its indices among the positions of the layout. -/
theorem IsScanOrder.order_lt {cx cy : ℕ} {order : ℕ → ℕ} (scan : IsScanOrder cx cy order) {k : ℕ}
    (inside : k < cx * cy * kDCTBlockSize) : order k < cx * cy * kDCTBlockSize :=
  List.mem_range.mp (scan.perm.mem_iff.mp (List.mem_map_of_mem _ (List.mem_range.mpr inside)))

section Count

variable {F : Type} [LinearOrderedField F] [FloorRing F]

/-- The count reads the block only at the layout's positions. -/
theorem nonZeroCount_congr {cx cy : ℕ} {block block' : ℕ → F}
    (same : ∀ p < cx * cy * kDCTBlockSize, block p = block' p) :
    nonZeroCount cx cy block = nonZeroCount cx cy block' :=
  List.countP_congr fun p member => by rw [same p (List.mem_range.mp member)]

/-- **The non-LLF count is the count along the scan past the LLF positions**: a scan order
visits every position once and the LLF ones first. -/
theorem nonZeroCount_eq_countP_scan {cx cy : ℕ} {order : ℕ → ℕ} (scan : IsScanOrder cx cy order)
    (block : ℕ → F) :
    nonZeroCount cx cy block = (List.range' (cx * cy) (cx * cy * kDCTBlockSize - cx * cy)).countP
      fun k => castToInt (block (order k)) ≠ 0 := by
  have split : List.range (cx * cy * kDCTBlockSize) =
      List.range (cx * cy) ++ List.range' (cx * cy) (cx * cy * kDCTBlockSize - cx * cy) := by
    rw [List.range'_eq_map_range, ← List.range_add, Nat.add_sub_cancel'
      (Nat.le_mul_of_pos_right _ (by decide))]
  have llf : ((List.range (cx * cy)).countP fun k =>
      !decide (IsLLF cx cy (order k)) && decide (castToInt (block (order k)) ≠ 0)) = 0 :=
    List.countP_eq_zero.mpr fun k member => by
      have inLLF := (scan.llfFirst k (by
        have := List.mem_range.mp member
        have : cx * cy ≤ cx * cy * kDCTBlockSize := Nat.le_mul_of_pos_right _ (by decide)
        omega)).mp (List.mem_range.mp member)
      simp [inLLF]
  have rest : ((List.range' (cx * cy) (cx * cy * kDCTBlockSize - cx * cy)).countP fun k =>
      !decide (IsLLF cx cy (order k)) && decide (castToInt (block (order k)) ≠ 0)) =
      (List.range' (cx * cy) (cx * cy * kDCTBlockSize - cx * cy)).countP
        fun k => castToInt (block (order k)) ≠ 0 :=
    List.countP_congr fun k member => by
      obtain ⟨past, inside⟩ := List.mem_range'_1.mp member
      have notLLF : ¬ IsLLF cx cy (order k) := fun inLLF =>
        absurd ((scan.llfFirst k (by omega)).mpr inLLF) (by omega)
      simp [notLLF]
  rw [nonZeroCount, ← scan.perm.countP_eq, List.countP_map, split, List.countP_append]
  simp only [Function.comp_def, llf, rest, Nat.zero_add]

end Count

/-- **`TokenizeCoefficients` on one block and channel**: the count of non-zero coefficients,
stored in the counts plane at `(x0, y0)` and emitted with the context `nonZeroContext` gives on
that plane, then the scan tokens, `histo_offset` plus the zero-density context. Returns the
tokens, the counts plane, and `nzeros` as the loop leaves it. -/
def tokenizeBlock {F : Type} [LinearOrderedField F] [FloorRing F] (lanes : ℕ)
    (zeroDensityContext : ℕ → ℕ → ℕ → ℕ → ℕ → ℕ) (packSigned : ℤ → ℕ)
    (nonZeroContext : Plane ℤ → ℕ) (histoOffset : ℕ) (acs : AcStrategy) (order : ℕ → ℕ)
    (block : ℕ → F) (nzerosPos : Plane ℤ) (x0 y0 : ℕ) : List Token × Plane ℤ × ℤ :=
  let coveredBlocks := acs.coveredBlocksX * acs.coveredBlocksY
  let log2CoveredBlocks := numZeroBitsBelowLSBNonzero coveredBlocks
  let size := coveredBlocks * kDCTBlockSize
  let layout := coefficientLayout acs.coveredBlocksY acs.coveredBlocksX
  let counted := if coveredBlocks = 1 then numNonZero8x8ExceptDC lanes block nzerosPos x0 y0
    else numNonZeroExceptLLF lanes layout.2 layout.1 acs coveredBlocks log2CoveredBlocks block
      nzerosPos x0 y0
  let nzeros := counted.1
  let prev : ℕ := if nzeros > ((size / 16 : ℕ) : ℤ) then 0 else 1
  let scan := zeroDensityLoop
    (fun nzeros k prev =>
      histoOffset + zeroDensityContext nzeros.toNat k coveredBlocks log2CoveredBlocks prev)
    packSigned (fun k => castToInt (block (order k))) (size - coveredBlocks) coveredBlocks nzeros prev
  (⟨nonZeroContext counted.2, nzeros.toNat⟩ :: scan.1, counted.2, scan.2)

section Block

variable {F : Type} [LinearOrderedField F] [FloorRing F] {lanes : ℕ} {acs : AcStrategy}

/-- The count `tokenizeBlock` takes, from `NumNonZero8x8ExceptDC` or `NumNonZeroExceptLLF`, is
the non-LLF count of the canonical layout, for every lane width that divides 8 and every
transform of at most `kMaxCoeffBlocks` blocks each way. -/
theorem tokenizeBlock_count (lanesPos : 0 < lanes) (dvd : lanes ∣ kBlockDim)
    (small : acs.coveredBlocksX ≤ kMaxCoeffBlocks ∧ acs.coveredBlocksY ≤ kMaxCoeffBlocks)
    (block : ℕ → F) (nzerosPos : Plane ℤ) (x0 y0 : ℕ) :
    (if acs.coveredBlocksX * acs.coveredBlocksY = 1 then
        numNonZero8x8ExceptDC lanes block nzerosPos x0 y0
      else numNonZeroExceptLLF lanes (coefficientLayout acs.coveredBlocksY acs.coveredBlocksX).2
        (coefficientLayout acs.coveredBlocksY acs.coveredBlocksX).1 acs
        (acs.coveredBlocksX * acs.coveredBlocksY)
        (numZeroBitsBelowLSBNonzero (acs.coveredBlocksX * acs.coveredBlocksY)) block
        nzerosPos x0 y0).1 =
      nonZeroCount (coefficientLayout acs.coveredBlocksY acs.coveredBlocksX).2
        (coefficientLayout acs.coveredBlocksY acs.coveredBlocksX).1 block := by
  split_ifs with single
  · rw [numNonZero8x8ExceptDC_eq_countP lanesPos dvd, Nat.eq_one_of_mul_eq_one_right single,
      Nat.eq_one_of_mul_eq_one_left single]
    rfl
  · exact numNonZeroExceptLLF_eq_countP lanesPos dvd (coefficientLayout_le small.1 small.2) _ _ _ _ _ _ _

/-- **`tokenizeBlock` is the count token followed by the scan loop started from the count**, the
number of non-zero coefficients along the scan past the LLF positions, for every lane width that
divides 8, every transform of at most `kMaxCoeffBlocks` blocks each way and every scan order. -/
theorem tokenizeBlock_eq_zeroDensityLoop (lanesPos : 0 < lanes) (dvd : lanes ∣ kBlockDim)
    (zeroDensityContext : ℕ → ℕ → ℕ → ℕ → ℕ → ℕ) (packSigned : ℤ → ℕ)
    (nonZeroContext : Plane ℤ → ℕ) (histoOffset : ℕ)
    (small : acs.coveredBlocksX ≤ kMaxCoeffBlocks ∧ acs.coveredBlocksY ≤ kMaxCoeffBlocks)
    {order : ℕ → ℕ}
    (scan : IsScanOrder (coefficientLayout acs.coveredBlocksY acs.coveredBlocksX).2
      (coefficientLayout acs.coveredBlocksY acs.coveredBlocksX).1 order)
    (block : ℕ → F) (nzerosPos : Plane ℤ) (x0 y0 : ℕ) :
    ∃ (countContext : ℕ) (context : ℤ → ℕ → ℕ → ℕ) (prev : ℕ),
      let coveredBlocks := acs.coveredBlocksX * acs.coveredBlocksY
      let count := (List.range' coveredBlocks (coveredBlocks * kDCTBlockSize - coveredBlocks)).countP
        fun k => castToInt (block (order k)) ≠ 0
      let loop := zeroDensityLoop context packSigned (fun k => castToInt (block (order k)))
        (coveredBlocks * kDCTBlockSize - coveredBlocks) coveredBlocks count prev
      let tokenized := tokenizeBlock lanes zeroDensityContext packSigned nonZeroContext histoOffset
        acs order block nzerosPos x0 y0
      tokenized.1 = ⟨countContext, count⟩ :: loop.1 ∧ tokenized.2.2 = loop.2 := by
  have counted := tokenizeBlock_count lanesPos dvd small block nzerosPos x0 y0
  have alongScan := nonZeroCount_eq_countP_scan scan block
  rw [coefficientLayout_mul] at alongScan
  rw [alongScan] at counted
  simp only [tokenizeBlock, counted, Int.toNat_natCast]
  exact ⟨_, _, _, rfl, rfl⟩

/-- The scan loop of every block ends with `nzeros = 0`, for every lane width that divides 8,
every transform of at most `kMaxCoeffBlocks` blocks each way and every scan order. -/
theorem tokenizeBlock_final (lanesPos : 0 < lanes) (dvd : lanes ∣ kBlockDim)
    (zeroDensityContext : ℕ → ℕ → ℕ → ℕ → ℕ → ℕ) (packSigned : ℤ → ℕ)
    (nonZeroContext : Plane ℤ → ℕ) (histoOffset : ℕ)
    (small : acs.coveredBlocksX ≤ kMaxCoeffBlocks ∧ acs.coveredBlocksY ≤ kMaxCoeffBlocks)
    {order : ℕ → ℕ}
    (scan : IsScanOrder (coefficientLayout acs.coveredBlocksY acs.coveredBlocksX).2
      (coefficientLayout acs.coveredBlocksY acs.coveredBlocksX).1 order)
    (block : ℕ → F) (nzerosPos : Plane ℤ) (x0 y0 : ℕ) :
    (tokenizeBlock lanes zeroDensityContext packSigned nonZeroContext histoOffset acs order block
      nzerosPos x0 y0).2.2 = 0 := by
  obtain ⟨-, context, prev, -, final⟩ := tokenizeBlock_eq_zeroDensityLoop lanesPos dvd
    zeroDensityContext packSigned nonZeroContext histoOffset small scan block nzerosPos x0 y0
  exact final.trans (zeroDensityLoop_spec context packSigned _ _ _ _ prev rfl).1

/-- **A block's tokens read back as its scan.** For every lane width that divides 8, every
transform of at most `kMaxCoeffBlocks` blocks each way, every scan order and all context
functions, when `UnpackSigned` undoes `PackSigned`: reading the block's tokens gives the
truncated coefficient at every scan position past the LLF ones, and leaves what follows. -/
theorem readBlock_tokenizeBlock (lanesPos : 0 < lanes) (dvd : lanes ∣ kBlockDim)
    (zeroDensityContext : ℕ → ℕ → ℕ → ℕ → ℕ → ℕ) {packSigned : ℤ → ℕ}
    (nonZeroContext : Plane ℤ → ℕ) (histoOffset : ℕ)
    (small : acs.coveredBlocksX ≤ kMaxCoeffBlocks ∧ acs.coveredBlocksY ≤ kMaxCoeffBlocks)
    {order : ℕ → ℕ}
    (scan : IsScanOrder (coefficientLayout acs.coveredBlocksY acs.coveredBlocksX).2
      (coefficientLayout acs.coveredBlocksY acs.coveredBlocksX).1 order)
    (block : ℕ → F) (nzerosPos : Plane ℤ) (x0 y0 : ℕ) {unpackSigned : ℕ → ℤ}
    (inverse : ∀ c, unpackSigned (packSigned c) = c) (rest : List Token) :
    readBlock unpackSigned (acs.coveredBlocksX * acs.coveredBlocksY)
        ((tokenizeBlock lanes zeroDensityContext packSigned nonZeroContext histoOffset acs order
          block nzerosPos x0 y0).1 ++ rest) =
      some ((List.range' (acs.coveredBlocksX * acs.coveredBlocksY)
        (acs.coveredBlocksX * acs.coveredBlocksY * kDCTBlockSize -
          acs.coveredBlocksX * acs.coveredBlocksY)).map fun k => castToInt (block (order k)), rest) := by
  obtain ⟨countContext, context, prev, tokens, -⟩ := tokenizeBlock_eq_zeroDensityLoop lanesPos dvd
    zeroDensityContext packSigned nonZeroContext histoOffset small scan block nzerosPos x0 y0
  rw [tokens, List.cons_append, readBlock]
  exact readScan_zeroDensityLoop unpackSigned _ inverse _ _ _ prev rest rfl

/-- **`tokenizeBlock` reads the block only at the transform's `64·cx·cy` positions**, for every
lane width that divides 8, every transform of at most `kMaxCoeffBlocks` blocks each way and
every scan order. -/
theorem tokenizeBlock_congr (lanesPos : 0 < lanes) (dvd : lanes ∣ kBlockDim)
    (zeroDensityContext : ℕ → ℕ → ℕ → ℕ → ℕ → ℕ) (packSigned : ℤ → ℕ)
    (nonZeroContext : Plane ℤ → ℕ) (histoOffset : ℕ)
    (small : acs.coveredBlocksX ≤ kMaxCoeffBlocks ∧ acs.coveredBlocksY ≤ kMaxCoeffBlocks)
    {order : ℕ → ℕ}
    (scan : IsScanOrder (coefficientLayout acs.coveredBlocksY acs.coveredBlocksX).2
      (coefficientLayout acs.coveredBlocksY acs.coveredBlocksX).1 order)
    {block block' : ℕ → F}
    (same : ∀ i < acs.coveredBlocksX * acs.coveredBlocksY * kDCTBlockSize, block i = block' i)
    (nzerosPos : Plane ℤ) (x0 y0 : ℕ) :
    tokenizeBlock lanes zeroDensityContext packSigned nonZeroContext histoOffset acs order block
        nzerosPos x0 y0 =
      tokenizeBlock lanes zeroDensityContext packSigned nonZeroContext histoOffset acs order block'
        nzerosPos x0 y0 := by
  have count := (tokenizeBlock_count lanesPos dvd small block nzerosPos x0 y0).trans
    ((congrArg Nat.cast (nonZeroCount_congr (by rwa [coefficientLayout_mul]))).trans
      (tokenizeBlock_count lanesPos dvd small block' nzerosPos x0 y0).symm)
  have reads : ∀ j, acs.coveredBlocksX * acs.coveredBlocksY ≤ j →
      j < acs.coveredBlocksX * acs.coveredBlocksY +
        (acs.coveredBlocksX * acs.coveredBlocksY * kDCTBlockSize -
          acs.coveredBlocksX * acs.coveredBlocksY) →
      castToInt (block (order j)) = castToInt (block' (order j)) := fun j _ before => by
    have inside : j < (coefficientLayout acs.coveredBlocksY acs.coveredBlocksX).2 *
        (coefficientLayout acs.coveredBlocksY acs.coveredBlocksX).1 * kDCTBlockSize := by
      rw [coefficientLayout_mul]
      omega
    have ordered := scan.order_lt inside
    rw [coefficientLayout_mul] at ordered
    rw [same _ ordered]
  by_cases single : acs.coveredBlocksX * acs.coveredBlocksY = 1
  · simp only [tokenizeBlock, if_pos single] at count ⊢
    rw [numNonZero8x8ExceptDC_snd lanes block, numNonZero8x8ExceptDC_snd lanes block', count,
      zeroDensityLoop_congr _ _ _ _ _ _ _ _ reads]
  · simp only [tokenizeBlock, if_neg single] at count ⊢
    rw [numNonZeroExceptLLF_snd lanes _ _ acs _ _ block, numNonZeroExceptLLF_snd lanes _ _ acs _ _ block',
      count, zeroDensityLoop_congr _ _ _ _ _ _ _ _ reads]

/-- A block gives at most one token per coefficient. -/
theorem length_tokenizeBlock_le (zeroDensityContext : ℕ → ℕ → ℕ → ℕ → ℕ → ℕ)
    (packSigned : ℤ → ℕ) (nonZeroContext : Plane ℤ → ℕ) (histoOffset : ℕ) (order : ℕ → ℕ)
    (block : ℕ → F) (nzerosPos : Plane ℤ) (x0 y0 : ℕ) :
    (tokenizeBlock lanes zeroDensityContext packSigned nonZeroContext histoOffset acs order block
      nzerosPos x0 y0).1.length ≤ acs.coveredBlocksX * acs.coveredBlocksY * kDCTBlockSize := by
  have positive : 0 < acs.coveredBlocksX * acs.coveredBlocksY :=
    Nat.mul_pos acs.coveredBlocksX_pos acs.coveredBlocksY_pos
  have loop := length_zeroDensityLoop_le
    (fun nzeros k prev => histoOffset + zeroDensityContext nzeros.toNat k
      (acs.coveredBlocksX * acs.coveredBlocksY)
      (numZeroBitsBelowLSBNonzero (acs.coveredBlocksX * acs.coveredBlocksY)) prev)
    packSigned (fun k => castToInt (block (order k)))
    (acs.coveredBlocksX * acs.coveredBlocksY * kDCTBlockSize -
      acs.coveredBlocksX * acs.coveredBlocksY) (acs.coveredBlocksX * acs.coveredBlocksY)
  simp only [tokenizeBlock, List.length_cons]
  exact (Nat.succ_le_succ (loop _ _)).trans (by unfold kDCTBlockSize; omega)

/-- **The lane width does not matter**: every two lane widths that divide 8 tokenize a transform
of at most `kMaxCoeffBlocks` blocks each way alike, tokens, counts plane and final count, since
both vector counts are the plain count. -/
theorem tokenizeBlock_lanes (lanesPos : 0 < lanes) (dvd : lanes ∣ kBlockDim) {lanes' : ℕ}
    (lanesPos' : 0 < lanes') (dvd' : lanes' ∣ kBlockDim)
    (zeroDensityContext : ℕ → ℕ → ℕ → ℕ → ℕ → ℕ) (packSigned : ℤ → ℕ)
    (nonZeroContext : Plane ℤ → ℕ) (histoOffset : ℕ)
    (small : acs.coveredBlocksX ≤ kMaxCoeffBlocks ∧ acs.coveredBlocksY ≤ kMaxCoeffBlocks)
    (order : ℕ → ℕ) (block : ℕ → F) (nzerosPos : Plane ℤ) (x0 y0 : ℕ) :
    tokenizeBlock lanes zeroDensityContext packSigned nonZeroContext histoOffset acs order block
        nzerosPos x0 y0 =
      tokenizeBlock lanes' zeroDensityContext packSigned nonZeroContext histoOffset acs order block
        nzerosPos x0 y0 := by
  have count := (tokenizeBlock_count lanesPos dvd small block nzerosPos x0 y0).trans
    (tokenizeBlock_count lanesPos' dvd' small block nzerosPos x0 y0).symm
  by_cases single : acs.coveredBlocksX * acs.coveredBlocksY = 1
  · simp only [tokenizeBlock, if_pos single] at count ⊢
    rw [numNonZero8x8ExceptDC_snd lanes block, numNonZero8x8ExceptDC_snd lanes' block, count]
  · simp only [tokenizeBlock, if_neg single] at count ⊢
    rw [numNonZeroExceptLLF_snd lanes _ _ acs _ _ block,
      numNonZeroExceptLLF_snd lanes' _ _ acs _ _ block, count]

/-- The natural scan of one 8×8 block, with the DC first, is a scan order. -/
theorem isScanOrder_id : IsScanOrder 1 1 id :=
  ⟨by simp, by decide⟩

end Block

end JxlEncoder
