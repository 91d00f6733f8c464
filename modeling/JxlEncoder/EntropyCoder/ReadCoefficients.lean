import JxlEncoder.EntropyCoder.BlockCtxMap
import JxlEncoder.EntropyCoder.TokenizeCoefficients

/-! # Reading a rect's tokens back

The decoder of the token stream that `TokenizeCoefficients` writes is not among the sources; this
module gives the reader the stream's layout defines. It walks the first blocks of the rect in the
tokenizer's row-major order and their channels in the order `1, 0, 2` wherever the tokenizer
visits them. At each it reads the transform's count token and scan (`readBlock`), writes the value
at scan index `k` to `ac_rows[c][offset[c] + order[k]]` from `k = covered_blocks` on, and moves
`offset[c]` past the transform's `64 · covered_blocks` coefficients.

**The round trip** (`readCoefficients_tokenizeCoefficients`): from every tokenizer state, and
buffers whose read positions are the tokenizer's, the tokens a run appends read back and leave
whatever follows them. The buffers come out with every coefficient of every visited transform
outside its LLF corner set to the truncation the tokenizer coded (`copyCoefficients`), every other
coefficient as it was, and the read positions the tokenizer ends with. The LLF coefficients travel
with the DC image and are not in this stream.

A reader that undoes each step of a fold undoes the whole fold (`foldl_read_foldl`); the proof
applies it twice, to the channels of a block and to the first blocks of the rect.
-/

namespace JxlEncoder

/-- The reader's state: each channel's coefficient buffer and its read position. -/
structure CoefficientBuffers where
  coefficients : Fin 3 → ℕ → ℤ
  offset : Fin 3 → ℕ

/-- The values of a scan written back from scan index `k` on: the value at index `k` goes to
`start + order k`. -/
def writeScan (order : ℕ → ℕ) (start : ℕ) : ℕ → List ℤ → (ℕ → ℤ) → ℕ → ℤ
  | _, [], buffer => buffer
  | k, v :: vs, buffer =>
    writeScan order start (k + 1) vs (Function.update buffer (start + order k) v)

/-- A transform of the canonical `cx × cy` layout copied into a buffer from `start` on: every
position of its `64 · cx · cy` outside the LLF corner takes `coefficient`, the others keep the
buffer's value. -/
def copyTransform (cx cy start : ℕ) (coefficient buffer : ℕ → ℤ) : ℕ → ℤ := fun i =>
  if start ≤ i ∧ i < start + cx * cy * kDCTBlockSize ∧ ¬ IsLLF cx cy (i - start) then coefficient i
  else buffer i

section Write

variable {order : ℕ → ℕ} {start : ℕ} (g : ℕ → ℤ)

/-- A position that no index of the scan reaches keeps its value. -/
theorem writeScan_of_not_mem {i : ℕ} : ∀ (n k : ℕ) (buffer : ℕ → ℤ),
    (∀ j ∈ List.range' k n, start + order j ≠ i) →
    writeScan order start k ((List.range' k n).map g) buffer i = buffer i
  | 0, _, _, _ => rfl
  | n + 1, k, buffer, missed => by
    rw [List.range'_succ, List.map_cons, writeScan, writeScan_of_not_mem n (k + 1) _
      fun j member => missed j (.tail _ member), Function.update_noteq (missed k (.head _)).symm]

/-- The value of index `j` lands at `start + order j` when `order` is injective on the indices. -/
theorem writeScan_apply : ∀ (n k : ℕ) (buffer : ℕ → ℤ),
    (∀ a ∈ List.range' k n, ∀ b ∈ List.range' k n, order a = order b → a = b) →
    ∀ j ∈ List.range' k n,
      writeScan order start k ((List.range' k n).map g) buffer (start + order j) = g j
  | 0, _, _, _, j, member => absurd member (List.not_mem_nil j)
  | n + 1, k, buffer, injective, j, member => by
    rw [List.range'_succ] at injective member
    rw [List.range'_succ, List.map_cons, writeScan]
    rcases List.mem_cons.mp member with first | later
    · rw [first, writeScan_of_not_mem g n (k + 1) _ fun j' member' same => ?_, Function.update_same]
      have equal := injective j' (.tail _ member') k (.head _) (Nat.add_left_cancel same)
      exact absurd (List.mem_range'_1.mp (equal ▸ member')).1 (Nat.not_succ_le_self k)
    · exact writeScan_apply n (k + 1) _
        (fun a inA b inB => injective a (.tail _ inA) b (.tail _ inB)) j later

/-- **A scan written back is the transform's copy**: with a scan order of the canonical `cx × cy`
layout, writing the values at `start + order k` of the indices past the LLF ones sets exactly the
positions of the transform outside its LLF corner. -/
theorem writeScan_scanOrder {cx cy : ℕ} (scan : IsScanOrder cx cy order) (coefficient : ℕ → ℤ)
    (buffer : ℕ → ℤ) :
    writeScan order start (cx * cy) ((List.range' (cx * cy) (cx * cy * kDCTBlockSize - cx * cy)).map
        fun k => coefficient (start + order k)) buffer =
      copyTransform cx cy start coefficient buffer := by
  have within : cx * cy ≤ cx * cy * kDCTBlockSize := Nat.le_mul_of_pos_right _ (by decide)
  have inRange : ∀ k ∈ List.range' (cx * cy) (cx * cy * kDCTBlockSize - cx * cy),
      k < cx * cy * kDCTBlockSize := fun k member => by
    have := List.mem_range'_1.mp member
    omega
  have injective : ∀ a ∈ List.range' (cx * cy) (cx * cy * kDCTBlockSize - cx * cy),
      ∀ b ∈ List.range' (cx * cy) (cx * cy * kDCTBlockSize - cx * cy), order a = order b → a = b :=
    fun a inA b inB => List.inj_on_of_nodup_map (scan.perm.nodup_iff.mpr (List.nodup_range _))
      (List.mem_range.mpr (inRange a inA)) (List.mem_range.mpr (inRange b inB))
  funext i
  unfold copyTransform
  split_ifs with copied
  · obtain ⟨after, inside, notLLF⟩ := copied
    obtain ⟨k, past, before, reached⟩ := scan.exists_index (by omega) notLLF
    have position : i = start + order k := by omega
    rw [position]
    exact writeScan_apply _ _ _ _ injective k (List.mem_range'_1.mpr ⟨past, by omega⟩)
  · refine writeScan_of_not_mem _ _ _ _ fun k member reached => copied ?_
    have inside := scan.order_lt (inRange k member)
    have notLLF : ¬ IsLLF cx cy (order k) := fun llf =>
      absurd ((scan.llfFirst k (inRange k member)).mpr llf)
        (not_lt.mpr (List.mem_range'_1.mp member).1)
    refine ⟨by omega, by omega, ?_⟩
    rwa [← reached, Nat.add_sub_cancel_left]

end Write

section Fold

variable {α σ β : Type} (encode : σ → α → σ) (output : σ → List Token)
  (read : Option (β × List Token) → α → Option (β × List Token)) (copy : β → α → β)
  (related : β → σ → Prop)

/-- **A reader that undoes every step of a fold undoes the fold.** If each step appends tokens
that `read` turns, from related states, into `copy` of the reader's state, leaving what follows and
keeping the relation, then the tokens of the whole fold read back into the fold of `copy`. -/
theorem foldl_read_foldl : ∀ (l : List α),
    (∀ a ∈ l, ∀ b s, related b s → ∃ appended, output (encode s a) = output s ++ appended ∧
      related (copy b a) (encode s a) ∧
      ∀ rest, read (some (b, appended ++ rest)) a = some (copy b a, rest)) →
    ∀ b s, related b s → ∃ appended, output (l.foldl encode s) = output s ++ appended ∧
      related (l.foldl copy b) (l.foldl encode s) ∧
      ∀ rest, l.foldl read (some (b, appended ++ rest)) = some (l.foldl copy b, rest)
  | [], _, _, _, holds => ⟨[], (List.append_nil _).symm, holds, fun _ => rfl⟩
  | a :: l, steps, b, s, holds => by
    obtain ⟨first, grows, kept, reads⟩ := steps a (.head _) b s holds
    obtain ⟨later, grows', kept', reads'⟩ :=
      foldl_read_foldl l (fun a' member => steps a' (.tail _ member)) _ _ kept
    refine ⟨first ++ later, by rw [List.foldl_cons, grows', grows, List.append_assoc], kept',
      fun rest => ?_⟩
    rw [List.foldl_cons, List.foldl_cons, List.append_assoc, reads, reads']

end Fold

section Reader

variable {F : Type} [LinearOrderedField F] [FloorRing F] (unpackSigned : ℕ → ℤ)
  (orders : ℕ → Fin 3 → ℕ → ℕ) (strategyOrder : ℕ → ℕ → ℕ) (acRows : Fin 3 → ℕ → F)
  (acs : AcStrategyImage) (hshift vshift : ℕ)

/-- **Channel `c` of the first block at `(bx, by)`** read back: where the tokenizer visits it, the
transform's count and scan are read and the scan written from `offset[c]` on; the read position
moves past the transform. -/
def readChannel (blockX blockY : ℕ) (state : CoefficientBuffers × List Token) (c : Fin 3) :
    Option (CoefficientBuffers × List Token) :=
  if ChannelVisited hshift vshift blockX blockY c then
    let acsBlock := acs.row blockY blockX
    let coveredBlocks := acsBlock.coveredBlocksX * acsBlock.coveredBlocksY
    (readBlock unpackSigned coveredBlocks state.2).map fun read =>
      ({ coefficients := Function.update state.1.coefficients c
           (writeScan (orders (strategyOrder blockX blockY) c) (state.1.offset c) coveredBlocks
             read.1 (state.1.coefficients c))
         offset := Function.update state.1.offset c
           (state.1.offset c + coveredBlocks * kDCTBlockSize) }, read.2)
  else some state

/-- The channels of the first block at `(bx, by)` read back in the order `1, 0, 2`. -/
def readFirstBlock (state : Option (CoefficientBuffers × List Token)) (blockX blockY : ℕ) :
    Option (CoefficientBuffers × List Token) :=
  ([1, 0, 2] : List (Fin 3)).foldl
    (fun state c => state.bind fun s => readChannel unpackSigned orders strategyOrder acs hshift
      vshift blockX blockY s c) state

/-- **The reader of a rect's tokens**: the first blocks in row-major order, from the buffers and
the tokens given; `none` when the stream ends early or a count is not used up. -/
def readCoefficients (buffers : CoefficientBuffers) (tokens : List Token) :
    Option (CoefficientBuffers × List Token) :=
  acs.forEachFirstBlock acs.xsize acs.ysize
    (readFirstBlock unpackSigned orders strategyOrder acs hshift vshift) (some (buffers, tokens))

/-- What reading channel `c` of the first block at `(bx, by)` should give: where the tokenizer
visits it, the truncated coefficients of the transform outside its LLF corner copied into the
buffer, and the read position past the transform. -/
def copyChannel (blockX blockY : ℕ) (buffers : CoefficientBuffers) (c : Fin 3) :
    CoefficientBuffers :=
  if ChannelVisited hshift vshift blockX blockY c then
    let acsBlock := acs.row blockY blockX
    let layout := coefficientLayout acsBlock.coveredBlocksY acsBlock.coveredBlocksX
    { coefficients := Function.update buffers.coefficients c
        (copyTransform layout.2 layout.1 (buffers.offset c) (fun i => castToInt (acRows c i))
          (buffers.coefficients c))
      offset := Function.update buffers.offset c
        (buffers.offset c + acsBlock.coveredBlocksX * acsBlock.coveredBlocksY * kDCTBlockSize) }
  else buffers

/-- The copy of every visited transform of the rect, block by block. -/
def copyCoefficients (buffers : CoefficientBuffers) : CoefficientBuffers :=
  acs.forEachFirstBlock acs.xsize acs.ysize
    (fun buffers blockX blockY =>
      ([1, 0, 2] : List (Fin 3)).foldl (copyChannel acRows acs hshift vshift blockX blockY) buffers)
    buffers

end Reader

/-! ### The round trip -/

section RoundTrip

variable {F : Type} [LinearOrderedField F] [FloorRing F] {lanes : ℕ} {ctx : ContextModel}
  {packSigned : ℤ → ℕ} {unpackSigned : ℕ → ℤ} {orders : ℕ → Fin 3 → ℕ → ℕ}
  {strategyOrder : ℕ → ℕ → ℕ} {acRows : Fin 3 → ℕ → F} {acs : AcStrategyImage} {hshift vshift : ℕ}
  {qdc : Plane ℕ} {qf : Plane ℤ}

/-- **One channel reads back**: from buffers whose read positions are the tokenizer's, the tokens
the channel appends read back into its copy, leave what follows, and keep the read positions
equal. -/
theorem readChannel_tokenizeChannel (lanesPos : 0 < lanes) (dvd : lanes ∣ kBlockDim)
    {blockX blockY : ℕ} (fits : StrategyFits orders strategyOrder acs blockX blockY)
    (inverse : ∀ c, unpackSigned (packSigned c) = c) (c : Fin 3) (buffers : CoefficientBuffers)
    (st : TokenizeState) (aligned : buffers.offset = st.offset) :
    ∃ appended, (tokenizeChannel lanes ctx packSigned orders strategyOrder acRows acs hshift vshift
        qdc qf blockX blockY st c).output = st.output ++ appended ∧
      (copyChannel acRows acs hshift vshift blockX blockY buffers c).offset =
        (tokenizeChannel lanes ctx packSigned orders strategyOrder acRows acs hshift vshift qdc qf
          blockX blockY st c).offset ∧
      ∀ rest, readChannel unpackSigned orders strategyOrder acs hshift vshift blockX blockY
        (buffers, appended ++ rest) c =
          some (copyChannel acRows acs hshift vshift blockX blockY buffers c, rest) := by
  by_cases visited : ChannelVisited hshift vshift blockX blockY c
  · obtain ⟨first, second⟩ := id visited
    simp only [tokenizeChannel, if_neg first, if_neg second]
    refine ⟨_, rfl, by rw [copyChannel, if_pos visited, aligned], fun rest => ?_⟩
    rw [readChannel, if_pos visited, copyChannel, if_pos visited]
    dsimp only
    rw [readBlock_tokenizeBlock lanesPos dvd _ _ _ fits.small (fits.scan c) _ _ _ _ inverse rest,
      Option.map_some', aligned, ← writeScan_scanOrder (fits.scan c), coefficientLayout_mul]
  · refine ⟨[], by rw [tokenizeChannel_of_not_visited st visited, List.append_nil], ?_,
      fun rest => by rw [readChannel, if_neg visited, copyChannel, if_neg visited, List.nil_append]⟩
    rw [tokenizeChannel_of_not_visited st visited, copyChannel, if_neg visited, aligned]

/-- **A first block reads back**: its channels one after the other, in the order `1, 0, 2`. -/
theorem readFirstBlock_tokenizeFirstBlock (lanesPos : 0 < lanes) (dvd : lanes ∣ kBlockDim)
    {blockX blockY : ℕ} (fits : StrategyFits orders strategyOrder acs blockX blockY)
    (inverse : ∀ c, unpackSigned (packSigned c) = c) (buffers : CoefficientBuffers)
    (st : TokenizeState) (aligned : buffers.offset = st.offset) :
    ∃ appended, (tokenizeFirstBlock lanes ctx packSigned orders strategyOrder acRows acs hshift
        vshift qdc qf st blockX blockY).output = st.output ++ appended ∧
      (([1, 0, 2] : List (Fin 3)).foldl (copyChannel acRows acs hshift vshift blockX blockY)
        buffers).offset =
        (tokenizeFirstBlock lanes ctx packSigned orders strategyOrder acRows acs hshift vshift qdc
          qf st blockX blockY).offset ∧
      ∀ rest, readFirstBlock unpackSigned orders strategyOrder acs hshift vshift
        (some (buffers, appended ++ rest)) blockX blockY =
          some (([1, 0, 2] : List (Fin 3)).foldl
            (copyChannel acRows acs hshift vshift blockX blockY) buffers, rest) := by
  unfold tokenizeFirstBlock readFirstBlock
  exact foldl_read_foldl (tokenizeChannel lanes ctx packSigned orders strategyOrder acRows acs
      hshift vshift qdc qf blockX blockY) TokenizeState.output
    (fun state c => state.bind fun s => readChannel unpackSigned orders strategyOrder acs hshift
      vshift blockX blockY s c) (copyChannel acRows acs hshift vshift blockX blockY)
    (fun b s => b.offset = s.offset) _
    (fun c _ => readChannel_tokenizeChannel lanesPos dvd fits inverse c) buffers st aligned

/-- **The tokens of a rect read back.** For every lane width that divides 8, every strategy
image whose first blocks have transforms of at most `kMaxCoeffBlocks` blocks each way and scan
orders of their canonical layouts, and every `UnpackSigned` that undoes `PackSigned`: from every
tokenizer state, and buffers whose read positions are the tokenizer's, the tokens the run appends,
followed by any others, read back into the copy of the run's coefficients and leave the others;
the read positions end where the tokenizer's do. -/
theorem readCoefficients_tokenizeCoefficients (lanesPos : 0 < lanes) (dvd : lanes ∣ kBlockDim)
    (strategies : ∀ blockX blockY, acs.IsFirst blockX blockY →
      StrategyFits orders strategyOrder acs blockX blockY)
    (inverse : ∀ c, unpackSigned (packSigned c) = c) (init : TokenizeState)
    (buffers : CoefficientBuffers) (start : buffers.offset = init.offset) (rest : List Token) :
    let run : TokenizeState := tokenizeCoefficients lanes ctx packSigned orders strategyOrder acRows
      acs hshift vshift qdc qf init
    let copied : CoefficientBuffers := copyCoefficients acRows acs hshift vshift buffers
    readCoefficients unpackSigned orders strategyOrder acs hshift vshift buffers
        (run.output.drop init.output.length ++ rest) = some (copied, rest) ∧
      copied.offset = run.offset := by
  obtain ⟨appended, grows, offsets, reads⟩ := foldl_read_foldl
    (fun st a => tokenizeFirstBlock lanes ctx packSigned orders strategyOrder acRows acs hshift
      vshift qdc qf st a.1 a.2) TokenizeState.output
    (fun state a =>
      readFirstBlock unpackSigned orders strategyOrder acs hshift vshift state a.1 a.2)
    (fun b a => ([1, 0, 2] : List (Fin 3)).foldl (copyChannel acRows acs hshift vshift a.1 a.2) b)
    (fun b s => b.offset = s.offset) acs.firstBlocks
    (fun a first => readFirstBlock_tokenizeFirstBlock lanesPos dvd
      (strategies a.1 a.2 (AcStrategyImage.mem_firstBlocks.mp first)) inverse)
    buffers init start
  dsimp only
  unfold tokenizeCoefficients copyCoefficients readCoefficients
  simp only [AcStrategyImage.forEachFirstBlock_eq_foldl_firstBlocks]
  rw [grows, List.drop_left]
  exact ⟨reads rest, offsets⟩

/-- One 8×8 block whose only AC coefficient is 3/2, four lanes, the natural scan and the zigzag
`PackSigned`. -/
theorem readCoefficients_tokenizeCoefficients_dct :
    let acs : AcStrategyImage := Plane.filled 1 1 AcStrategy.dct
    let acRows : Fin 3 → ℕ → ℚ := fun _ i => if i = 9 then 3 / 2 else 0
    let init : TokenizeState := ⟨[], fun _ => Plane.filled 1 1 0, fun _ => 0, []⟩
    let buffers : CoefficientBuffers := ⟨fun _ _ => 0, fun _ => 0⟩
    (0 < 4 ∧ 4 ∣ kBlockDim ∧
      (∀ blockX blockY, acs.IsFirst blockX blockY →
        StrategyFits (fun _ _ => id) (fun _ _ => 0) acs blockX blockY) ∧
      (∀ c, unzigzag (zigzag c) = c) ∧ buffers.offset = init.offset) ∧
    let run := tokenizeCoefficients 4
      ⟨fun _ _ _ => 0, fun _ _ _ _ => 0, fun _ _ => 0, fun _ => 0, fun _ _ _ _ _ => 0⟩ zigzag
      (fun _ _ => id) (fun _ _ => 0) acRows acs 0 0 (Plane.filled 1 1 0) (Plane.filled 1 1 0) init
    let copied := copyCoefficients acRows acs 0 0 buffers
    readCoefficients unzigzag (fun _ _ => id) (fun _ _ => 0) acs 0 0 buffers
        (run.output.drop init.output.length ++ []) = some (copied, []) ∧
      copied.offset = run.offset :=
  ⟨⟨by decide, by decide, fun _ _ _ => strategyFits_filled_dct 1 1 _ _, unzigzag_zigzag, rfl⟩,
    readCoefficients_tokenizeCoefficients (by decide) (by decide)
      (fun _ _ _ => strategyFits_filled_dct 1 1 _ _) unzigzag_zigzag _ _ rfl []⟩

end RoundTrip

end JxlEncoder
