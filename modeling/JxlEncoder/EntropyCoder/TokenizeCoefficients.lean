import JxlEncoder.EntropyCoder.Tokenize

/-! # Tokenizing a rect: `TokenizeCoefficients`

`TokenizeCoefficients` walks the blocks of a rect in row-major order and, at the first block of
every transform, tokenizes its channels in the order `c = 1, 0, 2`, the chroma channels only at
the blocks of the subsampled grid. Each channel's coefficients are read one transform after the
other from `ac_rows[c] + offset[c]`, and each transform's count is stored in the counts image
`tmp_num_nzeroes`, from which the contexts of later blocks are predicted.

Over every run and from every state: each scan loop ends with `nzeros = 0`, so
`JXL_DASSERT(nzeros == 0)` holds at every block (`finalNzeros_tokenizeCoefficients`); the luma
read position moves past exactly the `64 · xsize · ysize` coefficients of the rect and the chroma
ones past at most as many (`offset_tokenizeCoefficients_luma`, `offset_tokenizeCoefficients_le`),
and no coefficient beyond those is read (`tokenizeCoefficients_congr`); and the tokens fit in the
`3 · xsize · ysize · kDCTBlockSize` that the output reserves
(`length_output_tokenizeCoefficients_le`).
-/

namespace JxlEncoder

/-- The context model of `ac_context.h` that `TokenizeCoefficients` consults, which is not among
the sources. -/
structure ContextModel where
  /-- `PredictFromTopAndLeft(row_top, row, x, 32)` on a counts plane, at row `y` and column `x`. -/
  predictFromTopAndLeft : Plane ℤ → ℕ → ℕ → ℤ
  /-- `BlockCtxMap::Context(qdc, qf, ord, c)`. -/
  blockContext : ℕ → ℤ → ℕ → Fin 3 → ℕ
  /-- `BlockCtxMap::NonZeroContext(predicted, block_ctx)`. -/
  nonZeroContext : ℤ → ℕ → ℕ
  /-- `BlockCtxMap::ZeroDensityContextsOffset(block_ctx)`. -/
  zeroDensityContextsOffset : ℕ → ℕ
  /-- `ZeroDensityContext(nonzeros_left, k, covered_blocks, log2_covered_blocks, prev)`. -/
  zeroDensityContext : ℕ → ℕ → ℕ → ℕ → ℕ → ℕ

/-- The state of `TokenizeCoefficients` between two channels: the tokens emitted, the counts
image `tmp_num_nzeroes`, the read position `offset[c]` in each channel's coefficients, and the
`nzeros` each scan loop ended with, which `JXL_DASSERT(nzeros == 0)` checks. -/
structure TokenizeState where
  output : List Token
  numNzeroes : Fin 3 → Plane ℤ
  offset : Fin 3 → ℕ
  finalNzeros : List ℤ

/-- Channel `c` of the first block at `(bx, by)` is tokenized: neither `continue` of the channel
loop is taken, so luma always and chroma where `bx` and `by` lie on the subsampled grid. -/
def ChannelVisited (hshift vshift blockX blockY : ℕ) (c : Fin 3) : Prop :=
  ¬ (c ≠ 1 ∧ blockX >>> hshift <<< hshift ≠ blockX) ∧
    ¬ (c ≠ 1 ∧ blockY >>> vshift <<< vshift ≠ blockY)

instance (hshift vshift blockX blockY : ℕ) (c : Fin 3) :
    Decidable (ChannelVisited hshift vshift blockX blockY c) :=
  inferInstanceAs (Decidable (¬ _ ∧ ¬ _))

theorem channelVisited_luma (hshift vshift blockX blockY : ℕ) :
    ChannelVisited hshift vshift blockX blockY 1 := by
  simp [ChannelVisited]

/-- The coefficients of channel `c` that the first block at `(bx, by)` moves past: the
transform's `64 · covered_blocks` when the channel is tokenized, none otherwise. -/
def visitSize (hshift vshift : ℕ) (acs : AcStrategyImage) (blockX blockY : ℕ) (c : Fin 3) : ℕ :=
  if ChannelVisited hshift vshift blockX blockY c then
    (acs.row blockY blockX).coveredBlocksX * (acs.row blockY blockX).coveredBlocksY * kDCTBlockSize
  else 0

theorem visitSize_le (hshift vshift : ℕ) (acs : AcStrategyImage) (blockX blockY : ℕ) (c : Fin 3) :
    visitSize hshift vshift acs blockX blockY c ≤
      (acs.row blockY blockX).coveredBlocksX * (acs.row blockY blockX).coveredBlocksY *
        kDCTBlockSize := by
  unfold visitSize
  split_ifs <;> omega

/-- The transform at `(bx, by)` spans at most `kMaxCoeffBlocks` blocks each way, and the order of
each channel is a scan order of its canonical layout. -/
structure StrategyFits (orders : ℕ → Fin 3 → ℕ → ℕ) (strategyOrder : ℕ → ℕ → ℕ)
    (acs : AcStrategyImage) (blockX blockY : ℕ) : Prop where
  small : (acs.row blockY blockX).coveredBlocksX ≤ kMaxCoeffBlocks ∧
    (acs.row blockY blockX).coveredBlocksY ≤ kMaxCoeffBlocks
  scan : ∀ c, IsScanOrder
    (coefficientLayout (acs.row blockY blockX).coveredBlocksY (acs.row blockY blockX).coveredBlocksX).2
    (coefficientLayout (acs.row blockY blockX).coveredBlocksY (acs.row blockY blockX).coveredBlocksX).1
    (orders (strategyOrder blockX blockY) c)

/-- Every block of a grid of 8×8 transforms fits, with the natural scan. -/
theorem strategyFits_filled_dct (xsize ysize blockX blockY : ℕ) :
    StrategyFits (fun _ _ => id) (fun _ _ => 0) (Plane.filled xsize ysize AcStrategy.dct) blockX
      blockY :=
  ⟨show AcStrategy.dct.coveredBlocksX ≤ kMaxCoeffBlocks ∧
    AcStrategy.dct.coveredBlocksY ≤ kMaxCoeffBlocks by decide, fun _ => isScanOrder_id⟩

section Tokenize

variable {F : Type} [LinearOrderedField F] [FloorRing F] (lanes : ℕ) (ctx : ContextModel)
  (packSigned : ℤ → ℕ) (orders : ℕ → Fin 3 → ℕ → ℕ) (strategyOrder : ℕ → ℕ → ℕ)
  (acRows : Fin 3 → ℕ → F) (acs : AcStrategyImage) (hshift vshift : ℕ) (qdc : Plane ℕ)
  (qf : Plane ℤ)

/-- **One channel of one first block**, the body of `for (int c : {1, 0, 2})`: skipped off the
subsampled grid for chroma; otherwise the block at `ac_rows[c] + offset[c]` is tokenized with
the counts plane of channel `c` at column `sbx` and row `by` (luma) or `sbyc` (chroma), the order
`kStrategyOrder` gives the strategy, and `offset[c]` moves past the transform's coefficients. -/
def tokenizeChannel (blockX blockY : ℕ) (st : TokenizeState) (c : Fin 3) : TokenizeState :=
  let acsBlock := acs.row blockY blockX
  let sbxc := blockX >>> hshift
  let sbyc := blockY >>> vshift
  if c ≠ 1 ∧ sbxc <<< hshift ≠ blockX then st
  else if c ≠ 1 ∧ sbyc <<< vshift ≠ blockY then st
  else
    let sbx := if c = 1 then blockX else sbxc
    let rowY := if c = 1 then blockY else sbyc
    let ord := strategyOrder blockX blockY
    let blockCtx := ctx.blockContext (qdc.row blockY blockX) (qf.row blockY sbx) ord c
    let tokenized := tokenizeBlock lanes ctx.zeroDensityContext packSigned
      (fun counts => ctx.nonZeroContext (ctx.predictFromTopAndLeft counts sbx rowY) blockCtx)
      (ctx.zeroDensityContextsOffset blockCtx) acsBlock (orders ord c)
      (fun i => acRows c (st.offset c + i)) (st.numNzeroes c) sbx rowY
    { output := st.output ++ tokenized.1
      numNzeroes := Function.update st.numNzeroes c tokenized.2.1
      offset := Function.update st.offset c
        (st.offset c + acsBlock.coveredBlocksX * acsBlock.coveredBlocksY * kDCTBlockSize)
      finalNzeros := st.finalNzeros ++ [tokenized.2.2] }

/-- The channels of the first block at `(bx, by)`, in the order `1, 0, 2`. -/
def tokenizeFirstBlock (st : TokenizeState) (blockX blockY : ℕ) : TokenizeState :=
  ([1, 0, 2] : List (Fin 3)).foldl
    (tokenizeChannel lanes ctx packSigned orders strategyOrder acRows acs hshift vshift qdc qf
      blockX blockY) st

/-- **`TokenizeCoefficients`** over the blocks of a rect, whose strategies, quantized DC and
quant field are the planes `acs`, `qdc` and `qf`, from the state `init`. -/
def tokenizeCoefficients (init : TokenizeState) : TokenizeState :=
  acs.forEachFirstBlock acs.xsize acs.ysize
    (tokenizeFirstBlock lanes ctx packSigned orders strategyOrder acRows acs hshift vshift qdc qf)
    init

variable {lanes ctx packSigned orders strategyOrder acRows acs hshift vshift qdc qf}

/-! ### One channel -/

section Channel

variable {blockX blockY : ℕ} (st : TokenizeState) {c : Fin 3}

theorem tokenizeChannel_of_not_visited (skipped : ¬ ChannelVisited hshift vshift blockX blockY c) :
    tokenizeChannel lanes ctx packSigned orders strategyOrder acRows acs hshift vshift qdc qf blockX
      blockY st c = st := by
  unfold ChannelVisited at skipped
  unfold tokenizeChannel
  by_cases first : c ≠ 1 ∧ blockX >>> hshift <<< hshift ≠ blockX
  · exact if_pos first
  · rw [if_neg first, if_pos (by tauto)]

/-- A channel moves its own read position past its transform when it is tokenized, and no other
read position. -/
theorem offset_tokenizeChannel (c' : Fin 3) :
    (tokenizeChannel lanes ctx packSigned orders strategyOrder acRows acs hshift vshift qdc qf blockX
      blockY st c).offset c' =
      st.offset c' + if c' = c then visitSize hshift vshift acs blockX blockY c else 0 := by
  by_cases visited : ChannelVisited hshift vshift blockX blockY c
  · obtain ⟨first, second⟩ := id visited
    simp only [tokenizeChannel, if_neg first, if_neg second, visitSize, if_pos visited]
    by_cases same : c' = c
    · subst same
      simp
    · simp [Function.update_noteq same, same]
  · rw [tokenizeChannel_of_not_visited st visited, visitSize, if_neg visited]
    simp

/-- A channel adds at most one token per coefficient of its transform. -/
theorem length_output_tokenizeChannel_le :
    (tokenizeChannel lanes ctx packSigned orders strategyOrder acRows acs hshift vshift qdc qf blockX
      blockY st c).output.length ≤ st.output.length + visitSize hshift vshift acs blockX blockY c := by
  by_cases visited : ChannelVisited hshift vshift blockX blockY c
  · obtain ⟨first, second⟩ := id visited
    simp only [tokenizeChannel, if_neg first, if_neg second, visitSize, if_pos visited,
      List.length_append]
    exact Nat.add_le_add_left (length_tokenizeBlock_le _ _ _ _ _ _ _ _ _) _
  · rw [tokenizeChannel_of_not_visited st visited]
    omega

/-- A channel's scan loop, when it runs, ends with `nzeros = 0`. -/
theorem finalNzeros_tokenizeChannel (lanesPos : 0 < lanes) (dvd : lanes ∣ kBlockDim)
    (fits : StrategyFits orders strategyOrder acs blockX blockY) :
    ∃ n, (tokenizeChannel lanes ctx packSigned orders strategyOrder acRows acs hshift vshift qdc qf
      blockX blockY st c).finalNzeros = st.finalNzeros ++ List.replicate n 0 := by
  by_cases visited : ChannelVisited hshift vshift blockX blockY c
  · obtain ⟨first, second⟩ := visited
    refine ⟨1, ?_⟩
    simp only [tokenizeChannel, if_neg first, if_neg second]
    rw [tokenizeBlock_final lanesPos dvd _ _ _ _ fits.small (fits.scan c)]
    rfl
  · exact ⟨0, by rw [tokenizeChannel_of_not_visited st visited, List.replicate_zero, List.append_nil]⟩

/-- A channel reads its coefficients only at the positions of its transform past its read
position. -/
theorem tokenizeChannel_congr (lanesPos : 0 < lanes) (dvd : lanes ∣ kBlockDim)
    (fits : StrategyFits orders strategyOrder acs blockX blockY) {acRows' : Fin 3 → ℕ → F}
    (same : ∀ i < visitSize hshift vshift acs blockX blockY c,
      acRows c (st.offset c + i) = acRows' c (st.offset c + i)) :
    tokenizeChannel lanes ctx packSigned orders strategyOrder acRows acs hshift vshift qdc qf blockX
        blockY st c =
      tokenizeChannel lanes ctx packSigned orders strategyOrder acRows' acs hshift vshift qdc qf
        blockX blockY st c := by
  by_cases visited : ChannelVisited hshift vshift blockX blockY c
  · obtain ⟨first, second⟩ := id visited
    rw [visitSize, if_pos visited] at same
    simp only [tokenizeChannel, if_neg first, if_neg second]
    rw [tokenizeBlock_congr lanesPos dvd _ _ _ _ fits.small (fits.scan c) same]
  · rw [tokenizeChannel_of_not_visited st visited, tokenizeChannel_of_not_visited st visited]

end Channel

/-! ### One first block -/

section FirstBlock

variable {blockX blockY : ℕ}

/-- A block moves each read position past the transform's coefficients when the channel is
tokenized. -/
theorem offset_tokenizeFirstBlock (st : TokenizeState) (c : Fin 3) :
    (tokenizeFirstBlock lanes ctx packSigned orders strategyOrder acRows acs hshift vshift qdc qf st
      blockX blockY).offset c = st.offset c + visitSize hshift vshift acs blockX blockY c := by
  simp only [tokenizeFirstBlock, List.foldl_cons, List.foldl_nil, offset_tokenizeChannel]
  fin_cases c <;> simp

/-- Over any channels, at most one token per coefficient of the transform for each. -/
theorem length_output_foldl_tokenizeChannel_le :
    ∀ (cs : List (Fin 3)) (st : TokenizeState),
      (cs.foldl (tokenizeChannel lanes ctx packSigned orders strategyOrder acRows acs hshift vshift
        qdc qf blockX blockY) st).output.length ≤
        st.output.length + cs.length * ((acs.row blockY blockX).coveredBlocksX *
          (acs.row blockY blockX).coveredBlocksY * kDCTBlockSize)
  | [], st => by simp
  | c :: cs, st => by
    have first : (tokenizeChannel lanes ctx packSigned orders strategyOrder acRows acs hshift vshift
        qdc qf blockX blockY st c).output.length ≤ st.output.length + _ :=
      length_output_tokenizeChannel_le st
    have bound := visitSize_le hshift vshift acs blockX blockY c
    have rest := length_output_foldl_tokenizeChannel_le cs
      (tokenizeChannel lanes ctx packSigned orders strategyOrder acRows acs hshift vshift qdc qf
        blockX blockY st c)
    rw [List.foldl_cons, List.length_cons, Nat.succ_mul]
    omega

/-- Over any channels, every scan loop that runs ends with `nzeros = 0`. -/
theorem finalNzeros_foldl_tokenizeChannel (lanesPos : 0 < lanes) (dvd : lanes ∣ kBlockDim)
    (fits : StrategyFits orders strategyOrder acs blockX blockY) :
    ∀ (cs : List (Fin 3)) (st : TokenizeState), ∃ n,
      (cs.foldl (tokenizeChannel lanes ctx packSigned orders strategyOrder acRows acs hshift vshift
        qdc qf blockX blockY) st).finalNzeros = st.finalNzeros ++ List.replicate n 0
  | [], st => ⟨0, by simp⟩
  | c :: cs, st => by
    obtain ⟨n, first⟩ : ∃ n, (tokenizeChannel lanes ctx packSigned orders strategyOrder acRows acs
        hshift vshift qdc qf blockX blockY st c).finalNzeros = st.finalNzeros ++ List.replicate n 0 :=
      finalNzeros_tokenizeChannel st lanesPos dvd fits
    obtain ⟨m, rest⟩ := finalNzeros_foldl_tokenizeChannel lanesPos dvd fits cs
      (tokenizeChannel lanes ctx packSigned orders strategyOrder acRows acs hshift vshift qdc qf
        blockX blockY st c)
    exact ⟨n + m, by rw [List.foldl_cons, rest, first, List.append_assoc, ← List.replicate_add]⟩

/-- Over channels that are all different, the coefficients read are those of the transform past
each channel's read position. -/
theorem foldl_tokenizeChannel_congr (lanesPos : 0 < lanes) (dvd : lanes ∣ kBlockDim)
    (fits : StrategyFits orders strategyOrder acs blockX blockY) {acRows' : Fin 3 → ℕ → F} :
    ∀ (cs : List (Fin 3)), cs.Nodup → ∀ st : TokenizeState,
      (∀ c ∈ cs, ∀ i < visitSize hshift vshift acs blockX blockY c,
        acRows c (st.offset c + i) = acRows' c (st.offset c + i)) →
      cs.foldl (tokenizeChannel lanes ctx packSigned orders strategyOrder acRows acs hshift vshift
          qdc qf blockX blockY) st =
        cs.foldl (tokenizeChannel lanes ctx packSigned orders strategyOrder acRows' acs hshift
          vshift qdc qf blockX blockY) st
  | [], _, st, _ => by rw [List.foldl_nil, List.foldl_nil]
  | c :: cs, distinct, st, same => by
    obtain ⟨fresh, distinct⟩ := List.nodup_cons.mp distinct
    rw [List.foldl_cons, List.foldl_cons, tokenizeChannel_congr st lanesPos dvd fits
      (same c (.head _))]
    refine foldl_tokenizeChannel_congr lanesPos dvd fits cs distinct _ fun c' member i inside => ?_
    have other : c' ≠ c := fun equal => fresh (equal ▸ member)
    rw [offset_tokenizeChannel, if_neg other, Nat.add_zero]
    exact same c' (.tail _ member) i inside

/-- A first block adds at most one token per coefficient of its transform for each channel. -/
theorem length_output_tokenizeFirstBlock_le (st : TokenizeState) :
    (tokenizeFirstBlock lanes ctx packSigned orders strategyOrder acRows acs hshift vshift qdc qf st
      blockX blockY).output.length ≤
      st.output.length + 3 * ((acs.row blockY blockX).coveredBlocksX *
        (acs.row blockY blockX).coveredBlocksY * kDCTBlockSize) :=
  length_output_foldl_tokenizeChannel_le _ st

/-- The scan loops of a first block all end with `nzeros = 0`. -/
theorem finalNzeros_tokenizeFirstBlock (lanesPos : 0 < lanes) (dvd : lanes ∣ kBlockDim)
    (fits : StrategyFits orders strategyOrder acs blockX blockY) (st : TokenizeState) :
    ∃ n, (tokenizeFirstBlock lanes ctx packSigned orders strategyOrder acRows acs hshift vshift qdc
      qf st blockX blockY).finalNzeros = st.finalNzeros ++ List.replicate n 0 :=
  finalNzeros_foldl_tokenizeChannel lanesPos dvd fits _ st

/-- A first block reads each channel's coefficients only over its transform past the channel's
read position. -/
theorem tokenizeFirstBlock_congr (lanesPos : 0 < lanes) (dvd : lanes ∣ kBlockDim)
    (fits : StrategyFits orders strategyOrder acs blockX blockY) {acRows' : Fin 3 → ℕ → F}
    (st : TokenizeState)
    (same : ∀ c, ∀ i < visitSize hshift vshift acs blockX blockY c,
      acRows c (st.offset c + i) = acRows' c (st.offset c + i)) :
    tokenizeFirstBlock lanes ctx packSigned orders strategyOrder acRows acs hshift vshift qdc qf st
        blockX blockY =
      tokenizeFirstBlock lanes ctx packSigned orders strategyOrder acRows' acs hshift vshift qdc qf
        st blockX blockY :=
  foldl_tokenizeChannel_congr lanesPos dvd fits _ (by decide) st fun c _ => same c

end FirstBlock

/-! ### Whole runs -/

section Run

/-- Over a tiling, the coefficients of a channel that the first blocks move past are at most the
`64 · xsize · ysize` of the rect. -/
theorem sum_visitSize_le (tiling : acs.Tiling) (c : Fin 3) :
    (acs.firstBlocks.map fun a => visitSize hshift vshift acs a.1 a.2 c).sum ≤
      acs.xsize * acs.ysize * kDCTBlockSize := by
  rw [← tiling.sum_coveredBlocks, ← List.sum_map_mul_right]
  exact List.sum_le_sum fun a _ => visitSize_le hshift vshift acs a.1 a.2 c

/-- Each read position moves past the coefficients of the channel's transforms. -/
theorem offset_tokenizeCoefficients (init : TokenizeState) (c : Fin 3) :
    (tokenizeCoefficients lanes ctx packSigned orders strategyOrder acRows acs hshift vshift qdc qf
      init).offset c =
      init.offset c + (acs.firstBlocks.map fun a => visitSize hshift vshift acs a.1 a.2 c).sum :=
  AcStrategyImage.forEachFirstBlock_eq_sum (fun st => st.offset c)
    (fun blockX blockY => visitSize hshift vshift acs blockX blockY c)
    (fun st _ _ => offset_tokenizeFirstBlock st c) init

/-- **The luma read position moves past exactly the rect's coefficients**: over every tiling, the
run reads `ac_rows[1]` over `64 · xsize · ysize` coefficients from where it starts. -/
theorem offset_tokenizeCoefficients_luma (tiling : acs.Tiling) (init : TokenizeState) :
    (tokenizeCoefficients lanes ctx packSigned orders strategyOrder acRows acs hshift vshift qdc qf
      init).offset 1 = init.offset 1 + acs.xsize * acs.ysize * kDCTBlockSize := by
  rw [offset_tokenizeCoefficients, ← tiling.sum_coveredBlocks, ← List.sum_map_mul_right]
  simp only [visitSize, if_pos (channelVisited_luma _ _ _ _)]

/-- One 8×8 block whose only AC coefficient is 3/2, four lanes and the natural scan. -/
theorem offset_tokenizeCoefficients_luma_dct :
    AcStrategyImage.Tiling (Plane.filled 1 1 AcStrategy.dct) ∧
      (tokenizeCoefficients 4 ⟨fun _ _ _ => 0, fun _ _ _ _ => 0, fun _ _ => 0, fun _ => 0, fun _ _ _ _ _ => 0⟩ Int.natAbs (fun _ _ => id) (fun _ _ => 0)
        (fun _ i => if i = 9 then (3 / 2 : ℚ) else 0) (Plane.filled 1 1 AcStrategy.dct) 0 0
        (Plane.filled 1 1 0) (Plane.filled 1 1 0)
        ⟨[], fun _ => Plane.filled 1 1 0, fun _ => 0, []⟩).offset 1 = 0 + 1 * 1 * kDCTBlockSize :=
  ⟨AcStrategyImage.tiling_filled_dct 1 1,
    offset_tokenizeCoefficients_luma (AcStrategyImage.tiling_filled_dct 1 1) _⟩

/-- **No read position moves past the rect's coefficients**: over every tiling, each channel's
read position advances by at most `64 · xsize · ysize`. -/
theorem offset_tokenizeCoefficients_le (tiling : acs.Tiling) (init : TokenizeState) (c : Fin 3) :
    (tokenizeCoefficients lanes ctx packSigned orders strategyOrder acRows acs hshift vshift qdc qf
      init).offset c ≤ init.offset c + acs.xsize * acs.ysize * kDCTBlockSize := by
  rw [offset_tokenizeCoefficients]
  exact Nat.add_le_add_left (sum_visitSize_le tiling c) _

/-- The chroma read position of the same block. -/
theorem offset_tokenizeCoefficients_le_dct :
    AcStrategyImage.Tiling (Plane.filled 1 1 AcStrategy.dct) ∧
      (tokenizeCoefficients 4 ⟨fun _ _ _ => 0, fun _ _ _ _ => 0, fun _ _ => 0, fun _ => 0, fun _ _ _ _ _ => 0⟩ Int.natAbs (fun _ _ => id) (fun _ _ => 0)
        (fun _ i => if i = 9 then (3 / 2 : ℚ) else 0) (Plane.filled 1 1 AcStrategy.dct) 0 0
        (Plane.filled 1 1 0) (Plane.filled 1 1 0)
        ⟨[], fun _ => Plane.filled 1 1 0, fun _ => 0, []⟩).offset 0 ≤ 0 + 1 * 1 * kDCTBlockSize :=
  ⟨AcStrategyImage.tiling_filled_dct 1 1,
    offset_tokenizeCoefficients_le (AcStrategyImage.tiling_filled_dct 1 1) _ 0⟩

/-- **The tokens fit in the output's reservation**: over every tiling, a run appends at most
`3 · xsize · ysize · kDCTBlockSize` tokens, the `output->reserve` of the sources. -/
theorem length_output_tokenizeCoefficients_le (tiling : acs.Tiling) (init : TokenizeState) :
    (tokenizeCoefficients lanes ctx packSigned orders strategyOrder acRows acs hshift vshift qdc qf
      init).output.length ≤ init.output.length + 3 * acs.xsize * acs.ysize * kDCTBlockSize := by
  unfold tokenizeCoefficients
  refine (AcStrategyImage.forEachFirstBlock_le_sum (fun st : TokenizeState => st.output.length)
    (fun blockX blockY => 3 * ((acs.row blockY blockX).coveredBlocksX *
      (acs.row blockY blockX).coveredBlocksY * kDCTBlockSize))
    (fun st _ _ => length_output_tokenizeFirstBlock_le st) init).trans (le_of_eq ?_)
  rw [List.sum_map_mul_left, List.sum_map_mul_right, tiling.sum_coveredBlocks]
  ring

/-- The tokens of the same block. -/
theorem length_output_tokenizeCoefficients_le_dct :
    AcStrategyImage.Tiling (Plane.filled 1 1 AcStrategy.dct) ∧
      (tokenizeCoefficients 4 ⟨fun _ _ _ => 0, fun _ _ _ _ => 0, fun _ _ => 0, fun _ => 0, fun _ _ _ _ _ => 0⟩ Int.natAbs (fun _ _ => id) (fun _ _ => 0)
        (fun _ i => if i = 9 then (3 / 2 : ℚ) else 0) (Plane.filled 1 1 AcStrategy.dct) 0 0
        (Plane.filled 1 1 0) (Plane.filled 1 1 0)
        ⟨[], fun _ => Plane.filled 1 1 0, fun _ => 0, []⟩).output.length ≤
        0 + 3 * 1 * 1 * kDCTBlockSize :=
  ⟨AcStrategyImage.tiling_filled_dct 1 1,
    length_output_tokenizeCoefficients_le (AcStrategyImage.tiling_filled_dct 1 1) _⟩

/-- **`JXL_DASSERT(nzeros == 0)` holds at every block of every run.** For every lane width that
divides 8 and every strategy image whose first blocks have transforms of at most
`kMaxCoeffBlocks` blocks each way and scan orders of their canonical layouts, from every state:
every scan loop of the run ends with `nzeros = 0`. -/
theorem finalNzeros_tokenizeCoefficients (lanesPos : 0 < lanes) (dvd : lanes ∣ kBlockDim)
    (strategies : ∀ blockX blockY, acs.IsFirst blockX blockY →
      StrategyFits orders strategyOrder acs blockX blockY)
    (init : TokenizeState) :
    ∃ n, (tokenizeCoefficients lanes ctx packSigned orders strategyOrder acRows acs hshift vshift
      qdc qf init).finalNzeros = init.finalNzeros ++ List.replicate n 0 := by
  refine AcStrategyImage.forEachFirstBlock_induction_of_isFirst
    (fun st : TokenizeState => ∃ n, st.finalNzeros = init.finalNzeros ++ List.replicate n 0)
    (fun st blockX blockY first ⟨n, before⟩ => ?_) ⟨0, by simp⟩
  obtain ⟨m, after⟩ : ∃ m, (tokenizeFirstBlock lanes ctx packSigned orders strategyOrder acRows acs
      hshift vshift qdc qf st blockX blockY).finalNzeros = st.finalNzeros ++ List.replicate m 0 :=
    finalNzeros_tokenizeFirstBlock lanesPos dvd (strategies blockX blockY first) st
  exact ⟨n + m, by rw [after, before, List.append_assoc, ← List.replicate_add]⟩

/-- The scan loops of the same block. -/
theorem finalNzeros_tokenizeCoefficients_dct :
    (0 < 4 ∧ 4 ∣ kBlockDim ∧ ∀ blockX blockY,
      AcStrategyImage.IsFirst (Plane.filled 1 1 AcStrategy.dct) blockX blockY →
        StrategyFits (fun _ _ => id) (fun _ _ => 0) (Plane.filled 1 1 AcStrategy.dct) blockX
          blockY) ∧
    ∃ n, (tokenizeCoefficients 4 ⟨fun _ _ _ => 0, fun _ _ _ _ => 0, fun _ _ => 0, fun _ => 0, fun _ _ _ _ _ => 0⟩ Int.natAbs (fun _ _ => id) (fun _ _ => 0)
        (fun _ i => if i = 9 then (3 / 2 : ℚ) else 0) (Plane.filled 1 1 AcStrategy.dct) 0 0
        (Plane.filled 1 1 0) (Plane.filled 1 1 0)
        ⟨[], fun _ => Plane.filled 1 1 0, fun _ => 0, []⟩).finalNzeros = [] ++ List.replicate n 0 :=
  ⟨⟨by decide, by decide, fun _ _ _ => strategyFits_filled_dct 1 1 _ _⟩,
    finalNzeros_tokenizeCoefficients (by decide) (by decide)
      (fun _ _ _ => strategyFits_filled_dct 1 1 _ _) _⟩

/-- **No coefficient outside the rect's is read.** For every lane width that divides 8, every
tiling whose first blocks fit and every state: two coefficient buffers that agree on the
`64 · xsize · ysize` coefficients of each channel from its read position on give the same run. -/
theorem tokenizeCoefficients_congr (lanesPos : 0 < lanes) (dvd : lanes ∣ kBlockDim)
    (tiling : acs.Tiling)
    (strategies : ∀ blockX blockY, acs.IsFirst blockX blockY →
      StrategyFits orders strategyOrder acs blockX blockY)
    {acRows' : Fin 3 → ℕ → F} (init : TokenizeState)
    (same : ∀ c i, init.offset c ≤ i → i < init.offset c + acs.xsize * acs.ysize * kDCTBlockSize →
      acRows c i = acRows' c i) :
    tokenizeCoefficients lanes ctx packSigned orders strategyOrder acRows acs hshift vshift qdc qf
        init =
      tokenizeCoefficients lanes ctx packSigned orders strategyOrder acRows' acs hshift vshift qdc
        qf init := by
  unfold tokenizeCoefficients
  rw [AcStrategyImage.forEachFirstBlock_eq_foldl_firstBlocks,
    AcStrategyImage.forEachFirstBlock_eq_foldl_firstBlocks]
  suffices run : ∀ l : List (ℕ × ℕ), (∀ a ∈ l, acs.IsFirst a.1 a.2) → ∀ st : TokenizeState,
      (∀ c i, st.offset c ≤ i →
        i < st.offset c + (l.map fun a => visitSize hshift vshift acs a.1 a.2 c).sum →
        acRows c i = acRows' c i) →
      l.foldl (fun st a => tokenizeFirstBlock lanes ctx packSigned orders strategyOrder acRows acs
          hshift vshift qdc qf st a.1 a.2) st =
        l.foldl (fun st a => tokenizeFirstBlock lanes ctx packSigned orders strategyOrder acRows'
          acs hshift vshift qdc qf st a.1 a.2) st by
    refine run _ (fun a member => AcStrategyImage.mem_firstBlocks.mp member) init
      fun c i lower inside => same c i lower ?_
    have bound : (acs.firstBlocks.map fun a => visitSize hshift vshift acs a.1 a.2 c).sum ≤
        acs.xsize * acs.ysize * kDCTBlockSize := sum_visitSize_le tiling c
    omega
  intro l
  induction l with
  | nil => exact fun _ st _ => by rw [List.foldl_nil, List.foldl_nil]
  | cons a l ih =>
    intro firsts st reads
    rw [List.foldl_cons, List.foldl_cons, tokenizeFirstBlock_congr lanesPos dvd
      (strategies _ _ (firsts a (.head _))) st fun c i inside => reads c _ (Nat.le_add_right _ _) (by
        simp only [List.map_cons, List.sum_cons]
        omega)]
    refine ih (fun b member => firsts b (.tail _ member)) _ fun c i lower inside => ?_
    rw [offset_tokenizeFirstBlock] at lower inside
    refine reads c i (by omega) ?_
    simp only [List.map_cons, List.sum_cons]
    omega

/-- One block read from position 64 of each channel, with buffers that differ before it and past
its 64 coefficients: the run does not change. -/
theorem tokenizeCoefficients_congr_dct :
    (0 < 4 ∧ 4 ∣ kBlockDim ∧ AcStrategyImage.Tiling (Plane.filled 1 1 AcStrategy.dct) ∧
      (∀ blockX blockY, AcStrategyImage.IsFirst (Plane.filled 1 1 AcStrategy.dct) blockX blockY →
        StrategyFits (fun _ _ => id) (fun _ _ => 0) (Plane.filled 1 1 AcStrategy.dct) blockX
          blockY) ∧
      ∀ (_ : Fin 3) (i : ℕ), 64 ≤ i → i < 64 + 1 * 1 * kDCTBlockSize →
        (if i < 64 then (5 : ℚ) else if i = 73 then 3 / 2 else 0) =
          if i = 73 then 3 / 2 else if i < 128 then 0 else 7) ∧
    tokenizeCoefficients 4 ⟨fun _ _ _ => 0, fun _ _ _ _ => 0, fun _ _ => 0, fun _ => 0, fun _ _ _ _ _ => 0⟩ Int.natAbs (fun _ _ => id) (fun _ _ => 0)
        (fun _ i => if i < 64 then (5 : ℚ) else if i = 73 then 3 / 2 else 0)
        (Plane.filled 1 1 AcStrategy.dct) 0 0 (Plane.filled 1 1 0) (Plane.filled 1 1 0)
        ⟨[], fun _ => Plane.filled 1 1 0, fun _ => 64, []⟩ =
      tokenizeCoefficients 4 ⟨fun _ _ _ => 0, fun _ _ _ _ => 0, fun _ _ => 0, fun _ => 0, fun _ _ _ _ _ => 0⟩ Int.natAbs (fun _ _ => id) (fun _ _ => 0)
        (fun _ i => if i = 73 then (3 / 2 : ℚ) else if i < 128 then 0 else 7)
        (Plane.filled 1 1 AcStrategy.dct) 0 0 (Plane.filled 1 1 0) (Plane.filled 1 1 0)
        ⟨[], fun _ => Plane.filled 1 1 0, fun _ => 64, []⟩ :=
  have same : ∀ (_ : Fin 3) (i : ℕ), 64 ≤ i → i < 64 + 1 * 1 * kDCTBlockSize →
      (if i < 64 then (5 : ℚ) else if i = 73 then 3 / 2 else 0) =
        if i = 73 then 3 / 2 else if i < 128 then 0 else 7 :=
    fun _ i lower inside => by
      unfold kDCTBlockSize at inside
      split_ifs <;> first | rfl | omega
  ⟨⟨by decide, by decide, AcStrategyImage.tiling_filled_dct 1 1,
      fun _ _ _ => strategyFits_filled_dct 1 1 _ _, same⟩,
    tokenizeCoefficients_congr (by decide) (by decide) (AcStrategyImage.tiling_filled_dct 1 1)
      (fun _ _ _ => strategyFits_filled_dct 1 1 _ _) _ same⟩

/-- **The lane width does not matter.** For every two lane widths that divide 8, every grid whose
first blocks fit and every state, the two runs are one: the vector path of `Lanes(df)` lanes
tokenizes the rect as the scalar path of one lane does. -/
theorem tokenizeCoefficients_lanes (lanesPos : 0 < lanes) (dvd : lanes ∣ kBlockDim) {lanes' : ℕ}
    (lanesPos' : 0 < lanes') (dvd' : lanes' ∣ kBlockDim)
    (strategies : ∀ blockX blockY, acs.IsFirst blockX blockY →
      StrategyFits orders strategyOrder acs blockX blockY) (init : TokenizeState) :
    tokenizeCoefficients lanes ctx packSigned orders strategyOrder acRows acs hshift vshift qdc qf
        init =
      tokenizeCoefficients lanes' ctx packSigned orders strategyOrder acRows acs hshift vshift qdc
        qf init := by
  unfold tokenizeCoefficients
  rw [AcStrategyImage.forEachFirstBlock_eq_foldl_firstBlocks,
    AcStrategyImage.forEachFirstBlock_eq_foldl_firstBlocks]
  refine List.foldl_ext _ _ _ fun st a member => ?_
  have small := (strategies a.1 a.2 (AcStrategyImage.mem_firstBlocks.mp member)).small
  unfold tokenizeFirstBlock
  congr 1
  funext st c
  simp only [tokenizeChannel, tokenizeBlock_lanes lanesPos dvd lanesPos' dvd' _ _ _ _ small]

/-- One 8×8 block with a single AC coefficient of 3/2: four lanes and one lane give one run. -/
theorem tokenizeCoefficients_lanes_dct :
    (0 < 4 ∧ 4 ∣ kBlockDim ∧ 0 < 1 ∧ 1 ∣ kBlockDim ∧
      ∀ blockX blockY, AcStrategyImage.IsFirst (Plane.filled 1 1 AcStrategy.dct) blockX blockY →
        StrategyFits (fun _ _ => id) (fun _ _ => 0) (Plane.filled 1 1 AcStrategy.dct) blockX
          blockY) ∧
    tokenizeCoefficients 4 ⟨fun _ _ _ => 0, fun _ _ _ _ => 0, fun _ _ => 0, fun _ => 0, fun _ _ _ _ _ => 0⟩ Int.natAbs (fun _ _ => id) (fun _ _ => 0)
        (fun _ i => if i = 9 then (3 / 2 : ℚ) else 0) (Plane.filled 1 1 AcStrategy.dct) 0 0
        (Plane.filled 1 1 0) (Plane.filled 1 1 0) ⟨[], fun _ => Plane.filled 1 1 0, fun _ => 0, []⟩ =
      tokenizeCoefficients 1 ⟨fun _ _ _ => 0, fun _ _ _ _ => 0, fun _ _ => 0, fun _ => 0, fun _ _ _ _ _ => 0⟩ Int.natAbs (fun _ _ => id) (fun _ _ => 0)
        (fun _ i => if i = 9 then (3 / 2 : ℚ) else 0) (Plane.filled 1 1 AcStrategy.dct) 0 0
        (Plane.filled 1 1 0) (Plane.filled 1 1 0) ⟨[], fun _ => Plane.filled 1 1 0, fun _ => 0, []⟩ :=
  ⟨⟨by decide, by decide, by decide, by decide, fun _ _ _ => strategyFits_filled_dct 1 1 _ _⟩,
    tokenizeCoefficients_lanes (by decide) (by decide) (by decide) (by decide)
      (fun _ _ _ => strategyFits_filled_dct 1 1 _ _) _⟩

end Run

end Tokenize

end JxlEncoder
