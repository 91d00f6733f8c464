import JxlEncoder.EntropyCoder.BitIO

/-! # The block context map on the wire: `EncodeBlockCtxMap` and `DecodeBlockCtxMap`

The block context map assigns an entropy context to each combination of channel, transform
order, DC bucket and quant-field bucket. The encoder writes one bit for the default map; any
other map is written explicitly: for each channel the count and the values of its DC thresholds
(`PackSigned`, `U32Coder` with `kDCThresholdDist`), the count and the values of the quant-field
thresholds (less one, `kQFThresholdDist`), and the context map (`EncodeContextMap`). The decoder
reads the same fields back and rejects maps with more than 64 DC-and-quant-field buckets or
more than 16 contexts.

`U32Coder`, `PackSigned`, `EncodeContextMap` and `kDefaultCtxMap` are not among the sources; the
model takes them as parameters (`BlockCtxCoding`), and the round trip
(`decodeBlockCtxMap_encodeBlockCtxMap`) assumes that they invert each other
(`BlockCtxCoding.Inverse`). `referenceCoding` is one coding that does.
-/

namespace JxlEncoder

/-- `BlockCtxMap::kNumStrategyOrders`: the default map has `3 · 7 = 21` entries. -/
def kNumStrategyOrders : ℕ := 7

/-- **The block context map** (`BlockCtxMap`): the DC thresholds of each channel, the
quant-field thresholds, the context map, and the numbers of contexts and of DC buckets. -/
structure BlockCtxMap where
  dcThresholds : Fin 3 → List ℤ
  qfThresholds : List ℕ
  ctxMap : List ℕ
  numCtxs : ℕ
  numDcCtxs : ℕ

/-- The number of contexts of a context map as `DecodeContextMap` recovers it: the largest entry
plus one. -/
def contextCount (ctxMap : List ℕ) : ℕ := ctxMap.foldr max 0 + 1

theorem lt_contextCount {ctxMap : List ℕ} {c : ℕ} (member : c ∈ ctxMap) : c < contextCount ctxMap := by
  induction ctxMap with
  | nil => cases member
  | cons d ctxMap ih =>
    simp only [contextCount, List.foldr_cons] at ih ⊢
    rcases List.mem_cons.mp member with rfl | tail
    · exact Nat.lt_succ_of_le (le_max_left _ _)
    · exact (ih tail).trans_le (Nat.succ_le_succ (le_max_right _ _))

/-- A `U32Coder` with a fixed distribution: `Write` fails on a value the distribution cannot
represent, `Read` reads one value. -/
structure U32Coder where
  write : ℕ → Option (List Bool)
  read : List Bool → ℕ × List Bool

/-- A value that writes reads back, with the rest of the stream left as it was. -/
def U32Coder.Inverse (coder : U32Coder) : Prop :=
  ∀ v bits rest, coder.write v = some bits → coder.read (bits ++ rest) = (v, rest)

/-- What the two functions use and the sources do not define: `U32Coder` with
`kDCThresholdDist` and `kQFThresholdDist`, `PackSigned` and `UnpackSigned`, `EncodeContextMap`
and `DecodeContextMap` (which reads a map of a given size and its number of contexts), and
`kDefaultCtxMap` with its `3 · kNumStrategyOrders` entries. -/
structure BlockCtxCoding where
  dcThresholdDist : U32Coder
  qfThresholdDist : U32Coder
  packSigned : ℤ → ℕ
  unpackSigned : ℕ → ℤ
  encodeContextMap : List ℕ → ℕ → List Bool
  decodeContextMap : ℕ → List Bool → Option (List ℕ × ℕ × List Bool)
  kDefaultCtxMap : List ℕ
  kDefaultCtxMap_length : kDefaultCtxMap.length = 3 * kNumStrategyOrders

/-- The coders invert each other: `U32Coder::Read` reads what `Write` wrote, `UnpackSigned`
undoes `PackSigned`, and `DecodeContextMap` reads back a map of bytes with its number of
contexts. -/
structure BlockCtxCoding.Inverse (coding : BlockCtxCoding) : Prop where
  dcThresholdDist : coding.dcThresholdDist.Inverse
  qfThresholdDist : coding.qfThresholdDist.Inverse
  unpackSigned_packSigned : ∀ i, coding.unpackSigned (coding.packSigned i) = i
  decodeContextMap_encodeContextMap : ∀ ctxMap rest, (∀ c ∈ ctxMap, c < 256) →
    coding.decodeContextMap ctxMap.length
        (coding.encodeContextMap ctxMap (contextCount ctxMap) ++ rest) =
      some (ctxMap, contextCount ctxMap, rest)

variable (coding : BlockCtxCoding)

/-- `BlockCtxMap()`: no thresholds, `kDefaultCtxMap`, its number of contexts, one DC bucket. -/
def BlockCtxCoding.defaultMap : BlockCtxMap :=
  ⟨fun _ => [], [], coding.kDefaultCtxMap, contextCount coding.kDefaultCtxMap, 1⟩

/-- The encoder's test for the default map: no thresholds, and a context map of 21 entries equal
to `kDefaultCtxMap`. -/
def BlockCtxMap.IsDefault (m : BlockCtxMap) : Prop :=
  m.dcThresholds 0 = [] ∧ m.dcThresholds 1 = [] ∧ m.dcThresholds 2 = [] ∧ m.qfThresholds = [] ∧
    m.ctxMap.length = 21 ∧ m.ctxMap = coding.kDefaultCtxMap

instance (m : BlockCtxMap) : Decidable (m.IsDefault coding) :=
  inferInstanceAs (Decidable (_ ∧ _ ∧ _ ∧ _ ∧ _ ∧ _))

/-- One channel's DC thresholds: their count in 4 bits, then each `PackSigned` value. -/
def writeDcThresholds (thresholds : List ℤ) : Option (List Bool) := do
  let values ← writeAll (fun i => coding.dcThresholdDist.write (coding.packSigned i)) thresholds
  pure (writeBits 4 thresholds.length ++ values)

/-- **`EncodeBlockCtxMap`**: the bit 1 for the default map; otherwise the bit 0, the DC
thresholds of the three channels, the quant-field thresholds less one, and the context map. -/
def encodeBlockCtxMap (m : BlockCtxMap) : Option (List Bool) :=
  if m.IsDefault coding then some (writeBits 1 1)
  else do
    let dct ← writeAll (writeDcThresholds coding)
      [m.dcThresholds 0, m.dcThresholds 1, m.dcThresholds 2]
    let qft ← writeAll (fun i => coding.qfThresholdDist.write (i - 1)) m.qfThresholds
    pure (writeBits 1 0 ++ dct ++ writeBits 4 m.qfThresholds.length ++ qft ++
      coding.encodeContextMap m.ctxMap m.numCtxs)

/-- One channel's DC thresholds: the count in 4 bits, then `UnpackSigned(U32Coder::Read)` for
each. -/
def readDcThresholds (bits : List Bool) : List ℤ × List Bool :=
  let size := readBits 4 bits
  readList (fun bits =>
    let value := coding.dcThresholdDist.read bits
    (coding.unpackSigned value.1, value.2)) size.1 size.2

/-- The quant-field thresholds: the count in 4 bits, then `U32Coder::Read + 1` for each. -/
def readQfThresholds (bits : List Bool) : List ℕ × List Bool :=
  let size := readBits 4 bits
  readList (fun bits =>
    let value := coding.qfThresholdDist.read bits
    (value.1 + 1, value.2)) size.1 size.2

/-- **`DecodeBlockCtxMap`**: the map and the rest of the stream, or `none` for
`JXL_FAILURE`. `num_dc_ctxs` is the product of the channels' threshold counts plus one, and the
context map read has `3 · kNumStrategyOrders · num_dc_ctxs · (|qf_thresholds| + 1)` entries. -/
def decodeBlockCtxMap (bits : List Bool) : Option (BlockCtxMap × List Bool) :=
  let isDefault := readBits 1 bits
  if isDefault.1 ≠ 0 then some (coding.defaultMap, isDefault.2)
  else
    let dct := readList (readDcThresholds coding) 3 isDefault.2
    let numDcCtxs := dct.1.foldl (fun n thresholds => n * (thresholds.length + 1)) 1
    let qft := readQfThresholds coding dct.2
    if numDcCtxs * (qft.1.length + 1) > 64 then none
    else
      match coding.decodeContextMap (3 * kNumStrategyOrders * numDcCtxs * (qft.1.length + 1)) qft.2 with
      | none => none
      | some (ctxMap, numCtxs, rest) =>
        if numCtxs > 16 then none
        else some (⟨fun j => dct.1.getD j [], qft.1, ctxMap, numCtxs, numDcCtxs⟩, rest)

/-- The maps the encoder can write and the decoder accepts: at most 15 thresholds a list,
quant-field thresholds at least 1 and each representable, `num_dc_ctxs` the product of the
counts plus one, at most 64 buckets, a context map of the size the buckets give, and at most 16
contexts, counted as `DecodeContextMap` counts them. -/
structure BlockCtxMap.Valid (m : BlockCtxMap) : Prop where
  dcLength : ∀ j, (m.dcThresholds j).length ≤ 15
  qfLength : m.qfThresholds.length ≤ 15
  qfPositive : ∀ i ∈ m.qfThresholds, 1 ≤ i
  dcRepresentable : ∀ j, ∀ i ∈ m.dcThresholds j,
    ∃ bits, coding.dcThresholdDist.write (coding.packSigned i) = some bits
  qfRepresentable : ∀ i ∈ m.qfThresholds, ∃ bits, coding.qfThresholdDist.write (i - 1) = some bits
  numDcCtxs : m.numDcCtxs =
    ((m.dcThresholds 0).length + 1) * ((m.dcThresholds 1).length + 1) *
      ((m.dcThresholds 2).length + 1)
  buckets : m.numDcCtxs * (m.qfThresholds.length + 1) ≤ 64
  ctxMapLength : m.ctxMap.length =
    3 * kNumStrategyOrders * m.numDcCtxs * (m.qfThresholds.length + 1)
  numCtxs : m.numCtxs = contextCount m.ctxMap
  numCtxsLe : m.numCtxs ≤ 16

section RoundTrip

variable {coding} {m : BlockCtxMap} (valid : m.Valid coding)
include valid

/-- A valid map is equal to `BlockCtxMap()` when it passes the encoder's default test. -/
theorem eq_defaultMap (isDefault : m.IsDefault coding) : m = coding.defaultMap := by
  obtain ⟨dc0, dc1, dc2, qf, -, ctxMap⟩ := isDefault
  have numCtxs := valid.numCtxs
  have numDcCtxs := valid.numDcCtxs
  rw [dc0, dc1, dc2] at numDcCtxs
  rw [ctxMap] at numCtxs
  cases m
  simp only [BlockCtxCoding.defaultMap, BlockCtxMap.mk.injEq] at *
  refine ⟨funext fun j => ?_, qf, ctxMap, numCtxs, numDcCtxs⟩
  fin_cases j <;> assumption

variable (inverse : coding.Inverse)
include inverse

/-- A channel's thresholds read back. -/
theorem readDcThresholds_writeDcThresholds (j : Fin 3) {bits : List Bool}
    (wrote : writeDcThresholds coding (m.dcThresholds j) = some bits) (rest : List Bool) :
    readDcThresholds coding (bits ++ rest) = (m.dcThresholds j, rest) := by
  simp only [writeDcThresholds, Option.bind_eq_bind, Option.bind_eq_some, Option.pure_def,
    Option.some.injEq] at wrote
  obtain ⟨values, wroteValues, rfl⟩ := wrote
  rw [readDcThresholds, List.append_assoc, readBits_writeBits,
    Nat.mod_eq_of_lt (by have := valid.dcLength j; omega)]
  exact readList_writeAll _ (fun i _ bits rest wrote => by
    simp only [inverse.dcThresholdDist _ bits rest wrote, inverse.unpackSigned_packSigned]) _ _
    wroteValues

/-- The DC thresholds of the three channels read back. -/
theorem readList_writeDcThresholds {bits : List Bool}
    (wrote : writeAll (writeDcThresholds coding)
      [m.dcThresholds 0, m.dcThresholds 1, m.dcThresholds 2] = some bits) (rest : List Bool) :
    readList (readDcThresholds coding) 3 (bits ++ rest) =
      ([m.dcThresholds 0, m.dcThresholds 1, m.dcThresholds 2], rest) := by
  refine readList_writeAll _ (fun thresholds member bits rest wrote => ?_) _ _ wrote
  simp only [List.mem_cons, List.mem_singleton, List.not_mem_nil, or_false] at member
  rcases member with rfl | rfl | rfl <;>
    exact readDcThresholds_writeDcThresholds valid inverse _ wrote rest

/-- The quant-field thresholds read back: each was written less one. -/
theorem readQfThresholds_writeQfThresholds {bits : List Bool}
    (wrote : writeAll (fun i => coding.qfThresholdDist.write (i - 1)) m.qfThresholds = some bits)
    (rest : List Bool) :
    readQfThresholds coding (writeBits 4 m.qfThresholds.length ++ (bits ++ rest)) =
      (m.qfThresholds, rest) := by
  rw [readQfThresholds, readBits_writeBits,
    Nat.mod_eq_of_lt (by have := valid.qfLength; omega)]
  exact readList_writeAll _ (fun i member bits rest wrote => by
    simp only [inverse.qfThresholdDist _ bits rest wrote,
      Nat.sub_add_cancel (valid.qfPositive i member)]) _ _ wrote

/-- **The block context map round-trips.** For every coding whose coders invert each other and
every valid map, `EncodeBlockCtxMap` succeeds; it writes the single bit 1 for the default map and
starts with the bit 0 otherwise; and `DecodeBlockCtxMap` reads the map back, field for field,
leaving whatever follows in the stream. -/
theorem decodeBlockCtxMap_encodeBlockCtxMap :
    ∃ bits, encodeBlockCtxMap coding m = some bits ∧
      (m.IsDefault coding → bits = [true]) ∧ (¬ m.IsDefault coding → bits.head? = some false) ∧
      ∀ rest, decodeBlockCtxMap coding (bits ++ rest) = some (m, rest) := by
  by_cases isDefault : m.IsDefault coding
  · refine ⟨[true], by simp [encodeBlockCtxMap, isDefault, writeBits], fun _ => rfl,
      fun notDefault => absurd isDefault notDefault, fun rest => ?_⟩
    rw [eq_defaultMap valid isDefault]
    simp [decodeBlockCtxMap, readBits]
  · obtain ⟨dct, wroteDc⟩ := exists_writeAll (writeDcThresholds coding)
      [m.dcThresholds 0, m.dcThresholds 1, m.dcThresholds 2] fun thresholds member => by
        simp only [List.mem_cons, List.mem_singleton, List.not_mem_nil, or_false] at member
        obtain ⟨values, wrote⟩ := exists_writeAll
          (fun i => coding.dcThresholdDist.write (coding.packSigned i)) thresholds fun i inList => by
            rcases member with rfl | rfl | rfl <;> exact valid.dcRepresentable _ i inList
        exact ⟨writeBits 4 thresholds.length ++ values, by simp [writeDcThresholds, wrote]⟩
    obtain ⟨qft, wroteQf⟩ := exists_writeAll (fun i => coding.qfThresholdDist.write (i - 1))
      m.qfThresholds valid.qfRepresentable
    refine ⟨writeBits 1 0 ++ dct ++ writeBits 4 m.qfThresholds.length ++ qft ++
        coding.encodeContextMap m.ctxMap m.numCtxs, by simp [encodeBlockCtxMap, isDefault, wroteDc, wroteQf],
      fun absurdDefault => absurd absurdDefault isDefault, fun _ => by simp [writeBits],
      fun rest => ?_⟩
    have bytes : ∀ c ∈ m.ctxMap, c < 256 := fun c member =>
      (lt_contextCount member).trans_le (valid.numCtxs ▸ valid.numCtxsLe.trans (by decide))
    have products : [m.dcThresholds 0, m.dcThresholds 1, m.dcThresholds 2].foldl
        (fun n thresholds => n * (thresholds.length + 1)) 1 = m.numDcCtxs := by
      simp [valid.numDcCtxs]
    simp only [decodeBlockCtxMap, List.append_assoc, readBits_writeBits, Nat.zero_mod, ne_eq,
      not_true_eq_false, if_false, readList_writeDcThresholds valid inverse wroteDc, products,
      readQfThresholds_writeQfThresholds valid inverse wroteQf, gt_iff_lt,
      not_lt.mpr valid.buckets, ← valid.ctxMapLength, valid.numCtxs,
      inverse.decodeContextMap_encodeContextMap _ _ bytes, not_lt.mpr (valid.numCtxs ▸ valid.numCtxsLe)]
    rw [← valid.numCtxs]
    congr
    funext j
    fin_cases j <;> rfl

end RoundTrip

/-! ### A coding whose coders invert each other

Thirty-two bits for every threshold, `PackSigned` as the zigzag map, and the context map one byte
an entry. -/

/-- A `U32Coder` that writes every value below `2^32` in 32 bits. -/
def U32Coder.bits32 : U32Coder :=
  ⟨fun v => if v < 2 ^ 32 then some (writeBits 32 v) else none, readBits 32⟩

theorem U32Coder.inverse_bits32 : U32Coder.bits32.Inverse := fun v bits rest wrote => by
  simp only [U32Coder.bits32] at wrote ⊢
  split_ifs at wrote with small
  cases wrote
  rw [readBits_writeBits, Nat.mod_eq_of_lt small]

/-- The zigzag map `0, -1, 1, -2, … ↦ 0, 1, 2, 3, …` and its inverse. -/
def zigzag (i : ℤ) : ℕ := if 0 ≤ i then 2 * i.toNat else 2 * (-i).toNat - 1

def unzigzag (u : ℕ) : ℤ := if u % 2 = 0 then ((u / 2 : ℕ) : ℤ) else -(((u + 1) / 2 : ℕ) : ℤ)

theorem unzigzag_zigzag (i : ℤ) : unzigzag (zigzag i) = i := by
  unfold zigzag unzigzag
  split_ifs <;> omega

/-- The context map one byte an entry, read back with its number of contexts. -/
def writeBytes (ctxMap : List ℕ) (_ : ℕ) : List Bool :=
  (writeAll (fun c => some (writeBits 8 c)) ctxMap).getD []

def readBytes (size : ℕ) (bits : List Bool) : Option (List ℕ × ℕ × List Bool) :=
  let ctxMap := readList (readBits 8) size bits
  some (ctxMap.1, contextCount ctxMap.1, ctxMap.2)

/-- The reference coding. -/
def referenceCoding : BlockCtxCoding :=
  ⟨U32Coder.bits32, U32Coder.bits32, zigzag, unzigzag, writeBytes, readBytes, List.replicate 21 0,
    by simp [kNumStrategyOrders]⟩

theorem inverse_referenceCoding : referenceCoding.Inverse where
  dcThresholdDist := U32Coder.inverse_bits32
  qfThresholdDist := U32Coder.inverse_bits32
  unpackSigned_packSigned := unzigzag_zigzag
  decodeContextMap_encodeContextMap ctxMap rest bytes := by
    obtain ⟨bits, wrote⟩ := exists_writeAll (fun c => some (writeBits 8 c)) ctxMap
      fun c _ => ⟨_, rfl⟩
    have read : readList (readBits 8) ctxMap.length (bits ++ rest) = (ctxMap, rest) :=
      readList_writeAll ctxMap (fun c member bits rest wrote => by
      cases wrote
      rw [readBits_writeBits, Nat.mod_eq_of_lt (lt_of_lt_of_le (bytes c member) (by decide))]) bits rest wrote
    simp [referenceCoding, writeBytes, readBytes, wrote, read]

/-- One DC threshold on the first channel and one quant-field threshold: two DC buckets, two
quant-field buckets, and a context map of `3 · 7 · 2 · 2` entries all 0. -/
def twoBucketMap : BlockCtxMap :=
  ⟨fun j => if j = 0 then [-1] else [], [2], List.replicate 84 0, 1, 2⟩

theorem valid_twoBucketMap : twoBucketMap.Valid referenceCoding where
  dcLength := by decide
  qfLength := by decide
  qfPositive := by decide
  dcRepresentable j i member := ⟨writeBits 32 (zigzag i), if_pos (by
    fin_cases j <;> simp_all [twoBucketMap, referenceCoding, zigzag])⟩
  qfRepresentable i member := ⟨writeBits 32 (i - 1), if_pos (by
    simp_all [twoBucketMap])⟩
  numDcCtxs := by decide
  buckets := by decide
  ctxMapLength := by simp [twoBucketMap, kNumStrategyOrders]
  numCtxs := by
    have zeros : ∀ n, (List.replicate n 0).foldr max 0 = 0 := fun n => by
      induction n <;> simp_all [List.replicate_succ]
    simp [twoBucketMap, contextCount, zeros]
  numCtxsLe := by decide

/-- The round trip of `twoBucketMap` with the reference coding. -/
theorem decodeBlockCtxMap_encodeBlockCtxMap_twoBucketMap :
    referenceCoding.Inverse ∧ twoBucketMap.Valid referenceCoding ∧
      ∃ bits, encodeBlockCtxMap referenceCoding twoBucketMap = some bits ∧
        (twoBucketMap.IsDefault referenceCoding → bits = [true]) ∧
        (¬ twoBucketMap.IsDefault referenceCoding → bits.head? = some false) ∧
        ∀ rest, decodeBlockCtxMap referenceCoding (bits ++ rest) = some (twoBucketMap, rest) :=
  ⟨inverse_referenceCoding, valid_twoBucketMap,
    decodeBlockCtxMap_encodeBlockCtxMap valid_twoBucketMap inverse_referenceCoding⟩

end JxlEncoder
