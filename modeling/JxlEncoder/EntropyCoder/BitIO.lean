import Mathlib

/-! # Bits on the wire

The headers of the entropy coder are written with `BitWriter::Write(n, v)`, which appends the
`n` low bits of `v` least significant first, and read back with `BitReader::ReadFixedBits<n>()`,
which reads them in the same order and reads zeros past the end of the stream. A list of values
is written one value after the other, each write checked with `JXL_CHECK`, and read back value by
value once its length is known.

A value below `2^n` written with `n` bits reads back as itself (`readBits_writeBits`), a list
whose every value reads back reads back as the list (`readList_writeAll`), and whatever follows
in the stream is left for the next read.
-/

namespace JxlEncoder

/-- `BitWriter::Write(n, v)`: the `n` low bits of `v`, least significant first. -/
def writeBits : ℕ → ℕ → List Bool
  | 0, _ => []
  | n + 1, v => decide (v % 2 = 1) :: writeBits n (v / 2)

/-- `BitReader::ReadFixedBits<n>()`: the next `n` bits as a number, least significant first,
reading zeros past the end; returns the rest of the stream alongside. -/
def readBits : ℕ → List Bool → ℕ × List Bool
  | 0, bits => (0, bits)
  | n + 1, bits =>
    let rest := readBits n bits.tail
    ((bits.headD false).toNat + 2 * rest.1, rest.2)

@[simp] theorem length_writeBits (n v : ℕ) : (writeBits n v).length = n := by
  induction n generalizing v with
  | zero => rfl
  | succ n ih => simp [writeBits, ih]

theorem toNat_decide_mod_two (v : ℕ) : (decide (v % 2 = 1)).toNat = v % 2 := by
  rcases Nat.mod_two_eq_zero_or_one v with parity | parity <;> simp [parity]

/-- **A fixed-width write reads back** as the value modulo `2^n`, and the stream after it is
left as it was. -/
theorem readBits_writeBits (n v : ℕ) (rest : List Bool) :
    readBits n (writeBits n v ++ rest) = (v % 2 ^ n, rest) := by
  induction n generalizing v with
  | zero => simp [readBits, writeBits, Nat.mod_one]
  | succ n ih =>
    simp only [writeBits, readBits, List.cons_append, List.tail_cons, List.headD_cons, ih,
      toNat_decide_mod_two, Nat.pow_succ', Nat.mod_mul]

/-- Every fixed-width read is below `2^n`. -/
theorem readBits_lt (n : ℕ) (bits : List Bool) : (readBits n bits).1 < 2 ^ n := by
  induction n generalizing bits with
  | zero => simp [readBits]
  | succ n ih =>
    have bit : (bits.headD false).toNat ≤ 1 := Bool.toNat_le _
    have below := ih bits.tail
    simp only [readBits, Nat.pow_succ]
    omega

section Lists

variable {α : Type}

/-- A list of values written one after the other; a write that fails (`JXL_CHECK`) fails the
whole. -/
def writeAll (write : α → Option (List Bool)) : List α → Option (List Bool)
  | [] => some []
  | a :: as => do
    let bits ← write a
    let rest ← writeAll write as
    pure (bits ++ rest)

/-- `n` values read one after the other. -/
def readList (read : List Bool → α × List Bool) : ℕ → List Bool → List α × List Bool
  | 0, bits => ([], bits)
  | n + 1, bits =>
    let first := read bits
    let rest := readList read n first.2
    (first.1 :: rest.1, rest.2)

@[simp] theorem length_readList (read : List Bool → α × List Bool) (n : ℕ) (bits : List Bool) :
    (readList read n bits).1.length = n := by
  induction n generalizing bits with
  | zero => rfl
  | succ n ih => simp [readList, ih]

/-- A list writes when each of its values does. -/
theorem exists_writeAll (write : α → Option (List Bool)) :
    ∀ l : List α, (∀ a ∈ l, ∃ bits, write a = some bits) → ∃ bits, writeAll write l = some bits
  | [], _ => ⟨[], rfl⟩
  | a :: as, writes => by
    obtain ⟨first, wrote⟩ := writes a (.head _)
    obtain ⟨rest, wroteRest⟩ := exists_writeAll write as fun b member => writes b (.tail _ member)
    exact ⟨first ++ rest, by simp [writeAll, wrote, wroteRest]⟩

/-- **A list whose every value reads back reads back**, with the stream after it left as it
was. -/
theorem readList_writeAll {write : α → Option (List Bool)} {read : List Bool → α × List Bool} :
    ∀ (l : List α), (∀ a ∈ l, ∀ bits rest, write a = some bits → read (bits ++ rest) = (a, rest)) →
      ∀ (bits rest : List Bool), writeAll write l = some bits →
        readList read l.length (bits ++ rest) = (l, rest)
  | [], _, bits, rest, wrote => by
    cases wrote
    rfl
  | a :: as, inverse, bits, rest, wrote => by
    simp only [writeAll, Option.bind_eq_bind, Option.bind_eq_some, Option.pure_def,
      Option.some.injEq] at wrote
    obtain ⟨first, wroteFirst, others, wroteOthers, rfl⟩ := wrote
    simp only [List.length_cons, readList, List.append_assoc,
      inverse a (.head _) first _ wroteFirst,
      readList_writeAll as (fun b member => inverse b (.tail _ member)) others rest wroteOthers]

end Lists

end JxlEncoder
