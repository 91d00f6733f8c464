import Mathlib

/-! # Single-precision values over exact arithmetic

The adaptive quantization computes in `float`, and on some inputs it leaves the finite values:
`RatioOfDerivativesOfCubicRootToSimpleGamma` divides by a numerator that the clamp at 0 makes 0,
`std::log` of a zero sum is `-inf`, and `0 · inf` is `NaN`. The model keeps exact arithmetic for
the finite values and keeps the others: a `FloatVal F` is a finite value of `F`, an infinity of
either sign, or `NaN` (IEEE 754 §3.4, without NaN payloads, signed zeros or rounding).

The operations are those of IEEE 754 on these values: a NaN operand gives NaN; `inf - inf`,
`0 · inf`, `0 / 0` and `inf / inf` give NaN; a non-zero finite value over 0 is an infinity of its
sign; every comparison with NaN is false. `std::min` and `std::max` are the conditional
expressions of `<algorithm>`, which return their first argument when the comparison is false.
-/

namespace JxlEncoder

/-- A `float` over exact arithmetic: `fin v`, `inf negative`, or `nan`. -/
inductive FloatVal (F : Type)
  | fin (v : F)
  | inf (negative : Bool)
  | nan
  deriving DecidableEq

namespace FloatVal

variable {F : Type}

/-- An update `*out_pos += d` by a finite amount, given as `f = (· + d)` on the finite values:
infinities and NaN are kept. -/
def map (f : F → F) : FloatVal F → FloatVal F
  | fin a => fin (f a)
  | v => v

@[simp] theorem map_fin (f : F → F) (a : F) : map f (fin a) = fin (f a) := rfl

@[simp] theorem map_nan (f : F → F) : map f (nan : FloatVal F) = nan := rfl

variable [LinearOrderedField F]

/-- IEEE addition: an infinity absorbs finite values, and infinities of opposite signs give NaN. -/
def add : FloatVal F → FloatVal F → FloatVal F
  | fin a, fin b => fin (a + b)
  | fin _, inf s => inf s
  | inf s, fin _ => inf s
  | inf s, inf t => if s = t then inf s else nan
  | _, _ => nan

/-- IEEE multiplication: an infinite product has the exclusive or of the signs, and `0 · inf` is
NaN. -/
def mul : FloatVal F → FloatVal F → FloatVal F
  | fin a, fin b => fin (a * b)
  | fin a, inf s => if a = 0 then nan else inf (s != decide (a < 0))
  | inf s, fin a => if a = 0 then nan else inf (s != decide (a < 0))
  | inf s, inf t => inf (s != t)
  | _, _ => nan

/-- IEEE division by `+0` and by infinities: a non-zero value over 0 is an infinity of its sign,
`0 / 0` and `inf / inf` are NaN, and a finite value over an infinity is 0. -/
def div : FloatVal F → FloatVal F → FloatVal F
  | fin a, fin b => if b = 0 then (if a = 0 then nan else inf (decide (a < 0))) else fin (a / b)
  | fin _, inf _ => fin 0
  | inf s, fin b => inf (s != decide (b < 0))
  | _, _ => nan

instance : Add (FloatVal F) := ⟨add⟩

instance : Mul (FloatVal F) := ⟨mul⟩

instance : Div (FloatVal F) := ⟨div⟩

/-- IEEE `<`: the order of the extended line, and false whenever an operand is NaN. -/
def lt : FloatVal F → FloatVal F → Bool
  | fin a, fin b => decide (a < b)
  | fin _, inf s => !s
  | inf s, fin _ => s
  | inf s, inf t => s && !t
  | _, _ => false

instance : LT (FloatVal F) := ⟨fun a b => lt a b = true⟩

instance (a b : FloatVal F) : Decidable (a < b) := inferInstanceAs (Decidable (lt a b = true))

/-- `std::min(a, b)`, that is `(b < a) ? b : a`: `a` when `b` is NaN. -/
def stdMin (a b : FloatVal F) : FloatVal F := if b < a then b else a

/-- `std::max(a, b)`, that is `(a < b) ? b : a`: `a` when either is NaN. -/
def stdMax (a b : FloatVal F) : FloatVal F := if a < b then b else a

/-- `std::exp` with `exp` on the finite values: `exp(-inf) = 0` and `exp(inf) = inf`. -/
def exp (exp : F → F) : FloatVal F → FloatVal F
  | fin a => fin (exp a)
  | inf false => inf false
  | inf true => fin 0
  | nan => nan

/-- `std::log` with `log` on the positive values: `log(0) = -inf`, NaN below 0 and at `-inf`,
and `log(inf) = inf`. -/
def log (log : F → F) : FloatVal F → FloatVal F
  | fin a => if 0 < a then fin (log a) else if a = 0 then inf true else nan
  | inf false => inf false
  | _ => nan

/-- `std::sqrt` with `sqrt` on the values that are not negative: NaN below 0 and at `-inf`, and
`sqrt(inf) = inf`. -/
def sqrt (sqrt : F → F) : FloatVal F → FloatVal F
  | fin a => if a < 0 then nan else fin (sqrt a)
  | inf false => inf false
  | _ => nan

/-- A finite value in `[lo, hi]`. -/
def FinIn (lo hi : F) : FloatVal F → Prop
  | fin a => a ∈ Set.Icc lo hi
  | _ => False

@[simp] theorem fin_add_fin (a b : F) : fin a + fin b = fin (a + b) := rfl

@[simp] theorem fin_mul_fin (a b : F) : fin a * fin b = fin (a * b) := rfl

@[simp] theorem nan_add (a : FloatVal F) : nan + a = nan := by cases a <;> rfl

@[simp] theorem add_nan (a : FloatVal F) : a + nan = nan := by
  rcases a with _ | _ | _ <;> rfl

@[simp] theorem nan_mul (a : FloatVal F) : nan * a = nan := by cases a <;> rfl

@[simp] theorem fin_div_fin {a b : F} (nonzero : b ≠ 0) : fin a / fin b = fin (a / b) :=
  if_neg nonzero

/-- A positive value over 0 is `+inf`. -/
@[simp] theorem fin_div_zero {a : F} (positive : 0 < a) : fin a / fin 0 = inf false := by
  show div (fin a) (fin 0) = inf false
  simp [div, positive.ne', not_lt.mpr positive.le]

@[simp] theorem fin_add_inf (a : F) (s : Bool) : fin a + inf s = inf s := rfl

@[simp] theorem inf_add_fin (s : Bool) (a : F) : inf s + fin a = inf s := rfl

@[simp] theorem fin_div_inf (a : F) (s : Bool) : fin a / inf s = fin 0 := rfl

/-- A positive factor keeps the sign of an infinity. -/
theorem fin_mul_inf_of_pos {a : F} (positive : 0 < a) (s : Bool) : fin a * inf s = inf s := by
  show mul (fin a) (inf s) = inf s
  simp [mul, positive.ne', not_lt.mpr positive.le]

/-- `0 · inf` is NaN. -/
@[simp] theorem fin_zero_mul_inf (s : Bool) : fin (0 : F) * inf s = nan := by
  show mul (fin 0) (inf s) = nan
  simp [mul]

@[simp] theorem fin_lt_fin {a b : F} : fin a < fin b ↔ a < b := decide_eq_true_iff

@[simp] theorem not_lt_nan (a : FloatVal F) : ¬ a < nan := by
  rcases a with _ | _ | _ <;> exact Bool.false_ne_true

@[simp] theorem not_nan_lt (a : FloatVal F) : ¬ nan < a := by
  rcases a with _ | _ | _ <;> exact Bool.false_ne_true

@[simp] theorem fin_lt_inf_false (a : F) : fin a < inf false := rfl

@[simp] theorem not_inf_false_lt_fin (a : F) : ¬ inf false < fin a := Bool.false_ne_true

@[simp] theorem inf_true_lt_fin (a : F) : inf true < fin a := rfl

@[simp] theorem stdMin_fin_fin (a b : F) : stdMin (fin a) (fin b) = fin (min a b) := by
  unfold stdMin
  split_ifs with below
  · rw [min_eq_right (fin_lt_fin.mp below).le]
  · rw [min_eq_left (not_lt.mp (fun h => below (fin_lt_fin.mpr h)))]

@[simp] theorem stdMin_nan (a : FloatVal F) : stdMin a nan = a := if_neg (not_nan_lt a)

/-- The conditional `if (b < a) a = b` of two finite values is finite. -/
theorem ite_fin_lt_fin (a b : F) : (if fin a < fin b then fin a else fin b) = fin (if a < b then a else b) := by
  simp only [fin_lt_fin]
  split_ifs <;> rfl

/-- An infinity over a positive value keeps its sign. -/
theorem inf_div_fin_of_pos (s : Bool) {a : F} (positive : 0 < a) : inf s / fin a = inf s := by
  show div (inf s) (fin a) = inf s
  simp [div, not_lt.mpr positive.le]

@[simp] theorem stdMax_fin_fin (a b : F) : stdMax (fin a) (fin b) = fin (max a b) := by
  unfold stdMax
  split_ifs with below
  · rw [max_eq_right (fin_lt_fin.mp below).le]
  · rw [max_eq_left (not_lt.mp (fun h => below (fin_lt_fin.mpr h)))]

@[simp] theorem stdMin_fin_inf_false (a : F) : stdMin (fin a) (inf false) = fin a :=
  if_neg (not_inf_false_lt_fin a)

@[simp] theorem exp_fin (f : F → F) (a : F) : exp f (fin a) = fin (f a) := rfl

@[simp] theorem exp_nan (f : F → F) : exp f (nan : FloatVal F) = nan := rfl

@[simp] theorem exp_inf_true (f : F → F) : exp f (inf true) = fin 0 := rfl

@[simp] theorem sqrt_nan (f : F → F) : sqrt f (nan : FloatVal F) = nan := rfl

@[simp] theorem sqrt_inf_false (f : F → F) : sqrt f (inf false : FloatVal F) = inf false := rfl

theorem sqrt_fin_of_nonneg (f : F → F) {a : F} (nonneg : 0 ≤ a) : sqrt f (fin a) = fin (f a) :=
  if_neg (not_lt.mpr nonneg)

theorem sqrt_fin_of_neg (f : F → F) {a : F} (negative : a < 0) : sqrt f (fin a) = nan :=
  if_pos negative

@[simp] theorem mul_nan (a : FloatVal F) : a * nan = nan := by
  rcases a with _ | (_ | _) | _ <;> rfl

@[simp] theorem div_nan (a : FloatVal F) : a / nan = nan := by
  rcases a with _ | (_ | _) | _ <;> rfl

@[simp] theorem nan_div (a : FloatVal F) : nan / a = nan := by
  rcases a with _ | (_ | _) | _ <;> rfl

/-- `0 / 0` is NaN. -/
@[simp] theorem fin_zero_div_zero : fin (0 : F) / fin 0 = nan := by
  show div (fin 0) (fin 0) = nan
  simp [div]

/-- `log(0) = -inf`. -/
@[simp] theorem log_fin_zero (f : F → F) : log f (fin 0) = inf true := by
  simp [log]

@[simp] theorem log_fin_of_pos (f : F → F) {a : F} (positive : 0 < a) : log f (fin a) = fin (f a) :=
  if_pos positive

@[simp] theorem finIn_fin {lo hi a : F} : FinIn lo hi (fin a) ↔ a ∈ Set.Icc lo hi := Iff.rfl

theorem finIn_iff {lo hi : F} {v : FloatVal F} : FinIn lo hi v ↔ ∃ a, v = fin a ∧ a ∈ Set.Icc lo hi := by
  cases v <;> simp [FinIn]

/-- Addition without rounding does not depend on the order of its last two operands: NaN and
infinities of opposite signs give NaN in either order. -/
theorem add_add_swap (a b c : FloatVal F) : a + b + c = a + c + b := by
  rcases a with a | (_ | _) | _ <;> rcases b with b | (_ | _) | _ <;> rcases c with c | (_ | _) | _ <;>
    first | rfl | exact congrArg fin (add_right_comm a b c)

/-- The clip `IfThenElse(v > c, c, v)` is `std::min(c, v)` at every value but NaN, which it
keeps where `std::min` returns `c`. -/
theorem ite_fin_lt_eq_stdMin (c : F) {v : FloatVal F} (notNan : v ≠ nan) :
    (if fin c < v then fin c else v) = stdMin (fin c) v := by
  unfold stdMin
  rcases v with v | (_ | _) | _
  · simp only [fin_lt_fin]
    split_ifs with above below below
    · exact absurd (above.trans below) (lt_irrefl c)
    · rfl
    · rfl
    · exact congrArg fin (le_antisymm (not_lt.mp above) (not_lt.mp below))
  · rfl
  · rfl
  · exact absurd rfl notNan

@[simp] theorem not_finIn_nan {lo hi : F} : ¬ FinIn lo hi (nan : FloatVal F) := id

end FloatVal

end JxlEncoder
