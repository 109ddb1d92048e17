import Mathlib.Algebra.Order.Ring.Int
import Mathlib.Tactic.Linarith
import Zsl.Lib.Rounding
import Zsl.Lib.Signed64

/-!
# `fixed_decimal_t`: decimals in an `int64_t`

A value is its raw representation, the decimal times `scale_factor()`. The functions are
translated with every signed operation checked for overflow, and with the paths on which a
function ends without a `return`.

* `power`, `repMax`, `inRangeRaw`, `fromRaw`: the range and its check;
* `FixedDecimal.neg`, `add`, `sub`, `mul`: the operators;
* `FixedDecimal.fromInteger`: `from(rep_t)`, whose product passes through a `double`;
* `fromRaw_eq`: what the range check does, the rest of the file being unfolded through it.

The file does not compile as it stands: `from_raw` returns `from_raw_unsafe(repv)`, where only
`v` is in scope, and `throw_out_of_range` has neither a return type nor the parameter it is
called with. They are read as `from_raw_unsafe(v)`, and as a throw of `std::out_of_range` with
the text of the call.
-/

namespace Zsl.FixedPoint
open Zsl.Lib Signed64 Rounding

/-- How a function ends without a value. -/
inductive Failure where
  /-- `std::out_of_range` -/
  | outOfRange (what : String)
  /-- a signed overflow -/
  | overflow
  /-- control reaches the end of the function -/
  | noReturn
deriving DecidableEq, Repr

/-- The result of a signed operation on 64 bits. -/
def int64 (z : ℤ) : Except Failure ℤ :=
  match checked z with
  | some z => .ok z
  | none => .error .overflow

/-- The template parameters, with `10 ^ (I + F)` in the range of `int64_t`. -/
structure Digits where
  integral : UInt8
  fractional : UInt8
  total_le : integral.toNat + fractional.toNat ≤ 18

/-- `while (e--) r *= v;` -/
def powerLoop (v r : ℤ) : ℕ → Except Failure ℤ
  | 0 => .ok r
  | e + 1 => do
    let r ← int64 (r * v)
    powerLoop v r e

/-- `fixed_decimal_base_t::power`. -/
def power (v : ℤ) (e : UInt8) : Except Failure ℤ := powerLoop v 1 e.toNat

namespace Digits

/-- `total_digits()`. -/
def totalDigits (d : Digits) : ℕ := d.integral.toNat + d.fractional.toNat

/-- `scale_factor()`. -/
def scaleFactor (d : Digits) : Except Failure ℤ := power 10 d.fractional

/-- `rep_max()`. -/
def repMax (d : Digits) : Except Failure ℤ := do
  let p ← power 10 (UInt8.ofNat d.totalDigits)
  int64 (p - 1)

/-- `rep_min()`. -/
def repMin (d : Digits) : Except Failure ℤ := do
  let m ← d.repMax
  int64 (-m)

/-- `in_range_raw(v)`. -/
def inRangeRaw (d : Digits) (v : ℤ) : Except Failure Bool := do
  if v ≤ (← d.repMax) then
    return (← d.repMin) ≤ v
  else
    return false

end Digits

/-- `fixed_decimal_t < I, F >`. -/
structure FixedDecimal (d : Digits) where
  rep : ℤ
deriving DecidableEq, Repr

namespace FixedDecimal
variable {d : Digits}

/-- `throw_out_of_range` for the value `v`. -/
def throwOutOfRange {α : Type} (v : ℤ) : Except Failure α :=
  .error (.outOfRange ("fixed_decimal value out of range" ++ toString v))

/-- `from_raw_unsafe(v)`. -/
def fromRawUnsafe (d : Digits) (v : ℤ) : FixedDecimal d := ⟨v⟩

/-- `from_raw(v)`. -/
def fromRaw (d : Digits) (v : ℤ) : Except Failure (FixedDecimal d) := do
  if ← d.inRangeRaw v then
    return fromRawUnsafe d v
  else
    throwOutOfRange v

/-- `double(n)`, in the default rounding mode. -/
def toDouble (n : ℤ) : ℤ := roundInt 53 n

/-- `std::llround` of a whole number; beyond the range of `long long` the result is
unspecified. -/
def llround (unspecified : ℤ → ℤ) (x : ℤ) : ℤ := if Fits x then x else unspecified x

/-- `from(rep_t v)`. -/
def fromInteger (d : Digits) (unspecified : ℤ → ℤ) (v : ℤ) :
    Except Failure (FixedDecimal d) := do
  let n ← int64 (v * (← d.scaleFactor))
  let repv := llround unspecified (toDouble n)
  if ← d.inRangeRaw repv then
    fromRaw d repv
  else
    throwOutOfRange v

/-- `operator -` of one operand. -/
def neg (rhs : FixedDecimal d) : Except Failure (FixedDecimal d) := do
  fromRaw d (← int64 (-rhs.rep))

/-- `operator +`. -/
def add (lhs rhs : FixedDecimal d) : Except Failure (FixedDecimal d) := do
  fromRaw d (← int64 (lhs.rep + rhs.rep))

/-- `operator -`. -/
def sub (lhs rhs : FixedDecimal d) : Except Failure (FixedDecimal d) := do
  fromRaw d (← int64 (lhs.rep - rhs.rep))

/-- `operator *`. The product that is checked is computed in 64 bits, and there is no `else`. -/
def mul (lhs rhs : FixedDecimal d) : Except Failure (FixedDecimal d) := do
  let r ← int64 (lhs.rep * rhs.rep)
  if r ≤ (← d.repMax) then
    fromRaw d (← int64 (lhs.rep.tdiv (← d.scaleFactor) * rhs.rep))
  else
    throw .noReturn

end FixedDecimal

/-! ## The range -/

lemma int64_of_fits {z : ℤ} (h : Fits z) : int64 z = .ok z := by
  unfold int64
  rw [checked_of_fits h]

lemma int64_of_not {z : ℤ} (h : ¬ Fits z) : int64 z = .error .overflow := by
  unfold int64
  rw [checked_of_not h]

/-- A power of ten up to `10 ^ 18` fits. -/
lemma fits_ten_pow {k : ℕ} (hk : k ≤ 18) : Fits (10 ^ k) := by
  have hlo : (0 : ℤ) < 10 ^ k := by positivity
  have hhi : (10 : ℤ) ^ k ≤ 10 ^ 18 := pow_le_pow_right₀ (by norm_num) hk
  constructor <;> omega

/-- The loop multiplies on, while the power fits. -/
lemma powerLoop_eq (e k : ℕ) (h : k + e ≤ 18) : powerLoop 10 (10 ^ k) e = .ok (10 ^ (k + e)) := by
  induction e generalizing k with
  | zero => rfl
  | succ e ih =>
    have hstep : int64 (10 ^ k * 10) = .ok (10 ^ (k + 1)) := by
      rw [← pow_succ]
      exact int64_of_fits (fits_ten_pow (by omega))
    unfold powerLoop
    rw [hstep]
    show powerLoop 10 (10 ^ (k + 1)) e = _
    rw [ih (k + 1) (by omega), Nat.add_right_comm, Nat.add_assoc]

lemma power_eq {e : UInt8} (h : e.toNat ≤ 18) : power 10 e = .ok (10 ^ e.toNat) := by
  have hloop := powerLoop_eq e.toNat 0 (by omega)
  rw [pow_zero, Nat.zero_add] at hloop
  exact hloop

namespace Digits

/-- `10 ^ F`. -/
def scale (d : Digits) : ℤ := 10 ^ d.fractional.toNat

/-- `10 ^ (I + F) - 1`. -/
def bound (d : Digits) : ℤ := 10 ^ (d.integral.toNat + d.fractional.toNat) - 1

lemma scale_pos (d : Digits) : 0 < d.scale := by
  unfold scale
  positivity

lemma bound_nonneg (d : Digits) : 0 ≤ d.bound := by
  have hpos : (0 : ℤ) < 10 ^ (d.integral.toNat + d.fractional.toNat) := by positivity
  unfold bound
  omega

lemma bound_lt (d : Digits) : d.bound < 1000000000000000000 := by
  have hle : (10 : ℤ) ^ (d.integral.toNat + d.fractional.toNat) ≤ 10 ^ 18 :=
    pow_le_pow_right₀ (by norm_num) d.total_le
  unfold bound
  omega

/-- The bound in whole units. -/
lemma scale_mul_integral (d : Digits) : 10 ^ d.integral.toNat * d.scale = d.bound + 1 := by
  unfold scale bound
  rw [← pow_add]
  omega

/-- The values of the type. -/
def InRange (d : Digits) (v : ℤ) : Prop := -d.bound ≤ v ∧ v ≤ d.bound

instance (d : Digits) (v : ℤ) : Decidable (d.InRange v) := inferInstanceAs (Decidable (_ ∧ _))

lemma InRange.neg {d : Digits} {v : ℤ} (h : d.InRange v) : d.InRange (-v) := by
  obtain ⟨hlo, hhi⟩ := h
  constructor <;> omega

lemma InRange.fits {d : Digits} {v : ℤ} (h : d.InRange v) : Fits v := by
  have hlt := d.bound_lt
  obtain ⟨hlo, hhi⟩ := h
  constructor <;> omega

/-- The sum of two values is below `2 * 10 ^ 18`, so it fits. -/
lemma InRange.fits_add {d : Digits} {v w : ℤ} (hv : d.InRange v) (hw : d.InRange w) :
    Fits (v + w) := by
  have hlt := d.bound_lt
  obtain ⟨hvlo, hvhi⟩ := hv
  obtain ⟨hwlo, hwhi⟩ := hw
  constructor <;> omega

lemma scaleFactor_eq (d : Digits) : d.scaleFactor = .ok d.scale :=
  power_eq (Nat.le_trans (Nat.le_add_left _ _) d.total_le)

lemma repMax_eq (d : Digits) : d.repMax = .ok d.bound := by
  have htotal := d.total_le
  have hcast : (UInt8.ofNat d.totalDigits).toNat = d.integral.toNat + d.fractional.toNat := by
    rw [UInt8.toNat_ofNat', totalDigits, Nat.mod_eq_of_lt (by omega)]
  have hpow := power_eq (e := UInt8.ofNat d.totalDigits) (by omega)
  have hfits : Fits d.bound := by
    have hlo := d.bound_nonneg
    have hhi := d.bound_lt
    constructor <;> omega
  unfold repMax
  rw [hpow, hcast]
  exact int64_of_fits hfits

lemma repMin_eq (d : Digits) : d.repMin = .ok (-d.bound) := by
  have hlo := d.bound_nonneg
  have hhi := d.bound_lt
  unfold repMin
  rw [repMax_eq]
  exact int64_of_fits (by constructor <;> omega)

lemma inRangeRaw_eq (d : Digits) (v : ℤ) : d.inRangeRaw v = .ok (decide (d.InRange v)) := by
  unfold inRangeRaw
  rw [repMax_eq, repMin_eq]
  show (if v ≤ d.bound then Except.ok (decide (-d.bound ≤ v)) else Except.ok false) = _
  unfold InRange
  split
  · next hle => simp [hle]
  · next hgt => simp [hgt]

end Digits

/-- The range check is all that `from_raw` does. -/
lemma fromRaw_eq (d : Digits) (v : ℤ) :
    FixedDecimal.fromRaw d v =
      if d.InRange v then .ok ⟨v⟩ else FixedDecimal.throwOutOfRange v := by
  unfold FixedDecimal.fromRaw
  rw [d.inRangeRaw_eq]
  show (if decide (d.InRange v) = true then _ else _) = _
  simp only [decide_eq_true_eq]
  rfl

end Zsl.FixedPoint
