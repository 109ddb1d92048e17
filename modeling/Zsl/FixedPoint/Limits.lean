import Zsl.FixedPoint.LongDouble
import Zsl.FixedPoint.Multiplication

/-!
# The limits of `fixed_decimal_t`

`max()` and `min()` go through `from_raw` and are `noexcept`; `int_max()` and `int_min()` take a
power of the literal `10`, an `int`, so the power is computed in 32 bits.

* `max_eq`, `min_eq`: the former are the extreme values, whatever the digits;
* `intMax_iff`: the latter are right up to nine integral digits, and overflow from there on;
* `made_iff`: the values that the operations can make of each other lie between the former.
-/

namespace Zsl.FixedPoint
open Zsl.Lib Signed64

/-- The range of `int`. -/
def FitsInt (z : ℤ) : Prop := -2147483648 ≤ z ∧ z ≤ 2147483647

instance (z : ℤ) : Decidable (FitsInt z) := inferInstanceAs (Decidable (_ ∧ _))

/-- The result of an operation on `int`s. -/
def int32 (z : ℤ) : Except Failure ℤ := if FitsInt z then .ok z else .error .overflow

/-- The loop of `power` for an `int`. -/
def powerIntLoop (v r : ℤ) : ℕ → Except Failure ℤ
  | 0 => .ok r
  | e + 1 => do
    let r ← int32 (r * v)
    powerIntLoop v r e

/-- `fixed_decimal_base_t::power` of an `int`. -/
def powerInt (v : ℤ) (e : UInt8) : Except Failure ℤ := powerIntLoop v 1 e.toNat

namespace Digits

/-- `int_max()`. -/
def intMaxRep (d : Digits) : Except Failure ℤ := do
  let p ← powerInt 10 d.integral
  int32 (p - 1)

/-- `int_min()`. -/
def intMinRep (d : Digits) : Except Failure ℤ := do
  let m ← d.intMaxRep
  int64 (-m)

/-- `max()`. -/
def max (d : Digits) : Except Failure (FixedDecimal d) := do
  FixedDecimal.fromRaw d (← d.repMax)

/-- `min()`. -/
def min (d : Digits) : Except Failure (FixedDecimal d) := do
  FixedDecimal.fromRaw d (← d.repMin)

end Digits

/-! ## The powers of ten in an `int` -/

lemma int32_of_fits {z : ℤ} (h : FitsInt z) : int32 z = .ok z := if_pos h

lemma int32_of_not {z : ℤ} (h : ¬ FitsInt z) : int32 z = .error .overflow := if_neg h

/-- The powers of ten that an `int` holds. -/
lemma fitsInt_ten_pow_iff (k : ℕ) : FitsInt (10 ^ k) ↔ k ≤ 9 := by
  constructor
  · intro ⟨_, hhi⟩
    by_contra hk
    have hpow : (10 : ℤ) ^ 10 ≤ 10 ^ k := pow_le_pow_right₀ (by norm_num) (by omega)
    omega
  · intro hk
    have hlo : (0 : ℤ) < 10 ^ k := by positivity
    have hhi : (10 : ℤ) ^ k ≤ 10 ^ 9 := pow_le_pow_right₀ (by norm_num) hk
    constructor <;> omega

/-- The loop goes on as long as the power fits. -/
lemma powerIntLoop_eq (e k : ℕ) (hk : k ≤ 9) :
    powerIntLoop 10 (10 ^ k) e =
      if k + e ≤ 9 then .ok (10 ^ (k + e)) else .error .overflow := by
  induction e generalizing k with
  | zero =>
    rw [Nat.add_zero, if_pos hk]
    rfl
  | succ e ih =>
    have hpow : (10 : ℤ) ^ k * 10 = 10 ^ (k + 1) := (pow_succ 10 k).symm
    unfold powerIntLoop
    rw [hpow]
    by_cases hnext : k + 1 ≤ 9
    · rw [int32_of_fits ((fitsInt_ten_pow_iff _).mpr hnext)]
      show powerIntLoop 10 (10 ^ (k + 1)) e = _
      rw [ih (k + 1) hnext, Nat.add_right_comm, Nat.add_assoc]
    · rw [int32_of_not fun h => hnext ((fitsInt_ten_pow_iff _).mp h), if_neg (by omega)]
      rfl

namespace Digits
variable (d : Digits)

lemma intMaxRep_eq : d.intMaxRep =
    if d.integral.toNat ≤ 9 then .ok (10 ^ d.integral.toNat - 1) else .error .overflow := by
  have hloop := powerIntLoop_eq d.integral.toNat 0 (by decide)
  rw [Nat.zero_add] at hloop
  unfold intMaxRep powerInt
  rw [show (1 : ℤ) = 10 ^ 0 from rfl, hloop]
  split
  · next h =>
    obtain ⟨-, hhi⟩ := (fitsInt_ten_pow_iff _).mpr h
    have hpos : (0 : ℤ) < 10 ^ d.integral.toNat := by positivity
    exact int32_of_fits (by constructor <;> omega)
  · rfl

lemma inRange_bound : d.InRange d.bound := by
  have hbound := d.bound_nonneg
  constructor <;> omega

/-- The extreme values are values of the type, so `max()` and `min()` never throw. -/
lemma max_eq : d.max = .ok ⟨d.bound⟩ := by
  unfold max
  rw [d.repMax_eq]
  exact FixedDecimal.fromRaw_of_inRange d.inRange_bound

lemma min_eq : d.min = .ok ⟨-d.bound⟩ := by
  unfold min
  rw [d.repMin_eq]
  exact FixedDecimal.fromRaw_of_inRange d.inRange_bound.neg

/-- `int_max()` and `int_min()` are the greatest and the least integer of the type up to nine
integral digits; with ten and more the power overflows an `int`. -/
theorem intMax_iff :
    (d.integral.toNat ≤ 9 ↔ d.intMaxRep = .ok (10 ^ d.integral.toNat - 1)) ∧
      (d.integral.toNat ≤ 9 ↔ d.intMinRep = .ok (-(10 ^ d.integral.toNat - 1))) ∧
      (9 < d.integral.toNat →
        d.intMaxRep = .error .overflow ∧ d.intMinRep = .error .overflow) := by
  unfold intMinRep
  rw [d.intMaxRep_eq]
  by_cases h : d.integral.toNat ≤ 9
  · obtain ⟨-, hhi⟩ := (fitsInt_ten_pow_iff _).mpr h
    have hpos : (0 : ℤ) < 10 ^ d.integral.toNat := by positivity
    rw [if_pos h]
    refine ⟨iff_of_true h rfl, iff_of_true h ?_, fun hlt => by omega⟩
    exact int64_of_fits (by constructor <;> omega)
  · rw [if_neg h]
    exact ⟨iff_of_false h nofun, iff_of_false h nofun, fun _ => ⟨rfl, rfl⟩⟩

end Digits

/-! ## The values of a program -/

/-- The values that a program makes, by any operation but `from_raw_unsafe`, whatever the platform
does where it is free. -/
inductive Made (d : Digits) : FixedDecimal d → Prop
  /-- the default constructor -/
  | zero : Made d ⟨0⟩
  | max {x : FixedDecimal d} (h : d.max = .ok x) : Made d x
  | min {x : FixedDecimal d} (h : d.min = .ok x) : Made d x
  | raw {v : Int64} {x : FixedDecimal d} (h : FixedDecimal.fromRaw d v.toInt = .ok x) : Made d x
  | integer {unspecified : ℤ → ℤ} {v : Int64} {x : FixedDecimal d}
      (h : FixedDecimal.fromInteger d unspecified v.toInt = .ok x) : Made d x
  | longDouble {p : ℕ} {toStr : ℚ → String} {unspecified : ℚ → ℤ} {v : ℚ} {x : FixedDecimal d}
      (h : FixedDecimal.fromLongDouble d p toStr unspecified v = .ok x) : Made d x
  | neg {a x : FixedDecimal d} (ha : Made d a) (h : a.neg = .ok x) : Made d x
  | add {a b x : FixedDecimal d} (ha : Made d a) (hb : Made d b) (h : a.add b = .ok x) : Made d x
  | sub {a b x : FixedDecimal d} (ha : Made d a) (hb : Made d b) (h : a.sub b = .ok x) : Made d x
  | mul {a b x : FixedDecimal d} (ha : Made d a) (hb : Made d b) (h : a.mul b = .ok x) : Made d x

section
variable {d : Digits} {a b x : FixedDecimal d}

lemma inRange_of_fromRaw {v : ℤ} (h : FixedDecimal.fromRaw d v = .ok x) : d.InRange x.rep := by
  rw [fromRaw_eq] at h
  split at h
  · next hin =>
    obtain rfl := Except.ok.inj h
    exact hin
  · cases h

/-- A conversion has two checks, and the second is that of `from_raw`. -/
lemma inRange_of_checked {v : ℤ} {f : Failure}
    (h : ((d.inRangeRaw v).bind fun ok =>
      if ok = true then FixedDecimal.fromRaw d v else .error f) = .ok x) : d.InRange x.rep := by
  rw [d.inRangeRaw_eq, Except.bind] at h
  split at h
  · exact inRange_of_fromRaw h
  · cases h

lemma inRange_of_fromInteger {unspecified : ℤ → ℤ} {v : ℤ}
    (h : FixedDecimal.fromInteger d unspecified v = .ok x) : d.InRange x.rep := by
  by_cases hfits : Fits (v * d.scale)
  · rw [FixedDecimal.fromInteger_of_fits unspecified hfits] at h
    split at h
    · next hin =>
      obtain rfl := Except.ok.inj h
      exact hin
    · cases h
  · rw [FixedDecimal.fromInteger_of_overflow unspecified hfits] at h
    cases h

lemma inRange_of_fromLongDouble {p : ℕ} {toStr : ℚ → String} {unspecified : ℚ → ℤ} {v : ℚ}
    (h : FixedDecimal.fromLongDouble d p toStr unspecified v = .ok x) : d.InRange x.rep := by
  unfold FixedDecimal.fromLongDouble at h
  rw [d.scaleFactor_eq] at h
  exact inRange_of_checked h

lemma inRange_of_mul (h : a.mul b = .ok x) : d.InRange x.rep := by
  by_cases hfits : Fits (a.rep * b.rep)
  · by_cases hle : a.rep * b.rep ≤ d.bound
    · rw [FixedDecimal.mul_of_le hfits hle] at h
      exact inRange_of_fromRaw h
    · rw [FixedDecimal.mul_of_gt hfits hle] at h
      cases h
  · rw [FixedDecimal.mul_of_overflow hfits] at h
    cases h

/-- Every operation ends with the check of `from_raw`. -/
lemma Made.inRange (h : Made d x) : d.InRange x.rep := by
  induction h with
  | zero =>
    have hbound := d.bound_nonneg
    exact ⟨Int.neg_nonpos_of_nonneg hbound, hbound⟩
  | max h =>
    obtain rfl := Except.ok.inj (d.max_eq.symm.trans h)
    exact d.inRange_bound
  | min h =>
    obtain rfl := Except.ok.inj (d.min_eq.symm.trans h)
    exact d.inRange_bound.neg
  | raw h => exact inRange_of_fromRaw h
  | integer h => exact inRange_of_fromInteger h
  | longDouble h => exact inRange_of_fromLongDouble h
  | neg ha h iha =>
    rw [FixedDecimal.neg_eq iha] at h
    obtain rfl := Except.ok.inj h
    exact iha.neg
  | add ha hb h iha ihb =>
    rw [FixedDecimal.add_eq iha ihb] at h
    exact inRange_of_fromRaw h
  | sub ha hb h iha ihb =>
    rw [FixedDecimal.sub_eq iha ihb] at h
    exact inRange_of_fromRaw h
  | mul ha hb h => exact inRange_of_mul h

end

/-- The values that programs can make are those between `min()` and `max()`, which never throw. -/
theorem made_iff (d : Digits) (x : FixedDecimal d) :
    Made d x ↔ ∃ lo hi, d.min = .ok lo ∧ d.max = .ok hi ∧ lo.rep ≤ x.rep ∧ x.rep ≤ hi.rep := by
  constructor
  · intro h
    obtain ⟨hlo, hhi⟩ := h.inRange
    exact ⟨_, _, d.min_eq, d.max_eq, hlo, hhi⟩
  · rintro ⟨lo, hi, hlo, hhi, hle, hge⟩
    obtain rfl := Except.ok.inj (d.min_eq.symm.trans hlo)
    obtain rfl := Except.ok.inj (d.max_eq.symm.trans hhi)
    have hin : d.InRange x.rep := ⟨hle, hge⟩
    have hv : (Int64.ofInt x.rep).toInt = x.rep :=
      Int64.toInt_ofInt_of_le hin.fits.1 (Int.lt_add_one_iff.mpr hin.fits.2)
    apply Made.raw (v := Int64.ofInt x.rep)
    rw [hv]
    exact FixedDecimal.fromRaw_of_inRange hin

end Zsl.FixedPoint
