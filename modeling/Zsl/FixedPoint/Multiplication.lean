import Mathlib.Algebra.Order.Field.Basic
import Mathlib.Algebra.Order.Field.Rat
import Mathlib.Tactic.FieldSimp
import Zsl.FixedPoint.Arithmetic

/-!
# Multiplication of `fixed_decimal_t`

`operator *` computes the product of the raw representations in 64 bits, checks it, unscaled,
for the upper bound of the scaled range, and then multiplies by the left operand without its
fraction.

* `mul_of_overflow`, `mul_of_gt`, `mul_of_le`: the three ways a product is computed;
* `mul_iff`: a product is right exactly if its raw value fits and passes that check, and the
  fraction of the left operand contributes less than a unit, or the rest of it is already
  below the range.
-/

namespace Zsl.FixedPoint
open Zsl.Lib Signed64

variable {d : Digits} {a b : FixedDecimal d}

namespace FixedDecimal

lemma mul_of_overflow (h : ¬ Fits (a.rep * b.rep)) : a.mul b = .error .overflow := by
  unfold mul
  rw [int64_of_not h]
  rfl

lemma mul_of_gt (h : Fits (a.rep * b.rep)) (hgt : ¬ a.rep * b.rep ≤ d.bound) :
    a.mul b = .error .noReturn := by
  unfold mul
  rw [int64_of_fits h, d.repMax_eq]
  show (if a.rep * b.rep ≤ d.bound then _ else _) = _
  rw [if_neg hgt]
  rfl

/-- The second product lies between zero and the first, so it fits. -/
lemma mul_of_le (h : Fits (a.rep * b.rep)) (hle : a.rep * b.rep ≤ d.bound) :
    a.mul b = fromRaw d (a.rep.tdiv d.scale * b.rep) := by
  have hbetween := (betweenZero_tdiv a.rep d.scale_pos.le).mul_right b.rep
  unfold mul
  rw [int64_of_fits h, d.repMax_eq, d.scaleFactor_eq]
  show (if a.rep * b.rep ≤ d.bound then
    (int64 (a.rep.tdiv d.scale * b.rep)).bind (fromRaw d) else _) = _
  rw [if_pos hle, int64_of_fits (hbetween.fits h)]
  rfl

end FixedDecimal

/-- The product is in range and off by less than a unit of the raw representation, or it is
out of range when truncated, and `std::out_of_range` is thrown. -/
def MulExact (a b : FixedDecimal d) : Prop :=
  (∃ c, a.mul b = .ok c ∧ d.InRange c.rep ∧
    |(c.rep : ℚ) - a.rep * b.rep / 10 ^ d.fractional.toNat| < 1) ∨
  ∃ what, a.mul b = .error (.outOfRange what) ∧
    ¬ d.InRange ((a.rep * b.rep).tdiv (10 ^ d.fractional.toNat))

/-- The raw product fits and is in the scaled range from above, and the fraction of the left
operand contributes less than a unit, or the product of the rest is below the range. -/
def MulOk (a b : FixedDecimal d) : Prop :=
  -9223372036854775808 ≤ a.rep * b.rep ∧ a.rep * b.rep ≤ d.bound ∧
    (|a.rep.tmod d.scale * b.rep| < d.scale ∨
      (a.rep - a.rep.tmod d.scale) * b.rep < -d.bound * d.scale)

/-- A raw value is off by less than a unit. -/
lemma abs_sub_div_lt_one_iff {c n s : ℤ} (hs : 0 < s) :
    |(c : ℚ) - n / s| < 1 ↔ |c * s - n| < s := by
  have hs' : (0 : ℚ) < s := by exact_mod_cast hs
  have heq : (c : ℚ) - n / s = (c * s - n : ℤ) / s := by
    push_cast
    field_simp
  rw [heq, abs_div, abs_of_pos hs', div_lt_one hs']
  exact_mod_cast Iff.rfl

/-- The left operand without its fraction, times the right one. -/
lemma sub_tmod_mul (a b : FixedDecimal d) :
    (a.rep - a.rep.tmod d.scale) * b.rep = a.rep.tdiv d.scale * b.rep * d.scale := by
  have hsum := Int.mul_tdiv_add_tmod a.rep d.scale
  have hrest : a.rep - a.rep.tmod d.scale = a.rep.tdiv d.scale * d.scale := by linarith
  rw [hrest]
  ring

/-- A product whose result is in range is exact if the fraction contributes little. -/
lemma mulExact_of_inRange_iff (h : Fits (a.rep * b.rep)) (hle : a.rep * b.rep ≤ d.bound)
    (hin : d.InRange (a.rep.tdiv d.scale * b.rep)) :
    MulExact a b ↔ |a.rep.tmod d.scale * b.rep| < d.scale := by
  have hmul : a.mul b = .ok ⟨a.rep.tdiv d.scale * b.rep⟩ :=
    (FixedDecimal.mul_of_le h hle).trans (FixedDecimal.fromRaw_of_inRange hin)
  have hunit := abs_sub_div_lt_one_iff (c := a.rep.tdiv d.scale * b.rep) (n := a.rep * b.rep)
    d.scale_pos
  have herror : a.rep.tdiv d.scale * b.rep * d.scale - a.rep * b.rep =
      -(a.rep.tmod d.scale * b.rep) := by
    rw [← sub_tmod_mul]
    ring
  have hscale : ((d.scale : ℤ) : ℚ) = 10 ^ d.fractional.toNat := by
    unfold Digits.scale
    push_cast
    rfl
  rw [herror, abs_neg, hscale, Int.cast_mul a.rep b.rep] at hunit
  rw [← hunit]
  constructor
  · rintro (⟨c, hc, -, habs⟩ | ⟨what, hw, -⟩)
    · rw [hmul] at hc
      obtain rfl := Except.ok.inj hc
      exact habs
    · rw [hmul] at hw
      cases hw
  · intro habs
    exact Or.inl ⟨_, hmul, hin, habs⟩

/-- A product that is thrown for is negative, and truncated it is out of range as well. -/
lemma mulExact_of_not_inRange (h : Fits (a.rep * b.rep)) (hle : a.rep * b.rep ≤ d.bound)
    (hout : ¬ d.InRange (a.rep.tdiv d.scale * b.rep)) :
    MulExact a b ∧ a.rep.tdiv d.scale * b.rep < -d.bound := by
  have hs := d.scale_pos
  have hbound := d.bound_nonneg
  have hquot := (betweenZero_tdiv a.rep hs.le).mul_right b.rep
  have hfrac := (betweenZero_tmod a.rep d.scale).mul_right b.rep
  have hrest := sub_tmod_mul a b
  have hbelow : a.rep.tdiv d.scale * b.rep < -d.bound := by
    unfold Digits.InRange at hout
    rcases hquot with ⟨hlo, hhi⟩ | ⟨hlo, hhi⟩ <;> omega
  have hneg : a.rep * b.rep ≤ a.rep.tdiv d.scale * b.rep * d.scale := by
    have hsplit : a.rep * b.rep =
        a.rep.tdiv d.scale * b.rep * d.scale + a.rep.tmod d.scale * b.rep := by
      rw [← hrest]
      ring
    rcases hfrac with ⟨hlo, hhi⟩ | ⟨hlo, hhi⟩
    · rcases hquot with ⟨hqlo, hqhi⟩ | ⟨hqlo, hqhi⟩ <;> omega
    · omega
  have htrunc : (a.rep * b.rep).tdiv d.scale ≤ a.rep.tdiv d.scale * b.rep := by
    calc (a.rep * b.rep).tdiv d.scale
        ≤ (a.rep.tdiv d.scale * b.rep * d.scale).tdiv d.scale := Int.tdiv_le_tdiv hs hneg
      _ = a.rep.tdiv d.scale * b.rep := Int.mul_tdiv_cancel _ hs.ne'
  obtain ⟨what, hw⟩ := FixedDecimal.fromRaw_of_not hout
  refine ⟨Or.inr ⟨what, (FixedDecimal.mul_of_le h hle).trans hw, ?_⟩, hbelow⟩
  intro hin
  have hlo : -d.bound ≤ (a.rep * b.rep).tdiv d.scale := hin.1
  omega

lemma not_mulExact_of_error {f : Failure} (h : a.mul b = .error f)
    (hf : ∀ what, f ≠ .outOfRange what) : ¬ MulExact a b := by
  rintro (⟨c, hc, -⟩ | ⟨what, hw, -⟩)
  · rw [h] at hc
    cases hc
  · rw [h] at hw
    exact hf what (Except.error.inj hw)

/-- **Multiplication.** A product of raw representations is computed or refused as it should
be exactly under `MulOk`. -/
theorem mul_iff (d : Digits) (a b : FixedDecimal d) : MulExact a b ↔ MulOk a b := by
  have hs := d.scale_pos
  unfold MulOk
  by_cases hfits : Fits (a.rep * b.rep)
  · by_cases hle : a.rep * b.rep ≤ d.bound
    · by_cases hin : d.InRange (a.rep.tdiv d.scale * b.rep)
      · -- what is computed is the result, so nothing is below the range
        have habove : ¬ (a.rep - a.rep.tmod d.scale) * b.rep < -d.bound * d.scale := by
          rw [sub_tmod_mul, not_lt]
          exact Int.mul_le_mul_of_nonneg_right hin.1 hs.le
        rw [mulExact_of_inRange_iff hfits hle hin]
        exact ⟨fun h => ⟨hfits.1, hle, Or.inl h⟩, fun h => h.2.2.resolve_right habove⟩
      · obtain ⟨hexact, hbelow⟩ := mulExact_of_not_inRange hfits hle hin
        refine iff_of_true hexact ⟨hfits.1, hle, Or.inr ?_⟩
        rw [sub_tmod_mul]
        exact Int.mul_lt_mul_of_pos_right hbelow hs
    · refine iff_of_false ?_ (fun h => hle h.2.1)
      apply not_mulExact_of_error (FixedDecimal.mul_of_gt hfits hle)
      intro what h
      cases h
  · refine iff_of_false ?_ ?_
    · apply not_mulExact_of_error (FixedDecimal.mul_of_overflow hfits)
      intro what h
      cases h
    · intro h
      have hlt := d.bound_lt
      exact hfits ⟨h.1, by omega⟩

/-- `fixed_decimal_t < 9, 9 >`. -/
def nineDigits : Digits := ⟨9, 9, by decide⟩

/-- With nine digits on both sides, `1 * 1` ends without a result, and `0.5 * 0.5` is 0. -/
theorem one_mul_one_returns_nothing :
    FixedDecimal.mul (⟨1000000000⟩ : FixedDecimal nineDigits) ⟨1000000000⟩ = .error .noReturn ∧
      ¬ MulExact (⟨1000000000⟩ : FixedDecimal nineDigits) ⟨1000000000⟩ ∧
      FixedDecimal.mul (⟨500000000⟩ : FixedDecimal nineDigits) ⟨500000000⟩ = .ok ⟨0⟩ := by
  have hnone : FixedDecimal.mul (⟨1000000000⟩ : FixedDecimal nineDigits) ⟨1000000000⟩ =
      .error .noReturn := by rfl
  refine ⟨hnone, not_mulExact_of_error hnone ?_, by rfl⟩
  intro what h
  cases h

end Zsl.FixedPoint
