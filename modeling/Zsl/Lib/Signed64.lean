import Mathlib.Data.Int.Order.Basic
import Mathlib.Tactic.ByContra

/-!
# Signed 64-bit arithmetic

The results of signed operations are integers of the range of `int64_t`; an operation whose
result leaves the range has no value. Division and remainder truncate toward zero.

* `Fits`, `checked`: the range, and a result checked for it;
* `BetweenZero`: where quotients and remainders lie, and that they fit with the dividend;
* `tmod_nonneg_iff`: the sign of a remainder.
-/

namespace Zsl.Lib.Signed64

/-- The range of `int64_t`. -/
def Fits (z : ℤ) : Prop := -9223372036854775808 ≤ z ∧ z ≤ 9223372036854775807

instance (z : ℤ) : Decidable (Fits z) := inferInstanceAs (Decidable (_ ∧ _))

/-- The result of a signed operation, `none` for an overflow. -/
def checked (z : ℤ) : Option ℤ := if Fits z then some z else none

lemma checked_of_fits {z : ℤ} (h : Fits z) : checked z = some z := if_pos h

lemma checked_of_not {z : ℤ} (h : ¬ Fits z) : checked z = none := if_neg h

/-! ## Truncation -/

/-- `x` lies between zero and `z`. -/
def BetweenZero (x z : ℤ) : Prop := 0 ≤ x ∧ x ≤ z ∨ z ≤ x ∧ x ≤ 0

namespace BetweenZero
variable {x z : ℤ}

lemma fits (h : BetweenZero x z) (hz : Fits z) : Fits x := by
  obtain ⟨hlo, hhi⟩ := hz
  rcases h with ⟨h₁, h₂⟩ | ⟨h₁, h₂⟩ <;> constructor <;> omega

lemma sub (h : BetweenZero x z) : BetweenZero (z - x) z := by
  unfold BetweenZero at *
  omega

lemma mul_right (h : BetweenZero x z) (b : ℤ) : BetweenZero (x * b) (z * b) := by
  unfold BetweenZero
  rcases le_total 0 b with hb | hb
  · rcases h with ⟨h₁, h₂⟩ | ⟨h₁, h₂⟩
    · exact Or.inl ⟨Int.mul_nonneg h₁ hb, Int.mul_le_mul_of_nonneg_right h₂ hb⟩
    · exact Or.inr ⟨Int.mul_le_mul_of_nonneg_right h₁ hb, Int.mul_nonpos_of_nonpos_of_nonneg h₂ hb⟩
  · rcases h with ⟨h₁, h₂⟩ | ⟨h₁, h₂⟩
    · exact Or.inr ⟨Int.mul_le_mul_of_nonpos_right h₂ hb, Int.mul_nonpos_of_nonneg_of_nonpos h₁ hb⟩
    · exact Or.inl ⟨Int.mul_nonneg_of_nonpos_of_nonpos h₂ hb,
        Int.mul_le_mul_of_nonpos_right h₁ hb⟩

end BetweenZero

/-- A quotient lies between zero and the dividend. -/
lemma betweenZero_tdiv (z : ℤ) {d : ℤ} (hd : 0 ≤ d) : BetweenZero (z.tdiv d) z := by
  have hle := Int.natAbs_tdiv_le_natAbs z d
  unfold BetweenZero
  rcases le_total 0 z with hz | hz
  · have hpos : 0 ≤ z.tdiv d := Int.tdiv_nonneg hz hd
    omega
  · have hneg : 0 ≤ (-z).tdiv d := Int.tdiv_nonneg (by omega) hd
    rw [Int.neg_tdiv] at hneg
    omega

/-- A remainder lies between zero and the dividend. -/
lemma betweenZero_tmod (z d : ℤ) : BetweenZero (z.tmod d) z := by
  have hle : (z.tmod d).natAbs ≤ z.natAbs := by
    rw [Int.natAbs_tmod]
    exact Nat.mod_le _ _
  unfold BetweenZero
  rcases le_total 0 z with hz | hz
  · have hpos : 0 ≤ z.tmod d := Int.tmod_nonneg d hz
    omega
  · have hneg : 0 ≤ (-z).tmod d := Int.tmod_nonneg d (by omega)
    rw [Int.neg_tmod] at hneg
    omega

lemma Fits.tdiv {z d : ℤ} (h : Fits z) (hd : 0 ≤ d) : Fits (z.tdiv d) :=
  (betweenZero_tdiv z hd).fits h

/-- The remainder has the sign of the dividend. -/
theorem tmod_nonneg_iff {z d : ℤ} : 0 ≤ z.tmod d ↔ 0 ≤ z ∨ d ∣ z := by
  constructor
  · intro h
    by_contra hne
    rw [not_or, not_le] at hne
    obtain ⟨hz, hdvd⟩ := hne
    have hneg : 0 ≤ (-z).tmod d := Int.tmod_nonneg d (by omega)
    rw [Int.neg_tmod] at hneg
    exact hdvd (Int.dvd_of_tmod_eq_zero (by omega))
  · rintro (hz | hdvd)
    · exact Int.tmod_nonneg d hz
    · rw [Int.tmod_eq_zero_of_dvd hdvd]

end Zsl.Lib.Signed64
