import Mathlib.Algebra.Order.Floor.Ring
import Mathlib.Data.Int.Log
import Mathlib.Data.Rat.Floor
import Mathlib.Tactic.Linarith
import Mathlib.Tactic.Ring
import Mathlib.Tactic.FieldSimp

/-!
# Rounding rational numbers

Binary floating-point formats of `p` bits of precision and unbounded exponents, with round to
nearest, and the conversion of their numbers to integers.

* `roundEven`, `roundAway`: the nearest integer, with ties to even or away from zero;
* `roundRat p`: the nearest number of the format, with ties to even;
* `abs_roundRat_sub_le`: its relative error; `roundRat_intCast`: it keeps short integers;
* `roundAway_eq`: less than a half away from an integer, rounding gives that integer.
-/

namespace Zsl.Lib.Rounding

/-- The nearest integer, ties to even. -/
def roundEven (x : ℚ) : ℤ :=
  if Int.fract x < 1 / 2 ∨ Int.fract x = 1 / 2 ∧ ⌊x⌋ % 2 = 0 then ⌊x⌋ else ⌊x⌋ + 1

/-- The nearest integer, ties away from zero. -/
def roundAway (x : ℚ) : ℤ := if x < 0 then -⌊-x + 1 / 2⌋ else ⌊x + 1 / 2⌋

/-- The exponent of the last of the `p` leading bits of `x`. -/
def exponent (p : ℕ) (x : ℚ) : ℤ := Int.log 2 |x| + 1 - p

/-- `x` rounded to `p` significant bits. -/
def roundRat (p : ℕ) (x : ℚ) : ℚ := roundEven (x / 2 ^ exponent p x) * 2 ^ exponent p x

/-! ## To an integer -/

lemma abs_roundEven_sub_le (x : ℚ) : |(roundEven x : ℚ) - x| ≤ 1 / 2 := by
  have hlo := Int.fract_nonneg x
  have hhi := Int.fract_lt_one x
  have hx := Int.floor_add_fract x
  unfold roundEven
  split
  · next h =>
    have hhalf : Int.fract x ≤ 1 / 2 := by
      rcases h with h | ⟨h, -⟩
      · exact h.le
      · exact h.le
    rw [abs_le]
    constructor <;> linarith
  · next h =>
    have hhalf : 1 / 2 ≤ Int.fract x := not_lt.mp fun hlt => h (.inl hlt)
    push_cast
    rw [abs_le]
    constructor <;> linarith

lemma roundEven_intCast (n : ℤ) : roundEven n = n := by
  unfold roundEven
  rw [Int.fract_intCast, Int.floor_intCast]
  exact if_pos (.inl (by norm_num))

/-- Within half a unit of an integer there is no other. -/
lemma roundAway_eq {x : ℚ} {n : ℤ} (h : |x - n| < 1 / 2) : roundAway x = n := by
  obtain ⟨hlo, hhi⟩ := abs_lt.mp h
  unfold roundAway
  split
  · have hfloor : ⌊-x + 1 / 2⌋ = -n := by
      rw [Int.floor_eq_iff]
      push_cast
      constructor <;> linarith
    rw [hfloor, neg_neg]
  · rw [Int.floor_eq_iff]
    constructor <;> linarith

lemma abs_roundAway_sub_le (x : ℚ) : |(roundAway x : ℚ) - x| ≤ 1 / 2 := by
  unfold roundAway
  split
  · have hlo := Int.floor_le (-x + 1 / 2)
    have hhi := Int.lt_floor_add_one (-x + 1 / 2)
    push_cast
    rw [abs_le]
    constructor <;> linarith
  · have hlo := Int.floor_le (x + 1 / 2)
    have hhi := Int.lt_floor_add_one (x + 1 / 2)
    rw [abs_le]
    constructor <;> linarith

/-! ## To a number of significant bits -/

lemma two_zpow_pos (k : ℤ) : (0 : ℚ) < 2 ^ k := zpow_pos (by norm_num) k

/-- The unit in the last place is small against the number. -/
lemma two_zpow_exponent_le (p : ℕ) {x : ℚ} (hx : x ≠ 0) :
    (2 : ℚ) ^ exponent p x ≤ 2 * |x| / 2 ^ p := by
  have hlog : (2 : ℚ) ^ Int.log 2 |x| ≤ |x| := by
    exact_mod_cast Int.zpow_log_le_self (b := 2) (by norm_num) (abs_pos.mpr hx)
  have hp : (0 : ℚ) < 2 ^ p := by positivity
  have hsplit : (2 : ℚ) ^ exponent p x * 2 ^ p = 2 * 2 ^ Int.log 2 |x| := by
    rw [exponent, ← zpow_natCast, ← zpow_add₀ (by norm_num), sub_add_cancel,
      zpow_add_one₀ (by norm_num), mul_comm]
  rw [le_div_iff₀ hp, hsplit]
  linarith

/-- The relative error of rounding. -/
theorem abs_roundRat_sub_le (p : ℕ) (x : ℚ) : |roundRat p x - x| ≤ |x| / 2 ^ p := by
  by_cases hx : x = 0
  · subst hx
    simp [roundRat, roundEven]
  · have hpos := two_zpow_pos (exponent p x)
    have herror := abs_roundEven_sub_le (x / 2 ^ exponent p x)
    have hle := two_zpow_exponent_le p hx
    have hscale : roundRat p x - x =
        (roundEven (x / 2 ^ exponent p x) - x / 2 ^ exponent p x) * 2 ^ exponent p x := by
      rw [roundRat, sub_mul, div_mul_cancel₀ _ hpos.ne']
    calc |roundRat p x - x|
        = |roundEven (x / 2 ^ exponent p x) - x / 2 ^ exponent p x| * 2 ^ exponent p x := by
          rw [hscale, abs_mul, abs_of_pos hpos]
      _ ≤ 1 / 2 * (2 * |x| / 2 ^ p) := mul_le_mul herror hle hpos.le (by norm_num)
      _ = |x| / 2 ^ p := by ring

/-- Integers of at most `p` bits are kept. -/
theorem roundRat_intCast {p : ℕ} {n : ℤ} (h : |n| < 2 ^ p) : roundRat p n = n := by
  by_cases hn : n = 0
  · subst hn
    simp [roundRat, roundEven]
  · have hx : (0 : ℚ) < |(n : ℚ)| := abs_pos.mpr (by exact_mod_cast hn)
    have hlog : Int.log 2 |(n : ℚ)| < p := by
      have hle : (2 : ℚ) ^ Int.log 2 |(n : ℚ)| ≤ |(n : ℚ)| := by
        exact_mod_cast Int.zpow_log_le_self (b := 2) (by norm_num) hx
      have hlt : |(n : ℚ)| < (2 : ℚ) ^ (p : ℤ) := by
        rw [zpow_natCast]
        exact_mod_cast h
      exact (zpow_lt_zpow_iff_right₀ (by norm_num)).mp (hle.trans_lt hlt)
    -- the last place is no fraction, so the integer is a multiple of it
    obtain ⟨k, hk⟩ : ∃ k : ℕ, exponent p n = -(k : ℤ) :=
      ⟨(-exponent p n).toNat, by unfold exponent; omega⟩
    have hpow : (n : ℚ) / 2 ^ exponent p n = ((n * 2 ^ k : ℤ) : ℚ) := by
      rw [hk, zpow_neg, div_inv_eq_mul, zpow_natCast]
      push_cast
      rfl
    rw [roundRat, hpow, roundEven_intCast, ← hpow,
      div_mul_cancel₀ _ (two_zpow_pos (exponent p n)).ne']

end Zsl.Lib.Rounding
