import Mathlib.Algebra.Order.Ring.Int
import Mathlib.Tactic.Ring

/-!
# Rounding integers to a number of significant bits

The conversion of an integer to a binary floating-point format of `p` bits of precision
and unbounded exponents: the nearest number with `p` significant bits, and of two equally
near ones the one with the even significand.

* `Representable`: the numbers of the format;
* `le_roundNat`, `roundNat_le`: rounding passes over no representable number;
* `roundNat_eq_self_iff`: exactly the representable ones are kept.
-/

namespace Zsl.Lib.Rounding

/-- A significand of `p` bits times a power of two. -/
def Representable (p n : ℕ) : Prop := ∃ c e, c < 2 ^ p ∧ n = c * 2 ^ e

/-- The unit in the last place of the `p` leading bits of `n`. -/
def ulp (p n : ℕ) : ℕ := 2 ^ (n.log2 + 1 - p)

/-- `n` rounded to nearest, ties to even. -/
def roundNat (p n : ℕ) : ℕ :=
  let u := ulp p n
  if 2 * (n % u) < u ∨ 2 * (n % u) = u ∧ n / u % 2 = 0 then n / u * u
  else (n / u + 1) * u

/-- The same for an integer, by its absolute value. -/
def roundInt (p : ℕ) (z : ℤ) : ℤ :=
  if z < 0 then -(roundNat p z.natAbs : ℤ) else roundNat p z.natAbs

variable {p : ℕ}

lemma ulp_pos (p n : ℕ) : 0 < ulp p n := Nat.two_pow_pos _

/-- Rounding goes down to a multiple of the unit, or up to the next one. -/
lemma roundNat_cases (p n : ℕ) :
    roundNat p n = n / ulp p n * ulp p n ∨
      n % ulp p n ≠ 0 ∧ roundNat p n = (n / ulp p n + 1) * ulp p n := by
  have hpos := ulp_pos p n
  unfold roundNat
  dsimp only
  split
  · exact Or.inl rfl
  · next h =>
    refine Or.inr ⟨fun h0 => h (Or.inl ?_), rfl⟩
    omega

lemma representable_two_pow (hp : 0 < p) (k : ℕ) : Representable p (2 ^ k) :=
  ⟨1, k, Nat.one_lt_two_pow (Nat.pos_iff_ne_zero.mp hp), by rw [Nat.one_mul]⟩

/-- A representable number with as many bits as `n` is a multiple of the unit of `n`. -/
lemma ulp_dvd {n m : ℕ} (hm : Representable p m) (h : 2 ^ n.log2 ≤ m) : ulp p n ∣ m := by
  obtain ⟨c, k, hc, rfl⟩ := hm
  apply Dvd.dvd.mul_left
  apply Nat.pow_dvd_pow
  -- the significand has `p` bits, so the exponent makes up for the others
  have hlt : 2 ^ n.log2 < 2 ^ (p + k) := by
    rw [Nat.pow_add]
    exact Nat.lt_of_le_of_lt h (Nat.mul_lt_mul_of_pos_right hc (Nat.two_pow_pos k))
  have hexp : n.log2 < p + k := (Nat.pow_lt_pow_iff_right (by decide)).mp hlt
  omega

/-- No representable number below `n` is above its rounding. -/
theorem le_roundNat (hp : 0 < p) {n m : ℕ} (hm : Representable p m) (h : m ≤ n) :
    m ≤ roundNat p n := by
  have hround : n / ulp p n * ulp p n ≤ roundNat p n := by
    rcases roundNat_cases p n with heq | ⟨-, heq⟩
    · omega
    · rw [heq]
      exact Nat.mul_le_mul_right _ (Nat.le_succ _)
  have hfloor {k : ℕ} (hdvd : ulp p n ∣ k) (hk : k ≤ n) : k ≤ n / ulp p n * ulp p n := by
    obtain ⟨j, rfl⟩ := hdvd
    rw [Nat.mul_comm _ j]
    apply Nat.mul_le_mul_right
    rw [Nat.le_div_iff_mul_le (ulp_pos p n), Nat.mul_comm]
    exact hk
  rcases Nat.lt_or_ge m (2 ^ n.log2) with hlow | hhigh
  · -- the leading bit of `n` is kept
    rcases Nat.eq_zero_or_pos n with rfl | hn
    · omega
    have hlead : 2 ^ n.log2 ≤ n := Nat.log2_self_le (Nat.pos_iff_ne_zero.mp hn)
    have hkeep := hfloor (ulp_dvd (representable_two_pow hp n.log2) (Nat.le_refl _)) hlead
    omega
  · have hkeep := hfloor (ulp_dvd hm hhigh) h
    omega

/-- No representable number above `n` is below its rounding. -/
theorem roundNat_le {n m : ℕ} (hm : Representable p m) (h : n ≤ m) : roundNat p n ≤ m := by
  have hfloor : n / ulp p n * ulp p n ≤ n := Nat.div_mul_le_self _ _
  rcases roundNat_cases p n with heq | ⟨hne, heq⟩
  · omega
  · have hn : n ≠ 0 := fun h0 => hne (by rw [h0, Nat.zero_mod])
    obtain ⟨j, rfl⟩ := ulp_dvd hm (Nat.le_trans (Nat.log2_self_le hn) h)
    have hlt : n / ulp p n < j := by
      rw [Nat.div_lt_iff_lt_mul (ulp_pos p n), Nat.mul_comm]
      -- a number with a remainder is no multiple of the unit
      apply Nat.lt_of_le_of_ne h
      intro h0
      exact hne (Nat.mod_eq_zero_of_dvd (Dvd.intro j h0.symm))
    rw [heq, Nat.mul_comm _ j]
    exact Nat.mul_le_mul_right _ hlt

lemma div_ulp_lt (p n : ℕ) : n / ulp p n < 2 ^ p := by
  rw [Nat.div_lt_iff_lt_mul (ulp_pos p n), ulp, ← Nat.pow_add]
  exact Nat.lt_of_lt_of_le Nat.lt_log2_self (Nat.pow_le_pow_right (by decide) (by omega))

/-- What rounding gives is representable. -/
theorem representable_roundNat (hp : 0 < p) (n : ℕ) : Representable p (roundNat p n) := by
  have hlt := div_ulp_lt p n
  rcases roundNat_cases p n with heq | ⟨-, heq⟩
  · exact ⟨n / ulp p n, _, hlt, heq⟩
  · rcases Nat.lt_or_ge (n / ulp p n + 1) (2 ^ p) with hlt' | hge
    · exact ⟨n / ulp p n + 1, _, hlt', heq⟩
    · -- the significand overflows to the next power of two
      have hpow : n / ulp p n + 1 = 2 ^ p := by omega
      rw [heq, hpow, ulp, ← Nat.pow_add]
      exact representable_two_pow hp _

theorem roundNat_eq_self_iff (hp : 0 < p) (n : ℕ) : roundNat p n = n ↔ Representable p n := by
  constructor
  · intro h
    rw [← h]
    exact representable_roundNat hp n
  · intro h
    have hle := roundNat_le h (Nat.le_refl n)
    have hge := le_roundNat hp h (Nat.le_refl n)
    omega

/-! ## Integers -/

lemma natAbs_roundInt (p : ℕ) (z : ℤ) : (roundInt p z).natAbs = roundNat p z.natAbs := by
  unfold roundInt
  split <;> omega

theorem roundInt_eq_self_iff (hp : 0 < p) (z : ℤ) :
    roundInt p z = z ↔ Representable p z.natAbs := by
  rw [← roundNat_eq_self_iff hp]
  unfold roundInt
  split <;> omega

end Zsl.Lib.Rounding
