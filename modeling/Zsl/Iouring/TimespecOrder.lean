import Mathlib.Algebra.Order.Field.Basic
import Mathlib.Algebra.Order.Field.Rat
import Mathlib.Tactic.FieldSimp
import Mathlib.Tactic.Linarith
import Zsl.Iouring.Timespec

/-!
# What a timespec keeps of a duration

* `toTimespec_order`: a conversion loses less than a nanosecond, toward zero, and a longer
  duration never gets an earlier timespec;
* `createTimer_convert`: an interval in a coarser unit gets the timespec that it would get
  without the microseconds in between.
-/

namespace Zsl.Iouring
open Zsl.Lib Signed64 Chrono

namespace KernelTimespec

/-- The nanoseconds a timespec stands for. -/
def total (ts : KernelTimespec) : ℤ := ts.tvSec * 1000000000 + ts.tvNsec

/-- The order in which the kernel compares timespecs. -/
def le (ts ts' : KernelTimespec) : Prop :=
  ts.tvSec < ts'.tvSec ∨ ts.tvSec = ts'.tvSec ∧ ts.tvNsec ≤ ts'.tvNsec

end KernelTimespec

/-- A timespec is the truncated count of nanoseconds, split at the seconds. -/
lemma toTimespec_eq_some {P : Ratio} {c : ℤ} {ts : KernelTimespec}
    (h : toTimespec (⟨c⟩ : Duration P) = some ts) :
    ts = ⟨((c * (P.divide .nano).num).tdiv (P.divide .nano).den).tdiv 1000000000,
      ((c * (P.divide .nano).num).tdiv (P.divide .nano).den).tmod 1000000000⟩ := by
  by_cases hfits : Fits (c * (P.divide .nano).num)
  · rw [toTimespec_of_fits hfits, toTimespec_nano (hfits.tdiv (Int.natCast_nonneg _))] at h
    exact (Option.some.inj h).symm
  · rw [toTimespec, durationCast_of_not hfits] at h
    cases h

/-- Truncated quotients keep the order, and with the remainders as well. -/
lemma le_of_split {a b d : ℤ} (hd : 0 < d) (h : a ≤ b) :
    a.tdiv d < b.tdiv d ∨ a.tdiv d = b.tdiv d ∧ a.tmod d ≤ b.tmod d := by
  have hquot := Int.tdiv_le_tdiv hd h
  have ha := Int.mul_tdiv_add_tmod a d
  have hb := Int.mul_tdiv_add_tmod b d
  by_cases heq : a.tdiv d = b.tdiv d
  · rw [heq] at ha
    exact .inr ⟨heq, by omega⟩
  · exact .inl (by omega)

/-- Truncation loses less than a unit. -/
lemma abs_tdiv_sub_lt_one (n : ℤ) {d : ℤ} (hd : 0 < d) : |(n.tdiv d : ℚ) - n / d| < 1 := by
  have hd' : (0 : ℚ) < d := by exact_mod_cast hd
  have hsum := Int.mul_tdiv_add_tmod n d
  have hlo := Int.lt_tmod_of_pos n hd
  have hhi := Int.tmod_lt_of_pos n hd
  have heq : (n.tdiv d : ℚ) - n / d = -(n.tmod d : ℤ) / d := by
    have hcast : (d : ℚ) * n.tdiv d + n.tmod d = n := by exact_mod_cast hsum
    field_simp
    linarith
  have hlo' : (-d : ℚ) < n.tmod d := by exact_mod_cast hlo
  have hhi' : (n.tmod d : ℚ) < d := by exact_mod_cast hhi
  rw [heq, abs_div, abs_of_pos hd', div_lt_one hd', abs_neg, abs_lt]
  exact ⟨hlo', hhi'⟩

/-- The quotient of a period and a nanosecond, as a fraction. -/
lemma divide_nano_eq (P : Ratio) :
    ((P.divide .nano).num : ℚ) / (P.divide .nano).den = P.num / P.den * 1000000000 := by
  have hmul : ((P.divide .nano).num : ℚ) * P.den = (P.divide .nano).den * (P.num * 1000000000) := by
    have hnat := P.divide_num_mul .nano
    rw [show Ratio.nano.num = 1 from rfl, show Ratio.nano.den = 1000000000 from rfl,
      Nat.mul_one] at hnat
    exact_mod_cast hnat
  have hden : ((P.divide .nano).den : ℚ) ≠ 0 := by
    exact_mod_cast (P.divide .nano).den_pos.ne'
  have hden' : (P.den : ℚ) ≠ 0 := by exact_mod_cast P.den_pos.ne'
  field_simp
  linarith

/-- **Order.** Of two durations of one period, both converted, each timespec is less than a
nanosecond off, that of a positive one is normalised, and that of the longer one is not
before the other. -/
theorem toTimespec_order (P : Ratio) (c c' : ℤ) (hle : c ≤ c') (ts ts' : KernelTimespec)
    (h : toTimespec (⟨c⟩ : Duration P) = some ts)
    (h' : toTimespec (⟨c'⟩ : Duration P) = some ts') :
    |(ts.total : ℚ) - c * (P.num / P.den) * 1000000000| < 1 ∧
      (0 ≤ c → 0 ≤ ts.tvSec ∧ 0 ≤ ts.tvNsec ∧ ts.tvNsec < 1000000000) ∧ ts.le ts' := by
  have hnum : (0 : ℤ) < (P.divide .nano).num := Int.natCast_pos.mpr (P.divide .nano).num_pos
  have hden : (0 : ℤ) < (P.divide .nano).den := Int.natCast_pos.mpr (P.divide .nano).den_pos
  have hscaled := Int.mul_le_mul_of_nonneg_right hle hnum.le
  obtain rfl := toTimespec_eq_some h
  obtain rfl := toTimespec_eq_some h'
  refine ⟨?_, fun hc => ?_, ?_⟩
  · have hsum := Int.mul_tdiv_add_tmod
      ((c * (P.divide .nano).num).tdiv (P.divide .nano).den) 1000000000
    have hlost := abs_tdiv_sub_lt_one (c * (P.divide .nano).num) hden
    have hvalue : ((c * (P.divide .nano).num : ℤ) : ℚ) / ((P.divide .nano).den : ℤ) =
        c * (P.num / P.den) * 1000000000 := by
      push_cast
      rw [mul_div_assoc, divide_nano_eq, mul_assoc]
    rw [hvalue] at hlost
    rw [KernelTimespec.total, mul_comm, hsum]
    exact hlost
  · have hnonneg : 0 ≤ (c * (P.divide .nano).num).tdiv (P.divide .nano).den :=
      Int.tdiv_nonneg (mul_nonneg hc hnum.le) hden.le
    exact ⟨Int.tdiv_nonneg hnonneg (by decide), Int.tmod_nonneg _ hnonneg,
      Int.tmod_lt_of_pos _ (by decide)⟩
  · exact le_of_split (by decide) (Int.tdiv_le_tdiv hden hscaled)

/-- Two intervals of milliseconds. -/
theorem toTimespec_order_milli :
    KernelTimespec.le ⟨1, 500000000⟩ ⟨2, 0⟩ :=
  (toTimespec_order ⟨1, 1000, by decide, by decide⟩ 1500 2000 (by decide) ⟨1, 500000000⟩ ⟨2, 0⟩
    (by decide) (by decide)).2.2

/-! ## Coarser units -/

/-- The conversion to the argument of `create_timer`, which the language makes only if the period
is a whole number of microseconds. -/
def createTimerOf {P : Ratio} (interval : Duration P) : Option KernelTimespec := do
  createTimer (← durationCast .micro interval)

/-- Such a period is as many nanoseconds as it is thousands of microseconds. -/
lemma divide_of_micro {P : Ratio} (hP : (P.divide .micro).den = 1) :
    (P.divide .nano).num = (P.divide .micro).num * 1000 ∧ (P.divide .nano).den = 1 := by
  have hg : P.gcd .micro = P.den := by
    have hdvd : P.gcd .micro ∣ P.den * 1 := Nat.gcd_dvd_right _ _
    have hone : P.den * 1 / P.gcd .micro = 1 := hP
    rw [Nat.mul_one] at hdvd hone
    exact (Nat.eq_of_dvd_of_div_eq_one hdvd hone)
  obtain ⟨k, hk⟩ : P.den ∣ P.num * 1000000 := by
    rw [← hg]
    exact Nat.gcd_dvd_left _ _
  have hk' : P.num * 1000000000 = P.den * (k * 1000) := by
    rw [← Nat.mul_assoc, ← hk, Nat.mul_assoc]
  have hg' : P.gcd .nano = P.den := by
    show (P.num * 1000000000).gcd (P.den * 1) = P.den
    rw [hk', Nat.mul_one]
    exact Nat.gcd_eq_right (Nat.dvd_mul_right _ _)
  constructor
  · show P.num * 1000000000 / P.gcd .nano = P.num * 1000000 / P.gcd .micro * 1000
    rw [hg, hg', hk', hk, Nat.mul_div_cancel_left _ P.den_pos, Nat.mul_div_cancel_left _ P.den_pos]
  · show P.den * 1 / P.gcd .nano = 1
    rw [hg', Nat.mul_one, Nat.div_self P.den_pos]

/-- **Coarser units.** The way through microseconds changes nothing, and overflows only where the
conversion does without it. -/
theorem createTimer_convert (P : Ratio) (hP : (P.divide .micro).den = 1) (c : ℤ) :
    createTimerOf (⟨c⟩ : Duration P) = toTimespec (⟨c⟩ : Duration P) := by
  obtain ⟨hnum, hden⟩ := divide_of_micro hP
  have hproduct : c * ((P.divide .nano).num : ℤ) = c * (P.divide .micro).num * 1000 := by
    rw [hnum]
    push_cast
    ring
  unfold createTimerOf
  by_cases hfits : Fits (c * (P.divide .micro).num)
  · rw [durationCast_of_fits hfits, hP]
    show toTimespec (⟨(c * (P.divide .micro).num).tdiv 1⟩ : Duration .micro) = _
    rw [Int.tdiv_one]
    by_cases hnano : Fits (c * (P.divide .micro).num * 1000)
    · have hmicro : Fits (c * (P.divide .micro).num * (Ratio.micro.divide .nano).num) := hnano
      have hdirect : Fits (c * (P.divide .nano).num) := by rwa [hproduct]
      rw [toTimespec_of_fits hmicro, toTimespec_of_fits hdirect, hproduct, hden]
      rfl
    · have hmicro : ¬ Fits (c * (P.divide .micro).num * (Ratio.micro.divide .nano).num) := hnano
      rw [toTimespec, toTimespec, durationCast_of_not hmicro,
        durationCast_of_not (by rwa [hproduct])]
  · -- what overflows in microseconds overflows in nanoseconds
    have hnano : ¬ Fits (c * (P.divide .nano).num) := by
      rw [hproduct]
      unfold Fits at *
      omega
    rw [durationCast_of_not hfits, toTimespec, durationCast_of_not hnano]
    rfl

/-- Three seconds. -/
theorem createTimer_convert_seconds :
    createTimerOf (⟨3⟩ : Duration .one) = toTimespec (⟨3⟩ : Duration .one) :=
  createTimer_convert .one (by decide) 3

end Zsl.Iouring
