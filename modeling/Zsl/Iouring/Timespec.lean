import Mathlib.Algebra.Order.Ring.Int
import Zsl.Lib.Chrono

/-!
# Timeouts as timespecs

`create_timer` and `wait_for_events` take a count of microseconds and hand a
`__kernel_timespec` to the kernel.

* `toTimespec`: the conversion, for durations and for time points of any period;
* `createTimer`, `waitForEvents`: the timespecs of the two entry points;
* `timespec_iff`: they are normalised and exact exactly when the count of nanoseconds fits
  and is a whole number, and is not negative unless it is a whole number of seconds.
-/

namespace Zsl.Iouring
open Zsl.Lib Signed64 Chrono

/-- `__kernel_timespec`. -/
structure KernelTimespec where
  tvSec : ℤ
  tvNsec : ℤ
deriving DecidableEq, Repr

/-- `to_timespec` of a duration; `none` is a signed overflow. -/
def toTimespec {P : Ratio} (interval : Duration P) : Option KernelTimespec := do
  let nsecsSinceEpoch ← durationCast .nano interval
  let secsSinceEpoch ← durationCast .one nsecsSinceEpoch
  -- the subtraction converts the seconds back to nanoseconds
  let nsecs ← nsecsSinceEpoch.sub (← durationCast .nano secsSinceEpoch)
  return ⟨secsSinceEpoch.count, nsecs.count⟩

/-- `to_timespec` of a time point, with the same body for its time since the epoch. -/
def timePointToTimespec {P : Ratio} (when : TimePoint P) : Option KernelTimespec :=
  toTimespec when.timeSinceEpoch

/-- The timespec of the event that `create_timer` makes. -/
def createTimer (interval : Duration .micro) : Option KernelTimespec := toTimespec interval

/-- The timespec that `wait_for_events` passes to `io_uring_wait_cqes`, whose timeout is
converted to nanoseconds on the way to the implementation. -/
def waitForEvents (waitTimeout : Duration .micro) : Option KernelTimespec := do
  let waitTimeout ← durationCast .nano waitTimeout
  toTimespec waitTimeout

/-! ## The conversion -/

/-- The timespec is normalised and stands for the duration. -/
def Denotes {P : Ratio} (r : Option KernelTimespec) (d : Duration P) : Prop :=
  ∃ ts, r = some ts ∧ 0 ≤ ts.tvNsec ∧ ts.tvNsec < 1000000000 ∧
    (ts.tvSec * 1000000000 + ts.tvNsec) * P.den = d.count * P.num * 1000000000

lemma nano_divide_one : (Ratio.nano.divide .one).num = 1 ∧
    (Ratio.nano.divide .one).den = 1000000000 := by decide

lemma one_divide_nano : (Ratio.one.divide .nano).num = 1000000000 ∧
    (Ratio.one.divide .nano).den = 1 := by decide

lemma nano_divide_nano : (Ratio.nano.divide .nano).num = 1 ∧
    (Ratio.nano.divide .nano).den = 1 := by decide

lemma micro_divide_nano : (Ratio.micro.divide .nano).num = 1000 ∧
    (Ratio.micro.divide .nano).den = 1 := by decide

lemma durationCast_nano {n : ℤ} (h : Fits n) :
    durationCast .nano (⟨n⟩ : Duration .nano) = some ⟨n⟩ := by
  rw [durationCast_of_fits] <;> simp [nano_divide_nano, h]

/-- A count of nanoseconds is split by truncation, without an overflow. -/
lemma toTimespec_nano {n : ℤ} (h : Fits n) :
    toTimespec (⟨n⟩ : Duration .nano) =
      some ⟨n.tdiv 1000000000, n.tmod 1000000000⟩ := by
  have hrem : Fits (n.tmod 1000000000) := (betweenZero_tmod n _).fits h
  have hmul : Fits (n - n.tmod 1000000000) := (betweenZero_tmod n _).sub.fits h
  have hsum := Int.mul_tdiv_add_tmod n 1000000000
  have hsecs : durationCast .one (⟨n⟩ : Duration .nano) = some ⟨n.tdiv 1000000000⟩ := by
    rw [durationCast_of_fits] <;> simp [nano_divide_one, h]
  -- the seconds, as nanoseconds, are the count without its remainder
  have hback : durationCast .nano (⟨n.tdiv 1000000000⟩ : Duration .one) =
      some ⟨n - n.tmod 1000000000⟩ := by
    have heq : n.tdiv 1000000000 * 1000000000 = n - n.tmod 1000000000 := by omega
    rw [durationCast_of_fits] <;> simp [one_divide_nano, heq, hmul]
  have hsub : (⟨n⟩ : Duration .nano).sub ⟨n - n.tmod 1000000000⟩ =
      some ⟨n.tmod 1000000000⟩ := by
    have heq : n - (n - n.tmod 1000000000) = n.tmod 1000000000 := by omega
    unfold Duration.sub
    rw [heq, checked_of_fits hrem]
    rfl
  simp [toTimespec, durationCast_nano h, hsecs, hback, hsub]

/-- A duration whose count of nanoseconds can be computed is split like that count. -/
lemma toTimespec_of_fits {P : Ratio} {c : ℤ} (h : Fits (c * (P.divide .nano).num)) :
    toTimespec (⟨c⟩ : Duration P) =
      toTimespec (⟨(c * (P.divide .nano).num).tdiv (P.divide .nano).den⟩ : Duration .nano) := by
  have hcast := durationCast_of_fits (d := (⟨c⟩ : Duration P)) h
  have hsame := durationCast_nano (h.tdiv (Int.natCast_nonneg (P.divide .nano).den))
  unfold toTimespec
  rw [hcast, hsame]

/-- `waitForEvents` converts to nanoseconds first, with the same result. -/
lemma waitForEvents_eq (c : ℤ) : waitForEvents ⟨c⟩ = toTimespec (⟨c⟩ : Duration .micro) := by
  unfold waitForEvents
  by_cases h : Fits (c * (Ratio.micro.divide .nano).num)
  · rw [durationCast_of_fits h, toTimespec_of_fits h]
    rfl
  · rw [toTimespec, durationCast_of_not h]
    rfl

/-! ## When it is exact -/

/-- The count of nanoseconds can be computed and is a whole number; below zero it is also a
whole number of seconds. -/
def Convertible (P : Ratio) (c : ℤ) : Prop :=
  Fits (c * (P.divide .nano).num) ∧ ((P.divide .nano).den : ℤ) ∣ c * (P.divide .nano).num ∧
    (0 ≤ c ∨ (1000000000 : ℤ) * (P.divide .nano).den ∣ c * (P.divide .nano).num)

/-- The sign and the whole seconds of a count of nanoseconds, read off its numerator. -/
lemma nonneg_or_dvd_iff {P : Ratio} {c : ℤ}
    (hdvd : ((P.divide .nano).den : ℤ) ∣ c * (P.divide .nano).num) :
    (0 ≤ (c * (P.divide .nano).num).tdiv (P.divide .nano).den ∨
        (1000000000 : ℤ) ∣ (c * (P.divide .nano).num).tdiv (P.divide .nano).den) ↔
      (0 ≤ c ∨ (1000000000 : ℤ) * (P.divide .nano).den ∣ c * (P.divide .nano).num) := by
  have hnum : (0 : ℤ) < (P.divide .nano).num := Int.natCast_pos.mpr (P.divide .nano).num_pos
  have hden : (0 : ℤ) < (P.divide .nano).den := Int.natCast_pos.mpr (P.divide .nano).den_pos
  generalize ((P.divide .nano).num : ℤ) = n at *
  generalize ((P.divide .nano).den : ℤ) = d at *
  obtain ⟨q, hq⟩ := hdvd
  have hdiv : (c * n).tdiv d = q := by
    rw [hq, Int.mul_tdiv_cancel_left q hden.ne']
  have hsign : 0 ≤ q ↔ 0 ≤ c := by
    rw [← mul_nonneg_iff_of_pos_left hden, ← hq, mul_nonneg_iff_of_pos_right hnum]
  rw [hdiv, hsign, hq, mul_comm d q, mul_dvd_mul_iff_right hden.ne']

theorem toTimespec_iff {P : Ratio} (c : ℤ) :
    Denotes (toTimespec (⟨c⟩ : Duration P)) (⟨c⟩ : Duration P) ↔ Convertible P c := by
  unfold Convertible
  by_cases h : Fits (c * (P.divide .nano).num)
  · have hexact := durationCast_exact_iff (P := P) (Q := .nano) c
    have hsign (hdvd : ((P.divide .nano).den : ℤ) ∣ c * (P.divide .nano).num) :=
      nonneg_or_dvd_iff hdvd
    rw [toTimespec_of_fits h, toTimespec_nano (h.tdiv (Int.natCast_nonneg _))]
    generalize (c * (P.divide .nano).num).tdiv (P.divide .nano).den = q at *
    have hsum : q.tdiv 1000000000 * 1000000000 + q.tmod 1000000000 = q := by
      have hmul := Int.mul_tdiv_add_tmod q 1000000000
      omega
    have hvalue : (q.tdiv 1000000000 * 1000000000 + q.tmod 1000000000) * P.den =
        c * P.num * 1000000000 ↔ ((P.divide .nano).den : ℤ) ∣ c * (P.divide .nano).num := by
      rw [hsum, ← hexact]
      simp [Ratio.nano, mul_assoc]
    constructor
    · rintro ⟨ts, hts, hlo, -, heq⟩
      obtain rfl := Option.some.inj hts
      have hdvd := hvalue.mp heq
      exact ⟨h, hdvd, (hsign hdvd).mp (tmod_nonneg_iff.mp hlo)⟩
    · rintro ⟨-, hdvd, hnonneg⟩
      refine ⟨_, rfl, ?_, Int.tmod_lt_of_pos q (by decide), hvalue.mpr hdvd⟩
      exact tmod_nonneg_iff.mpr ((hsign hdvd).mpr hnonneg)
  · refine iff_of_false ?_ (fun hc => h hc.1)
    rintro ⟨ts, hts, -⟩
    rw [toTimespec, durationCast_of_not h] at hts
    cases hts

/-- The same for a count of microseconds. -/
lemma convertible_micro_iff (c : ℤ) :
    Convertible .micro c ↔ Fits (c * 1000) ∧ (0 ≤ c ∨ (1000000 : ℤ) ∣ c) := by
  unfold Convertible
  rw [micro_divide_nano.1, micro_divide_nano.2]
  constructor
  · rintro ⟨hfits, -, hsign⟩
    refine ⟨hfits, ?_⟩
    omega
  · rintro ⟨hfits, hsign⟩
    refine ⟨hfits, one_dvd _, ?_⟩
    omega

/-- **Timespec conversion.** For every count of microseconds and every time point the
timespec is normalised and denotes the input exactly under these conditions. -/
theorem timespec_iff (P : Ratio) (c : Int64) :
    (Denotes (createTimer ⟨c.toInt⟩) (⟨c.toInt⟩ : Duration .micro) ↔
      Fits (c.toInt * 1000) ∧ (0 ≤ c.toInt ∨ (1000000 : ℤ) ∣ c.toInt)) ∧
    (Denotes (waitForEvents ⟨c.toInt⟩) (⟨c.toInt⟩ : Duration .micro) ↔
      Fits (c.toInt * 1000) ∧ (0 ≤ c.toInt ∨ (1000000 : ℤ) ∣ c.toInt)) ∧
    (Denotes (timePointToTimespec (⟨⟨c.toInt⟩⟩ : TimePoint P)) (⟨c.toInt⟩ : Duration P) ↔
      Convertible P c.toInt) := by
  refine ⟨?_, ?_, ?_⟩
  · rw [← convertible_micro_iff]
    exact toTimespec_iff c.toInt
  · rw [waitForEvents_eq, ← convertible_micro_iff]
    exact toTimespec_iff c.toInt
  · exact toTimespec_iff c.toInt

/-- One microsecond before zero gives a negative `tv_nsec`; the longest timeout overflows. -/
theorem timespec_fails :
    createTimer ⟨-1⟩ = some ⟨0, -1000⟩ ∧ ¬ Denotes (createTimer ⟨-1⟩) (⟨-1⟩ : Duration .micro) ∧
      waitForEvents ⟨(9223372036854775807 : Int64).toInt⟩ = none := by
  have hneg : createTimer ⟨-1⟩ = some ⟨0, -1000⟩ := by decide
  refine ⟨hneg, fun h => ?_, by decide⟩
  obtain ⟨ts, hts, hlo, -⟩ := h
  rw [hneg] at hts
  obtain rfl := Option.some.inj hts
  revert hlo
  decide

end Zsl.Iouring
