import Mathlib.Tactic.Ring
import Zsl.Lib.Signed64

/-!
# Durations

Counts of a period, a positive fraction of a second, with a 64-bit signed count.

* `Ratio.divide`: the quotient of two periods in lowest terms;
* `durationCast`: the conversion of a count, which multiplies before it divides and
  truncates toward zero;
* `durationCast_exact_iff`: when the truncation loses nothing.
-/

namespace Zsl.Lib.Chrono
open Signed64

/-- A positive fraction. -/
structure Ratio where
  num : ℕ
  den : ℕ
  num_pos : 0 < num
  den_pos : 0 < den

namespace Ratio

def one : Ratio := ⟨1, 1, by decide, by decide⟩

def micro : Ratio := ⟨1, 1000000, by decide, by decide⟩

def nano : Ratio := ⟨1, 1000000000, by decide, by decide⟩

/-- The common factor of a quotient. -/
def gcd (p q : Ratio) : ℕ := (p.num * q.den).gcd (p.den * q.num)

/-- `p / q` in lowest terms. -/
def divide (p q : Ratio) : Ratio where
  num := p.num * q.den / p.gcd q
  den := p.den * q.num / p.gcd q
  num_pos := Nat.div_gcd_pos_of_pos_left _ (Nat.mul_pos p.num_pos q.den_pos)
  den_pos := Nat.div_gcd_pos_of_pos_right _ (Nat.mul_pos p.den_pos q.num_pos)

/-- The quotient is the fraction that it stands for. -/
lemma divide_num_mul (p q : Ratio) :
    (p.divide q).num * (p.den * q.num) = (p.divide q).den * (p.num * q.den) := by
  have hnum : p.num * q.den / p.gcd q * p.gcd q = p.num * q.den :=
    Nat.div_mul_cancel (Nat.gcd_dvd_left _ _)
  have hden : p.den * q.num / p.gcd q * p.gcd q = p.den * q.num :=
    Nat.div_mul_cancel (Nat.gcd_dvd_right _ _)
  show p.num * q.den / p.gcd q * (p.den * q.num) = p.den * q.num / p.gcd q * (p.num * q.den)
  calc p.num * q.den / p.gcd q * (p.den * q.num)
      = p.num * q.den / p.gcd q * (p.den * q.num / p.gcd q * p.gcd q) := by rw [hden]
    _ = p.den * q.num / p.gcd q * (p.num * q.den / p.gcd q * p.gcd q) := by ring
    _ = p.den * q.num / p.gcd q * (p.num * q.den) := by rw [hnum]

end Ratio

/-- A number of periods. -/
@[ext] structure Duration (P : Ratio) where
  count : ℤ
deriving DecidableEq, Repr

/-- A point in time, as the duration since the epoch of its clock. -/
structure TimePoint (P : Ratio) where
  timeSinceEpoch : Duration P

variable {P Q : Ratio}

/-- The difference of two durations of one period. -/
def Duration.sub (a b : Duration P) : Option (Duration P) :=
  (checked (a.count - b.count)).map Duration.mk

/-- `std::chrono::duration_cast`. Where the quotient of the periods has a numerator or a
denominator of 1 the operation with it is left out, which changes nothing. -/
def durationCast (Q : Ratio) (d : Duration P) : Option (Duration Q) :=
  (checked (d.count * (P.divide Q).num)).map fun n => ⟨n.tdiv (P.divide Q).den⟩

lemma durationCast_of_fits {d : Duration P} (h : Fits (d.count * (P.divide Q).num)) :
    durationCast Q d = some ⟨(d.count * (P.divide Q).num).tdiv (P.divide Q).den⟩ := by
  rw [durationCast, checked_of_fits h]
  rfl

lemma durationCast_of_not {d : Duration P} (h : ¬ Fits (d.count * (P.divide Q).num)) :
    durationCast Q d = none := by
  rw [durationCast, checked_of_not h]
  rfl

/-- A converted count stands for the same time exactly if the division leaves no remainder. -/
theorem durationCast_exact_iff (c : ℤ) :
    (c * (P.divide Q).num).tdiv (P.divide Q).den * (P.den * Q.num : ℕ)
        = c * (P.num * Q.den : ℕ) ↔
      ((P.divide Q).den : ℤ) ∣ c * (P.divide Q).num := by
  have hratio : ((P.divide Q).num : ℤ) * (P.den * Q.num : ℕ)
      = (P.divide Q).den * (P.num * Q.den : ℕ) := by
    exact_mod_cast P.divide_num_mul Q
  have hden : ((P.divide Q).den : ℤ) ≠ 0 := by
    have hpos := (P.divide Q).den_pos
    omega
  have hunit : ((P.den * Q.num : ℕ) : ℤ) ≠ 0 := by
    have hpos := Nat.mul_pos P.den_pos Q.num_pos
    omega
  generalize ((P.den * Q.num : ℕ) : ℤ) = u at *
  generalize ((P.num * Q.den : ℕ) : ℤ) = v at *
  generalize ((P.divide Q).num : ℤ) = n at *
  generalize ((P.divide Q).den : ℤ) = d at *
  constructor
  · intro h
    -- both sides times the denominator
    have hcancel : (c * n).tdiv d * d * u = c * n * u := by
      calc (c * n).tdiv d * d * u = (c * n).tdiv d * u * d := by ring
        _ = c * v * d := by rw [h]
        _ = c * (d * v) := by ring
        _ = c * n * u := by rw [← hratio]; ring
    have hdiv : (c * n).tdiv d * d = c * n := mul_right_cancel₀ hunit hcancel
    exact Dvd.intro_left _ hdiv
  · intro h
    have hdiv : (c * n).tdiv d * d = c * n := Int.tdiv_mul_cancel h
    apply mul_right_cancel₀ hden
    calc (c * n).tdiv d * u * d = (c * n).tdiv d * d * u := by ring
      _ = c * (n * u) := by rw [hdiv]; ring
      _ = c * v * d := by rw [hratio]; ring

end Zsl.Lib.Chrono
