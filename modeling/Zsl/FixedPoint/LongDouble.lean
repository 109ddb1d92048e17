import Zsl.FixedPoint.FromInteger
import Zsl.Lib.RationalRounding

/-!
# `fixed_decimal_t` and floating point

`from(long double v)` multiplies and rounds in `long double`, a binary format whose precision
depends on the target; `operator double` divides in integers.

* `fromLongDouble_literal`: the nearest `long double` of a decimal of the type gives the
  decimal back;
* `fromLongDouble_spec`: the error of any other, and the range that is accepted;
* `fromLongDouble_operatorDouble_iff`: the values that survive the way to a `double` and back;
* `from_overloads_iff`: the integers on which the two overloads of `from` agree.
-/

namespace Zsl.FixedPoint
open Zsl.Lib Signed64 Rounding

namespace FixedDecimal
variable {d : Digits}

/-- `std::llround` of a `long double`; beyond the range of `long long` the result is
unspecified. -/
def llroundLongDouble (unspecified : ℚ → ℤ) (x : ℚ) : ℤ :=
  if Fits (roundAway x) then roundAway x else unspecified x

/-- `std::to_string` of a `long double` before C++26, with six digits after the point. -/
def toStringLongDouble (v : ℚ) : String :=
  let n := (roundEven (|v| * 10 ^ 6)).toNat
  let digits := [5, 4, 3, 2, 1, 0].map fun i => Nat.digitChar (n / 10 ^ i % 10)
  (if v < 0 then "-" else "") ++ toString (n / 10 ^ 6) ++ "." ++ String.ofList digits

/-- `from(long double v)`, for a `long double` of `p` bits of precision, a finite `v` and
whatever text `std::to_string` gives for it. -/
def fromLongDouble (d : Digits) (p : ℕ) (toStr : ℚ → String) (unspecified : ℚ → ℤ) (v : ℚ) :
    Except Failure (FixedDecimal d) := do
  let repv := llroundLongDouble unspecified (roundRat p (v * roundRat p (← d.scaleFactor)))
  if ← d.inRangeRaw repv then
    fromRaw d repv
  else
    .error (.outOfRange ("fixed_decimal value out of range" ++ toStr v))

/-- `operator double`. The quotient is that of two integers. -/
def operatorDouble (x : FixedDecimal d) : Except Failure ℤ := do
  return toDouble (x.rep.tdiv (← d.scaleFactor))

end FixedDecimal

example : FixedDecimal.toStringLongDouble (-12345678 / 1000) = "-12345.678000" := by decide +kernel

/-! ## The product -/

section
variable {d : Digits} {p : ℕ} {toStr : ℚ → String} {unspecified : ℚ → ℤ} {v : ℚ}

lemma abs_lt_two_pow {p : ℕ} (hp : 64 ≤ p) {n : ℤ} (h : |n| ≤ 10 ^ 18) : |n| < 2 ^ p := by
  have hpow : (2 : ℤ) ^ 64 ≤ 2 ^ p := pow_le_pow_right₀ (by norm_num) hp
  norm_num at hpow h
  omega

/-- The scale factor is a power of ten up to `10 ^ 18`, with no more than 60 bits. -/
lemma roundRat_scale (d : Digits) (hp : 64 ≤ p) : roundRat p (d.scale : ℤ) = d.scale := by
  apply roundRat_intCast
  apply abs_lt_two_pow hp
  have hle : d.scale ≤ 10 ^ 18 :=
    pow_le_pow_right₀ (by norm_num) (Nat.le_trans (Nat.le_add_left _ _) d.total_le)
  rw [abs_of_pos d.scale_pos]
  exact hle

lemma fromLongDouble_eq (hp : 64 ≤ p) :
    FixedDecimal.fromLongDouble d p toStr unspecified v =
      if d.InRange (FixedDecimal.llroundLongDouble unspecified (roundRat p (v * d.scale))) then
        .ok ⟨FixedDecimal.llroundLongDouble unspecified (roundRat p (v * d.scale))⟩
      else .error (.outOfRange
        ("fixed_decimal value out of range" ++ toStr v)) := by
  unfold FixedDecimal.fromLongDouble
  rw [d.scaleFactor_eq]
  show (d.inRangeRaw (FixedDecimal.llroundLongDouble unspecified
    (roundRat p (v * roundRat p (d.scale : ℤ))))).bind _ = _
  rw [roundRat_scale d hp, d.inRangeRaw_eq]
  show (if decide (d.InRange _) = true then FixedDecimal.fromRaw d _ else _) = _
  simp only [decide_eq_true_eq]
  split
  · next hin => rw [fromRaw_eq, if_pos hin]
  · rfl

/-- Rounding takes little of a product: at most its `2 ^ 64`th part. -/
lemma abs_roundRat_sub_le_two_pow (hp : 64 ≤ p) (x : ℚ) :
    |roundRat p x - x| ≤ |x| / 18446744073709551616 := by
  have hpow : (18446744073709551616 : ℚ) ≤ 2 ^ p := by
    have hle : (2 : ℚ) ^ 64 ≤ 2 ^ p := pow_le_pow_right₀ (by norm_num) hp
    norm_num at hle
    exact hle
  exact (abs_roundRat_sub_le p x).trans
    (div_le_div_of_nonneg_left (abs_nonneg x) (by norm_num) hpow)

/-- For a product of the size of the values of the type, that is a small part of a unit. -/
lemma abs_roundRat_sub_lt (hp : 64 ≤ p) {x : ℚ} (hx : |x| ≤ 1000000000000000001) :
    |roundRat p x - x| < 1 / 16 := by
  have hle := abs_roundRat_sub_le_two_pow hp x
  linarith

/-- No large product is rounded to a small one. -/
lemma abs_le_of_roundRat (hp : 64 ≤ p) {x : ℚ} (hx : |roundRat p x| ≤ 1000000000000000000) :
    |x| ≤ 1000000000000000001 := by
  have hle := abs_roundRat_sub_le_two_pow hp x
  have htriangle : |x| ≤ |roundRat p x| + |roundRat p x - x| := by
    rw [abs_sub_comm]
    have hsum := abs_add_le (roundRat p x) (x - roundRat p x)
    rwa [add_sub_cancel] at hsum
  linarith

lemma inRange_iff_abs {n : ℤ} : d.InRange n ↔ |(n : ℚ)| ≤ d.bound := by
  rw [← Int.cast_abs, Int.cast_le, abs_le]
  rfl

/-- An integer near a number less than half a unit beyond the bound is in range. -/
lemma inRange_roundAway {y : ℚ} (hy : |y| < d.bound + 1 / 2) : d.InRange (roundAway y) := by
  have hround := abs_roundAway_sub_le y
  have hlt : |(roundAway y : ℚ)| < d.bound + 1 := by
    have hsum := abs_add_le (roundAway y - y) y
    rw [sub_add_cancel] at hsum
    linarith
  rw [← Int.cast_abs] at hlt
  have hlt' : |roundAway y| < d.bound + 1 := by exact_mod_cast hlt
  exact abs_le.mp (Int.lt_add_one_iff.mp hlt')

/-- One near a number more than half a unit beyond it is not. -/
lemma not_inRange_roundAway {y : ℚ} (hy : d.bound + 1 / 2 < |y|) :
    ¬ d.InRange (roundAway y) := by
  rw [inRange_iff_abs, not_le]
  have hround := abs_roundAway_sub_le y
  rw [abs_sub_comm] at hround
  have hsum := abs_add_le (y - roundAway y) (roundAway y)
  rw [sub_add_cancel] at hsum
  linarith

lemma bound_cast_lt (d : Digits) : (d.bound : ℚ) ≤ 999999999999999999 := by
  have hlt := d.bound_lt
  exact_mod_cast (show d.bound ≤ 999999999999999999 by omega)

/-- A product well beyond the bound is refused, rounded or not. -/
lemma not_inRange_llround (hp : 64 ≤ p) (hout : ∀ x, ¬ d.InRange (unspecified x)) {x : ℚ}
    (hx : d.bound + 9 / 16 ≤ |x|) :
    ¬ d.InRange (FixedDecimal.llroundLongDouble unspecified (roundRat p x)) := by
  have hbound := bound_cast_lt d
  unfold FixedDecimal.llroundLongDouble
  split
  · apply not_inRange_roundAway
    by_cases hlarge : |roundRat p x| ≤ 1000000000000000000
    · have herror := abs_roundRat_sub_lt hp (abs_le_of_roundRat hp hlarge)
      rw [abs_sub_comm] at herror
      have hsum := abs_add_le (x - roundRat p x) (roundRat p x)
      rw [sub_add_cancel] at hsum
      linarith
    · linarith
  · exact hout _

/-! ## The range -/

/-- **From a decimal literal.** A decimal of the type, rounded to `long double`, gives back its
raw representation. -/
theorem fromLongDouble_literal (d : Digits) (p : ℕ) (hp : 64 ≤ p) (toStr : ℚ → String)
    (unspecified : ℚ → ℤ) (n : ℤ) (h : d.InRange n) :
    FixedDecimal.fromLongDouble d p toStr unspecified (roundRat p (n / d.scale)) = .ok ⟨n⟩ := by
  have hscale : (0 : ℚ) < d.scale := by exact_mod_cast d.scale_pos
  have hn : |(n : ℚ)| ≤ 999999999999999999 := (inRange_iff_abs.mp h).trans (bound_cast_lt d)
  -- the error of the literal, in units of the last decimal
  have hliteral : |roundRat p (n / d.scale) * d.scale - n| ≤ 1 / 16 := by
    have herror := abs_roundRat_sub_le_two_pow hp (n / d.scale)
    have hunits : roundRat p (n / d.scale) * d.scale - n =
        (roundRat p (n / d.scale) - n / d.scale) * d.scale := by
      rw [sub_mul, div_mul_cancel₀ _ hscale.ne']
    calc |roundRat p (n / d.scale) * d.scale - n|
        = |roundRat p (n / d.scale) - n / d.scale| * d.scale := by
          rw [hunits, abs_mul, abs_of_pos hscale]
      _ ≤ |(n : ℚ) / d.scale| / 18446744073709551616 * d.scale :=
          mul_le_mul_of_nonneg_right herror hscale.le
      _ = |(n : ℚ)| / 18446744073709551616 := by
          rw [abs_div, abs_of_pos hscale]
          field_simp
      _ ≤ 1 / 16 := by linarith
  have hproduct : |roundRat p (n / d.scale) * d.scale| ≤ 1000000000000000001 := by
    have hsum := abs_add_le (roundRat p (n / d.scale) * d.scale - n) n
    rw [sub_add_cancel] at hsum
    linarith
  have hrounded : |roundRat p (roundRat p (n / d.scale) * d.scale) - n| < 1 / 2 := by
    have herror := abs_roundRat_sub_lt hp hproduct
    have hsum := abs_sub_le (roundRat p (roundRat p (n / d.scale) * d.scale))
      (roundRat p (n / d.scale) * d.scale) n
    linarith
  have haway := roundAway_eq hrounded
  have hllround : FixedDecimal.llroundLongDouble unspecified
      (roundRat p (roundRat p (n / d.scale) * d.scale)) = n := by
    unfold FixedDecimal.llroundLongDouble
    rw [haway, if_pos h.fits]
  rw [fromLongDouble_eq hp, hllround, if_pos h]

/-- The literal `1.5` with nine fractional digits. -/
theorem fromLongDouble_literal_one_half :
    FixedDecimal.fromLongDouble ⟨9, 9, by decide⟩ 64 FixedDecimal.toStringLongDouble
        (fun _ => -9223372036854775808)
        (roundRat 64 ((1500000000 : ℤ) / (Digits.scale ⟨9, 9, by decide⟩ : ℤ))) =
      .ok ⟨1500000000⟩ :=
  fromLongDouble_literal ⟨9, 9, by decide⟩ 64 (by decide) _ _ 1500000000 (by decide)

/-- **From a `long double`.** What `from` accepts is at most 9/16 of a unit of the last decimal off;
it accepts every value at most 7/16 of a unit beyond the range, and throws, with the value in
its text, for those at least 9/16 beyond. -/
theorem fromLongDouble_spec (d : Digits) (p : ℕ) (hp : 64 ≤ p) (toStr : ℚ → String)
    (unspecified : ℚ → ℤ) (hout : ∀ x, ¬ d.InRange (unspecified x)) (v : ℚ) :
    (∀ x, FixedDecimal.fromLongDouble d p toStr unspecified v = .ok x →
        |x.rep - v * d.scale| ≤ 9 / 16) ∧
      (|v * d.scale| ≤ d.bound + 7 / 16 →
        ∃ x, FixedDecimal.fromLongDouble d p toStr unspecified v = .ok x) ∧
      (d.bound + 9 / 16 ≤ |v * d.scale| →
        FixedDecimal.fromLongDouble d p toStr unspecified v = .error (.outOfRange
          ("fixed_decimal value out of range" ++ toStr v))) := by
  rw [fromLongDouble_eq hp]
  generalize v * d.scale = x
  have hbound := bound_cast_lt d
  refine ⟨fun r hr => ?_, fun hx => ?_, fun hx => ?_⟩
  · split at hr
    · next hin =>
      obtain rfl := Except.ok.inj hr
      by_cases hfits : Fits (roundAway (roundRat p x))
      · have hround := abs_roundAway_sub_le (roundRat p x)
        have hll : FixedDecimal.llroundLongDouble unspecified (roundRat p x) =
            roundAway (roundRat p x) := if_pos hfits
        rw [hll] at hin
        have hrep := inRange_iff_abs.mp hin
        have hy : |roundRat p x| ≤ 1000000000000000000 := by
          rw [abs_sub_comm] at hround
          have hsum := abs_add_le (roundRat p x - roundAway (roundRat p x))
            (roundAway (roundRat p x))
          rw [sub_add_cancel] at hsum
          linarith
        have herror := abs_roundRat_sub_lt hp (abs_le_of_roundRat hp hy)
        have hsum := abs_sub_le (roundAway (roundRat p x) : ℚ) (roundRat p x) x
        show |((FixedDecimal.llroundLongDouble unspecified (roundRat p x) : ℤ) : ℚ) - x| ≤ 9 / 16
        rw [hll]
        linarith
      · have hll : FixedDecimal.llroundLongDouble unspecified (roundRat p x) =
            unspecified (roundRat p x) := if_neg hfits
        rw [hll] at hin
        exact absurd hin (hout _)
    · cases hr
  · have herror := abs_roundRat_sub_lt hp (x := x) (by linarith)
    have hin : d.InRange (roundAway (roundRat p x)) := by
      apply inRange_roundAway
      have hsum := abs_add_le (roundRat p x - x) x
      rw [sub_add_cancel] at hsum
      linarith
    have hll : FixedDecimal.llroundLongDouble unspecified (roundRat p x) =
        roundAway (roundRat p x) := if_pos hin.fits
    rw [hll, if_pos hin]
    exact ⟨_, rfl⟩
  · exact if_neg (not_inRange_llround hp hout hx)

/-- A value far out of range, and the `llround` of x86. -/
theorem fromLongDouble_spec_two_pow :
    FixedDecimal.fromLongDouble ⟨9, 9, by decide⟩ 64 FixedDecimal.toStringLongDouble
        (fun _ => -9223372036854775808) (2 ^ 40) =
      .error (.outOfRange ("fixed_decimal value out of range" ++
        FixedDecimal.toStringLongDouble (2 ^ 40))) :=
  (fromLongDouble_spec ⟨9, 9, by decide⟩ 64 (by decide) FixedDecimal.toStringLongDouble
    (fun _ => -9223372036854775808) (fun _ => by decide) (2 ^ 40)).2.2 (by
      rw [Digits.scale, Digits.bound, show (9 : UInt8).toNat = 9 from rfl]
      norm_num)

/-! ## To a `double` and back -/

/-- The integral part of a value, as a `double`, is at most `10 ^ I`. -/
lemma abs_toDouble_tdiv_le {n : ℤ} (h : d.InRange n) :
    |FixedDecimal.toDouble (n.tdiv d.scale) * d.scale| ≤ 10 ^ 18 := by
  have hscale := d.scale_pos
  have hbound := d.bound_lt
  have hintegral := d.scale_mul_integral
  have hq : (n.tdiv d.scale).natAbs < 10 ^ d.integral.toNat := by
    have hn : n.natAbs < 10 ^ d.integral.toNat * d.scale.natAbs := by
      obtain ⟨hlo, hhi⟩ := h
      zify
      rw [abs_of_pos hscale, hintegral, abs_lt]
      constructor <;> omega
    rw [Int.natAbs_tdiv]
    exact Nat.div_lt_of_lt_mul (by rwa [Nat.mul_comm] at hn)
  have hround : (FixedDecimal.toDouble (n.tdiv d.scale)).natAbs ≤ 10 ^ d.integral.toNat := by
    have htotal := d.total_le
    rw [natAbs_toDouble]
    exact roundNat_le (representable_ten_pow (by omega)) hq.le
  have hcast : |FixedDecimal.toDouble (n.tdiv d.scale)| ≤ 10 ^ d.integral.toNat := by
    rw [Int.abs_eq_natAbs]
    exact_mod_cast hround
  calc |FixedDecimal.toDouble (n.tdiv d.scale) * d.scale|
      = |FixedDecimal.toDouble (n.tdiv d.scale)| * d.scale := by
        rw [abs_mul, abs_of_pos hscale]
    _ ≤ 10 ^ d.integral.toNat * d.scale := mul_le_mul_of_nonneg_right hcast hscale.le
    _ ≤ 10 ^ 18 := by omega

/-- An integer of the size of the values is multiplied exactly. -/
lemma fromLongDouble_intCast (hp : 64 ≤ p) {n : ℤ} (h : |n * d.scale| ≤ 10 ^ 18) :
    FixedDecimal.fromLongDouble d p toStr unspecified n =
      if d.InRange (n * d.scale) then .ok ⟨n * d.scale⟩
      else .error (.outOfRange
        ("fixed_decimal value out of range" ++ toStr n)) := by
  have hproduct : roundRat p ((n : ℚ) * d.scale) = ((n * d.scale : ℤ) : ℚ) := by
    rw [← Int.cast_mul]
    exact roundRat_intCast (abs_lt_two_pow hp h)
  have haway : roundAway ((n * d.scale : ℤ) : ℚ) = n * d.scale :=
    roundAway_eq (by rw [sub_self, abs_zero]; norm_num)
  have hfits : Fits (n * d.scale) := by
    obtain ⟨hlo, hhi⟩ := abs_le.mp h
    constructor <;> omega
  have hll : FixedDecimal.llroundLongDouble unspecified (roundRat p ((n : ℚ) * d.scale)) =
      n * d.scale := by
    rw [hproduct]
    unfold FixedDecimal.llroundLongDouble
    rw [haway, if_pos hfits]
  rw [fromLongDouble_eq hp, hll]

lemma checked_eq_ok_iff {n : ℤ} {f : Failure} {x : FixedDecimal d} (h : d.InRange x.rep) :
    (if d.InRange n then Except.ok (⟨n⟩ : FixedDecimal d) else .error f) = .ok x ↔
      n = x.rep := by
  constructor
  · intro heq
    split at heq
    · exact congrArg FixedDecimal.rep (Except.ok.inj heq)
    · cases heq
  · intro heq
    rw [heq, if_pos h]

/-- **To a `double` and back.** `operator double` never fails, and a value comes back from it
exactly if it is whole and has 53 significant bits. -/
theorem fromLongDouble_operatorDouble_iff (d : Digits) (p : ℕ) (hp : 64 ≤ p)
    (toStr : ℚ → String) (unspecified : ℚ → ℤ) (x : FixedDecimal d) (h : d.InRange x.rep) :
    ∃ y : ℤ, x.operatorDouble = .ok y ∧
      (FixedDecimal.fromLongDouble d p toStr unspecified y = .ok x ↔
        d.scale ∣ x.rep ∧ Representable 53 (x.rep / d.scale).natAbs) := by
  refine ⟨FixedDecimal.toDouble (x.rep.tdiv d.scale), ?_, ?_⟩
  · unfold FixedDecimal.operatorDouble
    rw [d.scaleFactor_eq]
    rfl
  · have hscale := d.scale_pos
    rw [fromLongDouble_intCast hp (abs_toDouble_tdiv_le h)]
    -- what comes back is the double of the integral part
    rw [checked_eq_ok_iff h, ← roundInt_eq_self_iff (by decide)]
    constructor
    · intro heq
      have hdvd : d.scale ∣ x.rep := Dvd.intro_left _ heq
      have hquot : x.rep / d.scale = FixedDecimal.toDouble (x.rep.tdiv d.scale) := by
        rw [← Int.mul_ediv_cancel (FixedDecimal.toDouble (x.rep.tdiv d.scale)) hscale.ne', heq]
      refine ⟨hdvd, ?_⟩
      rw [← Int.tdiv_eq_ediv_of_dvd hdvd] at hquot ⊢
      exact hquot.symm
    · rintro ⟨hdvd, hround⟩
      rw [← Int.tdiv_eq_ediv_of_dvd hdvd] at hround
      show roundInt 53 (x.rep.tdiv d.scale) * d.scale = x.rep
      rw [hround, Int.tdiv_mul_cancel hdvd]

/-- `2.5` comes back as `2`, and not as itself. -/
theorem fromLongDouble_operatorDouble_iff_half :
    ∃ y : ℤ, (⟨2500000000⟩ : FixedDecimal ⟨9, 9, by decide⟩).operatorDouble = .ok y ∧
      (FixedDecimal.fromLongDouble ⟨9, 9, by decide⟩ 64 FixedDecimal.toStringLongDouble
          (fun _ => -9223372036854775808) y = .ok ⟨2500000000⟩ ↔
        Digits.scale ⟨9, 9, by decide⟩ ∣ 2500000000 ∧
          Representable 53 (2500000000 / Digits.scale ⟨9, 9, by decide⟩).natAbs) :=
  fromLongDouble_operatorDouble_iff ⟨9, 9, by decide⟩ 64 (by decide) _ _ ⟨2500000000⟩ (by decide)

/-! ## The two overloads -/

/-- A `long double` holds every integer of the type, and its product. -/
lemma fromLongDouble_of_inRange (hp : 64 ≤ p) {n : ℤ} (h : d.InRange (n * d.scale)) :
    FixedDecimal.fromLongDouble d p toStr unspecified n = .ok ⟨n * d.scale⟩ := by
  have hlt := d.bound_lt
  have hle : |n * d.scale| ≤ 10 ^ 18 := by
    obtain ⟨hlo, hhi⟩ := h
    rw [abs_le]
    constructor <;> omega
  rw [fromLongDouble_intCast hp hle, if_pos h]

/-- And refuses all others. -/
lemma fromLongDouble_of_not_inRange (hp : 64 ≤ p) (hout : ∀ x, ¬ d.InRange (unspecified x))
    {n : ℤ} (h : ¬ d.InRange (n * d.scale)) :
    FixedDecimal.fromLongDouble d p toStr unspecified n =
      .error (.outOfRange ("fixed_decimal value out of range" ++ toStr n)) := by
  have hx : (d.bound : ℚ) + 9 / 16 ≤ |(n : ℚ) * d.scale| := by
    rw [inRange_iff_abs, not_le, ← Int.cast_abs] at h
    have hle : d.bound + 1 ≤ |n * d.scale| := Int.add_one_le_iff.mpr (by exact_mod_cast h)
    have hle' : (d.bound : ℚ) + 1 ≤ |(n : ℚ) * d.scale| := by exact_mod_cast hle
    linarith
  rw [fromLongDouble_eq hp, if_neg (not_inRange_llround hp hout hx)]

/-- The overload for integers refuses those whose product fits. -/
lemma fromInteger_of_not_inRange {unspecifiedInt : ℤ → ℤ}
    (hint : ∀ x, ¬ d.InRange (unspecifiedInt x)) {n : ℤ} (hfits : Fits (n * d.scale))
    (h : ¬ d.InRange (n * d.scale)) :
    FixedDecimal.fromInteger d unspecifiedInt n = FixedDecimal.throwOutOfRange n := by
  have hll : ¬ d.InRange
      (FixedDecimal.llround unspecifiedInt (FixedDecimal.toDouble (n * d.scale))) := by
    unfold FixedDecimal.llround
    split
    · exact not_inRange_toDouble h
    · exact hint _
  rw [FixedDecimal.fromInteger_of_fits unspecifiedInt hfits, if_neg hll]

/-- The same value, or `out_of_range` with whatever text. An overflow is neither. -/
def SameOutcome (r r' : Except Failure (FixedDecimal d)) : Prop :=
  (∃ x, r = .ok x ∧ r' = .ok x) ∨
    ∃ what what', r = .error (.outOfRange what) ∧ r' = .error (.outOfRange what')

lemma sameOutcome_ok_iff {r : Except Failure (FixedDecimal d)} {x : FixedDecimal d} :
    SameOutcome r (.ok x) ↔ r = .ok x := by
  constructor
  · rintro (⟨y, hr, hy⟩ | ⟨what, what', -, hy⟩)
    · rw [hr, ← hy]
    · cases hy
  · intro hr
    exact .inl ⟨x, hr, rfl⟩

/-- **The two overloads.** `from(long double)` returns every integer of the type exactly and throws
`out_of_range` for all others. The overload for integers does the same where its product does
not overflow and, for an integer of the type, has 53 significant bits, and only there. -/
theorem from_overloads_iff (d : Digits) (p : ℕ) (hp : 64 ≤ p) (toStr : ℚ → String)
    (unspecifiedInt : ℤ → ℤ) (hint : ∀ x, ¬ d.InRange (unspecifiedInt x)) (unspecified : ℚ → ℤ)
    (hout : ∀ x, ¬ d.InRange (unspecified x)) (v : Int64) :
    (|v.toInt| ≤ d.intMax →
        FixedDecimal.fromLongDouble d p toStr unspecified v.toInt = .ok ⟨v.toInt * d.scale⟩) ∧
      (d.intMax < |v.toInt| → FixedDecimal.fromLongDouble d p toStr unspecified v.toInt =
        .error (.outOfRange ("fixed_decimal value out of range" ++ toStr v.toInt))) ∧
      (SameOutcome (FixedDecimal.fromInteger d unspecifiedInt v.toInt)
          (FixedDecimal.fromLongDouble d p toStr unspecified v.toInt) ↔
        Fits (v.toInt * d.scale) ∧
          (|v.toInt| ≤ d.intMax → Representable 53 (v.toInt * d.scale).natAbs)) := by
  generalize v.toInt = n
  rw [← not_le, abs_le_intMax_iff]
  refine ⟨fun h => fromLongDouble_of_inRange hp h, fun h => fromLongDouble_of_not_inRange hp hout h,
    ?_⟩
  by_cases h : d.InRange (n * d.scale)
  · rw [fromLongDouble_of_inRange hp h, sameOutcome_ok_iff,
      FixedDecimal.fromInteger_of_fits unspecifiedInt h.fits, llround_of_inRange unspecifiedInt h,
      FixedDecimal.throwOutOfRange, checked_eq_ok_iff h, ← roundInt_eq_self_iff (by decide)]
    exact ⟨fun heq => ⟨h.fits, fun _ => heq⟩, fun heq => heq.2 h⟩
  · rw [fromLongDouble_of_not_inRange hp hout h]
    by_cases hfits : Fits (n * d.scale)
    · rw [fromInteger_of_not_inRange hint hfits h]
      exact iff_of_true (.inr ⟨_, _, rfl, rfl⟩) ⟨hfits, fun hin => absurd hin h⟩
    · -- the product overflows before the check
      rw [FixedDecimal.fromInteger_of_overflow unspecifiedInt hfits]
      refine iff_of_false ?_ fun hright => hfits hright.1
      rintro (⟨x, hr, -⟩ | ⟨what, what', hr, -⟩)
      · cases hr
      · cases hr

/-- An integer whose product overflows, with the `llround` of x86. -/
theorem from_overloads_iff_overflow :
    ¬ SameOutcome
      (FixedDecimal.fromInteger ⟨9, 9, by decide⟩ (fun _ => -9223372036854775808)
        (18446744074 : Int64).toInt)
      (FixedDecimal.fromLongDouble ⟨9, 9, by decide⟩ 64 FixedDecimal.toStringLongDouble
        (fun _ => -9223372036854775808) (18446744074 : Int64).toInt) := fun h =>
  absurd ((from_overloads_iff ⟨9, 9, by decide⟩ 64 (by decide) FixedDecimal.toStringLongDouble
    (fun _ => -9223372036854775808) (fun _ => by decide) (fun _ => -9223372036854775808)
    (fun _ => by decide) 18446744074).2.2.mp h).1 (by decide)

end

end Zsl.FixedPoint
