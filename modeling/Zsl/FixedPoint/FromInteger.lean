import Zsl.FixedPoint.Arithmetic

/-!
# `fixed_decimal_t` from an integer

`from(rep_t v)` multiplies in 64 bits, passes the product through a `double`, and checks it
afterwards.

* `toDouble_of_inRange`, `le_natAbs_toDouble`: the conversion keeps values in range within
  `10 ^ 18`, and values out of range out of it;
* `roundNat_eq_two_pow_iff`: the products that the conversion takes out of `int64_t`;
* `fromInteger_iff`: `from` is right exactly if the product does not overflow and, for a
  value in range, has 53 significant bits.
-/

namespace Zsl.FixedPoint
open Zsl.Lib Signed64 Rounding

variable {d : Digits}

namespace FixedDecimal

lemma fromInteger_of_overflow (unspecified : ℤ → ℤ) {v : ℤ} (h : ¬ Fits (v * d.scale)) :
    fromInteger d unspecified v = .error .overflow := by
  unfold fromInteger
  rw [d.scaleFactor_eq]
  show (int64 (v * d.scale)).bind _ = _
  rw [int64_of_not h]
  rfl

/-- The check is made on what the conversions leave of the product. -/
lemma fromInteger_of_fits (unspecified : ℤ → ℤ) {v : ℤ} (h : Fits (v * d.scale)) :
    fromInteger d unspecified v =
      if d.InRange (llround unspecified (toDouble (v * d.scale))) then
        .ok ⟨llround unspecified (toDouble (v * d.scale))⟩
      else throwOutOfRange v := by
  unfold fromInteger
  rw [d.scaleFactor_eq]
  show (int64 (v * d.scale)).bind _ = _
  rw [int64_of_fits h]
  show (d.inRangeRaw (llround unspecified (toDouble (v * d.scale)))).bind _ = _
  rw [d.inRangeRaw_eq]
  show (if decide (d.InRange _) = true then fromRaw d _ else throwOutOfRange v) = _
  simp only [decide_eq_true_eq]
  split
  · next hin => exact fromRaw_of_inRange hin
  · rfl

end FixedDecimal

/-! ## The conversion to `double` -/

/-- Powers of ten up to `10 ^ 18` have 53 significant bits. -/
lemma representable_ten_pow {k : ℕ} (hk : k ≤ 18) : Representable 53 (10 ^ k) := by
  refine ⟨5 ^ k, k, ?_, ?_⟩
  · calc 5 ^ k ≤ 5 ^ 18 := Nat.pow_le_pow_right (by decide) hk
      _ < 2 ^ 53 := by norm_num
  · rw [← Nat.mul_pow]

lemma natAbs_toDouble (n : ℤ) : (FixedDecimal.toDouble n).natAbs = roundNat 53 n.natAbs :=
  natAbs_roundInt 53 n

/-- A product in range stays in the range of `int64_t`. -/
lemma fits_toDouble_of_inRange {n : ℤ} (h : d.InRange n) : Fits (FixedDecimal.toDouble n) := by
  have hlt := d.bound_lt
  obtain ⟨hlo, hhi⟩ := h
  have hround : roundNat 53 n.natAbs ≤ 10 ^ 18 := by
    apply roundNat_le (representable_ten_pow (Nat.le_refl 18))
    omega
  have habs := natAbs_toDouble n
  constructor <;> omega

/-- A product out of range stays out of range, since the bound is a power of ten. -/
lemma not_inRange_toDouble {n : ℤ} (h : ¬ d.InRange n) :
    ¬ d.InRange (FixedDecimal.toDouble n) := by
  have hcast : ((10 ^ (d.integral.toNat + d.fractional.toNat) : ℕ) : ℤ) = d.bound + 1 := by
    unfold Digits.bound
    push_cast
    omega
  have hround : 10 ^ (d.integral.toNat + d.fractional.toNat) ≤ roundNat 53 n.natAbs := by
    apply le_roundNat (by decide) (representable_ten_pow d.total_le)
    unfold Digits.InRange at h
    omega
  have habs := natAbs_toDouble n
  unfold Digits.InRange
  omega

/-- From half a unit below `2 ^ 63` on, a product is rounded up to it. -/
lemma roundNat_eq_two_pow_iff {n : ℕ} (h : n < 9223372036854775808) :
    roundNat 53 n = 9223372036854775808 ↔ 9223372036854775296 ≤ n := by
  by_cases hlow : n ≤ 9223372036854774784
  · have hle : roundNat 53 n ≤ 9223372036854774784 :=
      roundNat_le ⟨9007199254740991, 10, by norm_num, by norm_num⟩ hlow
    omega
  · -- the unit of these numbers is 1024
    have hlog : n.log2 = 62 := by
      rw [Nat.log2_eq_iff (by omega)]
      constructor <;> norm_num <;> omega
    have hulp : ulp 53 n = 1024 := by
      unfold ulp
      rw [hlog]
      norm_num
    unfold roundNat
    rw [hulp]
    dsimp only
    split <;> omega

/-- The only value beyond `int64_t` that the conversion reaches is `2 ^ 63`. -/
lemma toDouble_of_fits {n : ℤ} (h : Fits n) :
    (n < 9223372036854775296 → Fits (FixedDecimal.toDouble n)) ∧
      (9223372036854775296 ≤ n → FixedDecimal.toDouble n = 9223372036854775808) := by
  obtain ⟨hlo, hhi⟩ := h
  have hround : roundNat 53 n.natAbs ≤ 9223372036854775808 :=
    roundNat_le ⟨1, 63, by norm_num, by norm_num⟩ (by omega)
  unfold FixedDecimal.toDouble roundInt
  split
  · next hneg =>
    constructor
    · intro _
      constructor <;> omega
    · intro hn
      omega
  · next hpos =>
    have hiff := roundNat_eq_two_pow_iff (n := n.natAbs) (by omega)
    constructor
    · intro hn
      constructor <;> omega
    · intro hn
      omega

/-! ## The range of the argument -/

/-- `10 ^ I - 1`, the largest integer of the type. -/
def Digits.intMax (d : Digits) : ℤ := 10 ^ d.integral.toNat - 1

/-- The integers of the type are those whose product is in range. -/
lemma abs_le_intMax_iff (d : Digits) (v : ℤ) : |v| ≤ d.intMax ↔ d.InRange (v * d.scale) := by
  have hs := d.scale_pos
  have hbound := d.scale_mul_integral
  have hpow : d.intMax + 1 = 10 ^ d.integral.toNat := by
    unfold Digits.intMax
    omega
  rw [← hpow] at hbound
  rw [abs_le]
  unfold Digits.InRange
  constructor
  · intro ⟨hlo, hhi⟩
    constructor <;> nlinarith
  · intro ⟨hlo, hhi⟩
    constructor <;> nlinarith

/-! ## When it is right -/

/-- `from(v)` has the exact raw representation for the integers of the type, and throws for
all others. -/
def FromExact (d : Digits) (unspecified : ℤ → ℤ) (v : ℤ) : Prop :=
  (|v| ≤ d.intMax → FixedDecimal.fromInteger d unspecified v =
    .ok ⟨v * 10 ^ d.fractional.toNat⟩) ∧
  (¬ |v| ≤ d.intMax → ∃ what, FixedDecimal.fromInteger d unspecified v =
    .error (.outOfRange what))

/-- The product fits; if the value is one of the type, the product has 53 significant bits;
and if it is rounded up to `2 ^ 63`, what `llround` gives for that is out of range. -/
def FromOk (d : Digits) (unspecified : ℤ → ℤ) (v : ℤ) : Prop :=
  Fits (v * d.scale) ∧ (|v| ≤ d.intMax → Representable 53 (v * d.scale).natAbs) ∧
    (9223372036854775296 ≤ v * d.scale → ¬ d.InRange (unspecified 9223372036854775808))

lemma llround_of_inRange {n : ℤ} (unspecified : ℤ → ℤ) (h : d.InRange n) :
    FixedDecimal.llround unspecified (FixedDecimal.toDouble n) = FixedDecimal.toDouble n :=
  if_pos (fits_toDouble_of_inRange h)

/-- For an integer of the type, only the significant bits matter. -/
lemma fromExact_of_inRange_iff (unspecified : ℤ → ℤ) {v : ℤ} (h : d.InRange (v * d.scale)) :
    FromExact d unspecified v ↔ Representable 53 (v * d.scale).natAbs := by
  have hv := (abs_le_intMax_iff d v).mpr h
  rw [← roundInt_eq_self_iff (by decide)]
  unfold FromExact
  rw [FixedDecimal.fromInteger_of_fits unspecified h.fits, llround_of_inRange unspecified h]
  constructor
  · intro hexact
    have heq := hexact.1 hv
    split at heq
    · exact congrArg FixedDecimal.rep (Except.ok.inj heq)
    · cases heq
  · intro heq
    have hsame : FixedDecimal.toDouble (v * d.scale) = v * d.scale := heq
    refine ⟨fun _ => ?_, fun hnot => absurd hv hnot⟩
    rw [hsame, if_pos h]
    rfl

/-- For any other integer whose product fits, only the rounding up to `2 ^ 63` matters. -/
lemma fromExact_of_not_inRange_iff (unspecified : ℤ → ℤ) {v : ℤ} (hfits : Fits (v * d.scale))
    (h : ¬ d.InRange (v * d.scale)) :
    FromExact d unspecified v ↔
      (9223372036854775296 ≤ v * d.scale → ¬ d.InRange (unspecified 9223372036854775808)) := by
  have hv : ¬ |v| ≤ d.intMax := fun hle => h ((abs_le_intMax_iff d v).mp hle)
  obtain ⟨hbelow, habove⟩ := toDouble_of_fits hfits
  have hthrow : FromExact d unspecified v ↔
      ¬ d.InRange (FixedDecimal.llround unspecified (FixedDecimal.toDouble (v * d.scale))) := by
    unfold FromExact
    rw [FixedDecimal.fromInteger_of_fits unspecified hfits]
    constructor
    · intro hexact hin
      obtain ⟨what, hw⟩ := hexact.2 hv
      rw [if_pos hin] at hw
      cases hw
    · intro hout
      refine ⟨fun hle => absurd hle hv, fun _ => ?_⟩
      rw [if_neg hout]
      exact ⟨_, rfl⟩
  rw [hthrow]
  unfold FixedDecimal.llround
  by_cases hn : 9223372036854775296 ≤ v * d.scale
  · rw [habove hn, if_neg (by decide)]
    exact ⟨fun hout _ => hout, fun hout => hout hn⟩
  · rw [if_pos (hbelow (by omega))]
    exact iff_of_true (not_inRange_toDouble h) (fun hn' => absurd hn' hn)

/-- **From an integer.** `from` is right exactly under `FromOk`. -/
theorem fromInteger_iff (d : Digits) (unspecified : ℤ → ℤ) (v : Int64) :
    FromExact d unspecified v.toInt ↔ FromOk d unspecified v.toInt := by
  generalize v.toInt = v
  unfold FromOk
  rw [abs_le_intMax_iff]
  by_cases hfits : Fits (v * d.scale)
  · by_cases hin : d.InRange (v * d.scale)
    · -- a product in range is far below `2 ^ 63`
      have hlt := d.bound_lt
      have hhi : v * d.scale ≤ d.bound := hin.2
      rw [fromExact_of_inRange_iff unspecified hin]
      exact ⟨fun h => ⟨hfits, fun _ => h, fun hn => by omega⟩, fun h => h.2.1 hin⟩
    · rw [fromExact_of_not_inRange_iff unspecified hfits hin]
      exact ⟨fun h => ⟨hfits, fun hin' => absurd hin' hin, h⟩, fun h => h.2.2⟩
  · refine iff_of_false ?_ (fun h => hfits h.1)
    intro hexact
    have hv : ¬ |v| ≤ d.intMax := fun hle => hfits ((abs_le_intMax_iff d v).mp hle).fits
    obtain ⟨what, hw⟩ := hexact.2 hv
    rw [FixedDecimal.fromInteger_of_overflow unspecified hfits] at hw
    cases hw

/-- What `llround` gives on x86 for numbers out of range. -/
def indefinite (_ : ℤ) : ℤ := -9223372036854775808

/-- `from(2 ^ 53 + 1)` is `2 ^ 53` with eighteen integral digits, and with nine of each the
product for 18446744074 overflows. -/
theorem fromInteger_alters :
    FixedDecimal.fromInteger ⟨18, 0, by decide⟩ indefinite 9007199254740993 =
        .ok ⟨9007199254740992⟩ ∧
      ¬ FromExact ⟨18, 0, by decide⟩ indefinite 9007199254740993 ∧
      FixedDecimal.fromInteger ⟨9, 9, by decide⟩ indefinite 18446744074 = .error .overflow ∧
      ¬ FromExact ⟨9, 9, by decide⟩ indefinite 18446744074 := by
  have hrounded : FixedDecimal.fromInteger ⟨18, 0, by decide⟩ indefinite 9007199254740993 =
      .ok ⟨9007199254740992⟩ := by rfl
  have hover : FixedDecimal.fromInteger ⟨9, 9, by decide⟩ indefinite 18446744074 =
      .error .overflow := by rfl
  refine ⟨hrounded, fun h => ?_, hover, fun h => ?_⟩
  · have hexact := h.1 (by decide)
    rw [hrounded] at hexact
    revert hexact
    decide
  · obtain ⟨what, hw⟩ := h.2 (by decide)
    rw [hover] at hw
    cases hw

end Zsl.FixedPoint
