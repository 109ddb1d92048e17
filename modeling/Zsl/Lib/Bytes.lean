import Mathlib.Data.Nat.Basic
import Mathlib.Data.List.Basic
import Mathlib.Tactic.Linarith
import Mathlib.Tactic.Ring

/-!
# Byte strings as integers

A byte string denotes a natural in either byte order, and a register of the same
width can be read back into its bytes. Three things live here:

* `ofLE` / `ofBE` and the bytes `toLE` of a natural, with the round trip
  `toLE_ofLE`;
* `byteswap`, the register operation that reverses the bytes, with
  `toNat_byteswap_bitCast`: swapping the little-endian reading gives the big-endian one;
* `compare_ofBE` and `compare_signedBE_of_iff`: on strings of one length the unsigned
  big-endian values are ordered as the strings are, and the signed ones as well
  when the top bits agree.
-/

namespace Zsl.Lib.Bytes

/-! ## Byte orders -/

/-- The natural with the given little-endian bytes. -/
def ofLE : List UInt8 → ℕ
  | [] => 0
  | b :: bs => b.toNat + 256 * ofLE bs

/-- The natural with the given big-endian bytes. -/
def ofBE : List UInt8 → ℕ
  | [] => 0
  | b :: bs => b.toNat * 256 ^ bs.length + ofBE bs

/-- The `n` low bytes of `x`, least significant first. -/
def toLE : ℕ → ℕ → List UInt8
  | 0, _ => []
  | n + 1, x => UInt8.ofNat (x % 256) :: toLE n (x / 256)

lemma ofLE_lt (bs : List UInt8) : ofLE bs < 256 ^ bs.length := by
  induction bs with
  | nil => simp [ofLE]
  | cons b bs ih =>
    have hb : b.toNat < 256 := b.toNat_lt
    rw [ofLE, List.length_cons, pow_succ]
    omega

lemma ofBE_lt (bs : List UInt8) : ofBE bs < 256 ^ bs.length := by
  induction bs with
  | nil => simp [ofBE]
  | cons b bs ih =>
    have hb : b.toNat * 256 ^ bs.length ≤ 255 * 256 ^ bs.length :=
      Nat.mul_le_mul_right _ (Nat.le_of_lt_succ b.toNat_lt)
    rw [ofBE, List.length_cons, pow_succ]
    omega

lemma toLE_ofLE (bs : List UInt8) : toLE bs.length (ofLE bs) = bs := by
  induction bs with
  | nil => rfl
  | cons b bs ih =>
    have hb : b.toNat < 256 := b.toNat_lt
    -- the head is the low digit of the value, and the rest its quotient by 256
    rw [List.length_cons, ofLE, toLE, Nat.add_mul_mod_self_left, Nat.mod_eq_of_lt hb,
      UInt8.ofNat_toNat, Nat.add_mul_div_left _ _ (by norm_num), Nat.div_eq_of_lt hb,
      Nat.zero_add, ih]

lemma ofLE_append (as bs : List UInt8) :
    ofLE (as ++ bs) = ofLE as + 256 ^ as.length * ofLE bs := by
  induction as with
  | nil => simp [ofLE]
  | cons a as ih =>
    rw [List.cons_append, ofLE, ofLE, ih, List.length_cons, pow_succ]
    ring

/-- Reading the reversed string little-endian is reading it big-endian. -/
theorem ofLE_reverse (bs : List UInt8) : ofLE bs.reverse = ofBE bs := by
  induction bs with
  | nil => rfl
  | cons b bs ih =>
    rw [List.reverse_cons, ofLE_append, ih, List.length_reverse, ofBE, ofLE, ofLE]
    ring

lemma length_toLE (n x : ℕ) : (toLE n x).length = n := by
  induction n generalizing x with
  | zero => rfl
  | succ n ih => rw [toLE, List.length_cons, ih]

/-! ## Registers -/

/-- The `n`-byte register a string is reinterpreted as on a little-endian host. -/
def bitCast (n : ℕ) (bs : List UInt8) : BitVec (8 * n) := BitVec.ofNat (8 * n) (ofLE bs)

/-- The register with its `n` bytes in the opposite order. -/
def byteswap (n : ℕ) (x : BitVec (8 * n)) : BitVec (8 * n) :=
  BitVec.ofNat (8 * n) (ofLE (toLE n x.toNat).reverse)

lemma two_pow_eight_mul (n : ℕ) : 2 ^ (8 * n) = 256 ^ n := by
  rw [pow_mul]; norm_num

lemma toNat_bitCast (bs : List UInt8) : (bitCast bs.length bs).toNat = ofLE bs := by
  rw [bitCast, BitVec.toNat_ofNat, two_pow_eight_mul, Nat.mod_eq_of_lt (ofLE_lt bs)]

/-- The bytes of a swapped register. -/
theorem toLE_byteswap (n : ℕ) (x : BitVec (8 * n)) :
    toLE n (byteswap n x).toNat = (toLE n x.toNat).reverse := by
  have hlen : (toLE n x.toNat).reverse.length = n := by
    rw [List.length_reverse, length_toLE]
  have hlt := ofLE_lt (toLE n x.toNat).reverse
  have hback := toLE_ofLE (toLE n x.toNat).reverse
  rw [hlen] at hlt hback
  rw [byteswap, BitVec.toNat_ofNat, two_pow_eight_mul, Nat.mod_eq_of_lt hlt, hback]

/-- Swapping the bytes of the reinterpreted string gives its big-endian value. -/
theorem toNat_byteswap_bitCast (bs : List UInt8) :
    (byteswap bs.length (bitCast bs.length bs)).toNat = ofBE bs := by
  rw [byteswap, toNat_bitCast, toLE_ofLE, ofLE_reverse, BitVec.toNat_ofNat, two_pow_eight_mul,
    Nat.mod_eq_of_lt (ofBE_lt bs)]

/-! ## Order -/

lemma compare_toNat (a b : UInt8) : compare a b = compare a.toNat b.toNat := by
  simp only [compare, compareOfLessAndEq, UInt8.lt_iff_toNat_lt, UInt8.toNat_inj]

/-- Two-digit comparison: the leading digits decide unless they are equal. -/
lemma compare_digit {M a b x y : ℕ} (hx : x < M) (hy : y < M) :
    compare (a * M + x) (b * M + y) = (compare a b).then (compare x y) := by
  rcases Nat.lt_trichotomy a b with h | h | h
  · -- a smaller leading digit is smaller by a whole `M`, more than `x` can make up
    have hM : a * M + M ≤ b * M := by
      rw [← Nat.succ_mul]; exact Nat.mul_le_mul_right M h
    rw [Nat.compare_eq_lt.mpr h, Nat.compare_eq_lt.mpr (by omega)]
    rfl
  · subst h
    rw [Nat.compare_eq_eq.mpr rfl]
    rcases Nat.lt_trichotomy x y with h' | h' | h'
    · rw [Nat.compare_eq_lt.mpr h', Nat.compare_eq_lt.mpr (by omega)]; rfl
    · rw [Nat.compare_eq_eq.mpr h', Nat.compare_eq_eq.mpr (by omega)]; rfl
    · rw [Nat.compare_eq_gt.mpr h', Nat.compare_eq_gt.mpr (by omega)]; rfl
  · have hM : b * M + M ≤ a * M := by
      rw [← Nat.succ_mul]; exact Nat.mul_le_mul_right M h
    rw [Nat.compare_eq_gt.mpr h, Nat.compare_eq_gt.mpr (by omega)]
    rfl

/-- Strings of one length compare as their big-endian values do. -/
theorem compare_ofBE (as bs : List UInt8) (h : as.length = bs.length) :
    compare (ofBE as) (ofBE bs) = compare as bs := by
  induction as generalizing bs with
  | nil =>
    cases bs with
    | nil => rfl
    | cons b bs => simp at h
  | cons a as ih =>
    cases bs with
    | nil => simp at h
    | cons b bs =>
      have hlen : as.length = bs.length := by simpa using h
      have hx : ofBE as < 256 ^ bs.length := hlen ▸ ofBE_lt as
      rw [ofBE, ofBE, hlen, compare_digit hx (ofBE_lt bs), ih bs hlen, List.compare_cons_cons,
        compare_toNat]

/-- The sign bit of the big-endian register is the high bit of the first byte. -/
lemma two_mul_ofBE_lt (b : UInt8) (bs : List UInt8) :
    2 * ofBE (b :: bs) < 256 ^ (bs.length + 1) ↔ b.toNat < 128 := by
  have hlt := ofBE_lt bs
  rw [ofBE, pow_succ]
  constructor
  · intro h
    by_contra hb
    -- from 128 on the first digit alone reaches half the range
    have : 128 * 256 ^ bs.length ≤ b.toNat * 256 ^ bs.length :=
      Nat.mul_le_mul_right _ (by omega)
    omega
  · intro hb
    have : b.toNat * 256 ^ bs.length ≤ 127 * 256 ^ bs.length :=
      Nat.mul_le_mul_right _ (by omega)
    omega

/-- The signed value of the byte-swapped register of the string's own width. -/
def signedBE (bs : List UInt8) : ℤ := (byteswap bs.length (bitCast bs.length bs)).toInt

lemma signedBE_cons (b : UInt8) (bs : List UInt8) :
    signedBE (b :: bs)
      = if b.toNat < 128 then (ofBE (b :: bs) : ℤ)
        else (ofBE (b :: bs) : ℤ) - (256 ^ (bs.length + 1) : ℕ) := by
  rw [signedBE, BitVec.toInt_eq_toNat_cond, toNat_byteswap_bitCast, List.length_cons,
    two_pow_eight_mul]
  simp only [two_mul_ofBE_lt]

/-- Shifting two naturals by one integer keeps their order. -/
lemma compare_cast_sub (m n : ℕ) (k : ℤ) :
    compare ((m : ℤ) - k) ((n : ℤ) - k) = compare m n := by
  rcases Nat.lt_trichotomy m n with h | h | h
  · rw [compare_lt_iff_lt.mpr h, compare_lt_iff_lt.mpr (by omega)]
  · rw [compare_eq_iff_eq.mpr h, compare_eq_iff_eq.mpr (by omega)]
  · rw [compare_gt_iff_gt.mpr h, compare_gt_iff_gt.mpr (by omega)]

/-- With equal high bits the signed values compare as the strings. -/
theorem compare_signedBE_of_iff {a b : UInt8} {as bs : List UInt8}
    (hlen : as.length = bs.length) (hbit : a.toNat < 128 ↔ b.toNat < 128) :
    compare (signedBE (a :: as)) (signedBE (b :: bs)) = compare (a :: as) (b :: bs) := by
  have hord := compare_ofBE (a :: as) (b :: bs) (by simp [hlen])
  rw [← hord, signedBE_cons, signedBE_cons, hlen]
  -- both values are shifted by the same power of 256, or neither is
  by_cases ha : a.toNat < 128
  · rw [if_pos ha, if_pos (hbit.mp ha)]
    simpa using compare_cast_sub (ofBE (a :: as)) (ofBE (b :: bs)) 0
  · rw [if_neg ha, if_neg (fun hb => ha (hbit.mpr hb))]
    exact compare_cast_sub _ _ _

/-- A string with its high bit set is the smaller one as a signed value, and the
larger one as a string. -/
theorem compare_signedBE_of_high {a b : UInt8} (as bs : List UInt8)
    (ha : a.toNat < 128) (hb : ¬ b.toNat < 128) :
    compare (signedBE (a :: as)) (signedBE (b :: bs)) = .gt ∧
      compare (a :: as) (b :: bs) = .lt := by
  constructor
  · rw [signedBE_cons, signedBE_cons, if_pos ha, if_neg hb, compare_gt_iff_gt]
    have hlt := ofBE_lt (b :: bs)
    rw [List.length_cons] at hlt
    omega
  · rw [List.compare_cons_cons, compare_toNat, compare_lt_iff_lt.mpr (by omega)]
    rfl

/-! ## Zero padding -/

/-- The string filled up with NUL bytes to length `n`. -/
def pad (n : ℕ) (s : List UInt8) : List UInt8 := s ++ List.replicate (n - s.length) 0

lemma length_pad {n : ℕ} {s : List UInt8} (h : s.length ≤ n) : (pad n s).length = n := by
  rw [pad, List.length_append, List.length_replicate]; omega

lemma pad_nil (n : ℕ) : pad n [] = List.replicate n 0 := by simp [pad]

lemma pad_cons (n : ℕ) (b : UInt8) (s : List UInt8) : pad (n + 1) (b :: s) = b :: pad n s := by
  simp [pad]

/-- Strings of one length decide a comparison before what follows them. -/
lemma compare_append {as bs : List UInt8} (h : as.length = bs.length) (xs ys : List UInt8) :
    compare (as ++ xs) (bs ++ ys) = (compare as bs).then (compare xs ys) := by
  induction as generalizing bs with
  | nil =>
    cases bs with
    | nil => rfl
    | cons b bs => simp at h
  | cons a as ih =>
    cases bs with
    | nil => simp at h
    | cons b bs =>
      rw [List.cons_append, List.cons_append, List.compare_cons_cons, List.compare_cons_cons,
        ih (by simpa using h), Ordering.then_assoc]

/-- One string is the other followed by NUL bytes only, and they differ. -/
def NulExtension (s t : List UInt8) : Prop :=
  s ≠ t ∧ ((∃ k, t = s ++ List.replicate k 0) ∨ ∃ k, s = t ++ List.replicate k 0)

lemma compare_replicate_pad {n : ℕ} (t : List UInt8) (ht : t.length ≤ n)
    (hne : List.replicate n 0 ≠ pad n t) : compare (List.replicate n 0) (pad n t) = .lt := by
  induction t generalizing n with
  | nil => exact absurd (pad_nil n).symm hne
  | cons b t ih =>
    obtain ⟨m, rfl⟩ : ∃ m, n = m + 1 := ⟨n - 1, by simp at ht; omega⟩
    rw [pad_cons, List.replicate_succ] at hne ⊢
    rw [List.compare_cons_cons]
    -- the first byte of `t` that is not NUL decides
    by_cases hb : b = 0
    · subst hb
      rw [ih (by simpa using ht) (fun h => hne (by rw [h]))]
      rfl
    · have hlt : compare (0 : UInt8) b = .lt := by
        rw [compare_toNat, Nat.compare_eq_lt]
        have : b.toNat ≠ 0 := fun h => hb (UInt8.toNat_inj.mp (by simpa using h))
        simpa using Nat.pos_of_ne_zero this
      rw [hlt]
      rfl

/-- Padding keeps the order of two strings it does not identify. -/
theorem compare_pad {n : ℕ} {s t : List UInt8} (hs : s.length ≤ n) (ht : t.length ≤ n)
    (hne : pad n s ≠ pad n t) : compare (pad n s) (pad n t) = compare s t := by
  induction s generalizing n t with
  | nil =>
    cases t with
    | nil => exact absurd rfl hne
    | cons b t =>
      rw [pad_nil] at hne ⊢
      rw [compare_replicate_pad _ ht hne]
      rfl
  | cons a s ih =>
    cases t with
    | nil =>
      rw [pad_nil] at hne ⊢
      rw [Std.OrientedOrd.eq_swap, compare_replicate_pad _ hs (Ne.symm hne)]
      rfl
    | cons b t =>
      obtain ⟨m, rfl⟩ : ∃ m, n = m + 1 := ⟨n - 1, by simp at hs; omega⟩
      rw [pad_cons, pad_cons] at hne ⊢
      rw [List.compare_cons_cons, List.compare_cons_cons]
      -- equal heads pass the comparison on to the tails, and others decide it
      by_cases hab : a = b
      · subst hab
        rw [ih (by simpa using hs) (by simpa using ht) (fun h => hne (by rw [h]))]
      · have hcmp : compare a b ≠ .eq := fun h => hab (Std.LawfulEqOrd.eq_of_compare h)
        cases h : compare a b with
        | lt => rfl
        | gt => rfl
        | eq => exact absurd h hcmp

lemma pad_append_replicate {n k : ℕ} {s : List UInt8} (h : s.length + k ≤ n) :
    pad n (s ++ List.replicate k 0) = pad n s := by
  rw [pad, pad, List.append_assoc, List.replicate_append_replicate, List.length_append,
    List.length_replicate]
  congr 2
  omega

lemma eq_append_of_pad_eq {n : ℕ} {s t : List UInt8} (hle : s.length ≤ t.length)
    (ht : t.length ≤ n) (h : pad n s = pad n t) :
    t = s ++ List.replicate (t.length - s.length) 0 := by
  -- the first `t.length` bytes are all of `t`, and `s` with its first NULs
  have htake := congrArg (List.take t.length) h
  rw [pad, pad, List.take_left, List.take_append, List.take_of_length_le hle,
    List.take_replicate] at htake
  rw [← htake]
  congr 2
  rw [htake]
  omega

/-- Padding identifies two strings when one is the other followed by NULs. -/
theorem pad_eq_iff {n : ℕ} {s t : List UInt8} (hs : s.length ≤ n) (ht : t.length ≤ n) :
    pad n s = pad n t ↔ s = t ∨ NulExtension s t := by
  constructor
  · intro h
    by_cases hst : s = t
    · exact Or.inl hst
    refine Or.inr ⟨hst, ?_⟩
    rcases Nat.le_total s.length t.length with hle | hle
    · exact Or.inl ⟨_, eq_append_of_pad_eq hle ht h⟩
    · exact Or.inr ⟨_, eq_append_of_pad_eq hle hs h.symm⟩
  · rintro (rfl | ⟨-, ⟨k, rfl⟩ | ⟨k, rfl⟩⟩)
    · rfl
    · exact (pad_append_replicate (by simpa using ht)).symm
    · exact pad_append_replicate (by simpa using hs)

/-- The string followed by NULs is the larger of the two. -/
lemma compare_append_replicate (s : List UInt8) (k : ℕ) :
    compare s (s ++ List.replicate k 0) = if k = 0 then .eq else .lt := by
  have h := compare_append (rfl : s.length = s.length) [] (List.replicate k 0)
  rw [List.append_nil] at h
  rw [h, Std.ReflOrd.compare_self]
  cases k with
  | zero => rfl
  | succ k => rfl

end Zsl.Lib.Bytes
