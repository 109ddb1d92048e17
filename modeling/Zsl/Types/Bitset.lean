import Mathlib.Algebra.Group.Nat.Defs
import Mathlib.Data.List.GetD
import Mathlib.Tactic.ByContra

/-!
# Find first set

`bitset < N >` is an array of 64-bit words, and `ffs()` scans it for the lowest set bit.

* `ffsll`, `Bitset.find`, `Bitset.ffs`: the scan;
* `Bitset.FirstWord`, `Bitset.LowestBit`: where the first set bit is, as a word and as a
  bit of the whole array;
* `ffs_iff`: `ffs()` names that bit exactly when it is in the first word, since the
  distance of the word is added to the result without the factor 64.
-/

namespace Zsl.Types

/-- `__builtin_ffsll`: one plus the index of the lowest set bit, and 0 for 0. -/
def ffsll (v : UInt64) : ℕ :=
  match (List.range 64).find? v.toNat.testBit with
  | some j => j + 1
  | none => 0

/-- `bitset < N >`; `requires (std::popcount(N) == 1)`, so `N` is `2 ^ k`. -/
structure Bitset (k : ℕ) where
  bits : Vector UInt64 (2 ^ k)
deriving DecidableEq

namespace Bitset
variable {k : ℕ}

/-- The word at an index of `bits_`. -/
def word (b : Bitset k) (i : ℕ) : UInt64 := b.bits.toList.getD i 0

/-- `find`, read as the `const` member that `ffs() const` needs: the distance of the word
found from `bits_.begin()`, `none` for `bits_.end()`. -/
def find (b : Bitset k) (f : UInt64 → Bool) : Option ℕ := b.bits.toList.findIdx? f

/-- `ffs`; `none` is where control reaches the end of the function without a `return`. -/
def ffs (b : Bitset k) : Option ℕ :=
  match b.find (fun v => v != 0) with
  | some i => some (ffsll (b.word i) + i)
  | none => none

/-! ## Where the first set bit is -/

/-- Bit `g` of the whole array. -/
def bit (b : Bitset k) (g : ℕ) : Bool := (b.word (g / 64)).toNat.testBit (g % 64)

/-- `g` is the lowest set bit. -/
def LowestBit (b : Bitset k) (g : ℕ) : Prop := b.bit g = true ∧ ∀ h < g, b.bit h = false

/-- `i` is the lowest-indexed word that is not 0. -/
def FirstWord (b : Bitset k) (i : ℕ) : Prop := b.word i ≠ 0 ∧ ∀ j < i, b.word j = 0

lemma lt_of_word_ne_zero {b : Bitset k} {i : ℕ} (h : b.word i ≠ 0) : i < 2 ^ k := by
  by_contra hi
  apply h
  unfold word
  rw [List.getD_eq_default]
  rw [Vector.length_toList]
  omega

end Bitset

/-- The scan of one word. -/
lemma ffsll_of_ne_zero {v : UInt64} (h : v ≠ 0) :
    ∃ j < 64, ffsll v = j + 1 ∧ v.toNat.testBit j = true ∧
      ∀ l < j, v.toNat.testBit l = false := by
  have hv : v.toNat ≠ 0 := by
    intro h0
    exact h (UInt64.toNat_inj.mp h0)
  obtain ⟨m, hm⟩ := Nat.exists_testBit_of_ne_zero hv
  have hm64 : m < 64 := by
    by_contra hge
    have hlt : v.toNat < 2 ^ m :=
      Nat.lt_of_lt_of_le v.toNat_lt (Nat.pow_le_pow_right (by decide) (by omega))
    rw [Nat.testBit_lt_two_pow hlt] at hm
    exact absurd hm (by decide)
  unfold ffsll
  cases hfind : (List.range 64).find? v.toNat.testBit with
  | none => exact absurd hm (List.find?_eq_none.mp hfind m (List.mem_range.mpr hm64))
  | some j =>
    rw [List.find?_range_eq_some] at hfind
    obtain ⟨hj, hmem, hbelow⟩ := hfind
    refine ⟨j, List.mem_range.mp hmem, rfl, hj, fun l hl => ?_⟩
    simpa using hbelow l hl

namespace Bitset
variable {k : ℕ}

lemma find_eq_some_iff (b : Bitset k) (i : ℕ) :
    b.find (fun v => v != 0) = some i ↔ b.FirstWord i := by
  have hword {j : ℕ} (hj : j < b.bits.toList.length) : b.bits.toList[j] = b.word j :=
    (List.getD_eq_getElem _ _ hj).symm
  unfold find FirstWord
  rw [List.findIdx?_eq_some_iff_getElem]
  constructor
  · intro ⟨hi, hne, hbelow⟩
    refine ⟨by simpa [hword hi] using hne, fun j hj => ?_⟩
    simpa [hword (Nat.lt_trans hj hi)] using hbelow j hj
  · intro ⟨hne, hbelow⟩
    have hi : i < b.bits.toList.length := by
      rw [Vector.length_toList]
      exact lt_of_word_ne_zero hne
    refine ⟨hi, by simpa [hword hi] using hne, fun j hj => ?_⟩
    simpa [hword (Nat.lt_trans hj hi)] using hbelow j hj

/-- `ffs` of a bitset with a set bit. -/
lemma ffs_eq_of_firstWord {b : Bitset k} {i : ℕ} (h : b.FirstWord i) :
    b.ffs = some (ffsll (b.word i) + i) := by
  unfold ffs
  rw [(b.find_eq_some_iff i).mpr h]

/-- The first word that is not 0 has the lowest set bit. -/
lemma lowestBit_of_firstWord {b : Bitset k} {i : ℕ} (h : b.FirstWord i) :
    ∃ g, 64 * i + ffsll (b.word i) = g + 1 ∧ b.LowestBit g := by
  obtain ⟨j, hj, hffs, hset, hbelow⟩ := ffsll_of_ne_zero h.1
  refine ⟨64 * i + j, by omega, ?_, fun g hg => ?_⟩
  · unfold bit
    rw [show (64 * i + j) / 64 = i by omega, show (64 * i + j) % 64 = j by omega, hset]
  · -- a lower bit is in a lower word, or lower in the same word
    unfold bit
    by_cases hw : g / 64 < i
    · rw [h.2 _ hw]
      exact Nat.zero_testBit _
    · rw [show g / 64 = i by omega]
      apply hbelow
      omega

lemma lowestBit_unique {b : Bitset k} {g h : ℕ} (hg : b.LowestBit g) (hh : b.LowestBit h) :
    g = h := by
  have key {x y : ℕ} (hx : b.LowestBit x) (hy : b.LowestBit y) : ¬ x < y := by
    intro hlt
    have hset := hx.1
    rw [hy.2 x hlt] at hset
    exact absurd hset (by decide)
  have h₁ := key hg hh
  have h₂ := key hh hg
  omega

lemma exists_firstWord {b : Bitset k} {i : ℕ} (h : b.word i ≠ 0) : ∃ j, b.FirstWord j := by
  induction i using Nat.strongRecOn with
  | ind i ih =>
    by_cases hlow : ∃ j < i, b.word j ≠ 0
    · obtain ⟨j, hj, hne⟩ := hlow
      exact ih j hj hne
    · refine ⟨i, h, fun j hj => ?_⟩
      by_contra hne
      exact hlow ⟨j, hj, hne⟩

end Bitset

/-! ## What `ffs` returns -/

/-- `ffs()` names the lowest set bit, and tells a bitset without one apart from all others. -/
structure FindsFirst {k : ℕ} (b : Bitset k) : Prop where
  word : ∀ i, b.FirstWord i → b.ffs = some (64 * i + ffsll (b.word i))
  lowest : ∀ g, b.LowestBit g → b.ffs = some (g + 1)
  empty : (∀ g, b.bit g = false) → ∃ v, b.ffs = some v ∧ ∀ g < 64 * 2 ^ k, v ≠ g + 1

/-- A set bit in the first word is found. -/
lemma findsFirst_of_word_zero {k : ℕ} {b : Bitset k} (h0 : b.word 0 ≠ 0) : FindsFirst b := by
  have hfirst : b.FirstWord 0 := ⟨h0, fun j hj => absurd hj (Nat.not_lt_zero j)⟩
  have hffs : b.ffs = some (64 * 0 + ffsll (b.word 0)) := by
    rw [Bitset.ffs_eq_of_firstWord hfirst]
    congr 1
    omega
  obtain ⟨g, hg, hlow⟩ := Bitset.lowestBit_of_firstWord hfirst
  refine ⟨fun i hi => ?_, fun h hh => ?_, fun hzero => ?_⟩
  · have hi0 : i = 0 := by
      by_contra hne
      exact h0 (hi.2 0 (by omega))
    rw [hi0, hffs]
  · rw [hffs, hg, Bitset.lowestBit_unique hlow hh]
  · exact absurd hlow.1 (by rw [hzero g]; decide)

/-- **Find first set.** `ffs()` names the lowest set bit, with a value of its own for no set
bit, exactly when the first word is not 0; such bitsets with different lowest set bits give
different results. -/
theorem ffs_iff (k : ℕ) :
    (∀ b : Bitset k, FindsFirst b ↔ b.word 0 ≠ 0) ∧
      ∀ (b c : Bitset k) (g h : ℕ), b.word 0 ≠ 0 → c.word 0 ≠ 0 → b.LowestBit g →
        c.LowestBit h → g ≠ h → b.ffs ≠ c.ffs := by
  refine ⟨fun b => ⟨fun hb h0 => ?_, findsFirst_of_word_zero⟩, ?_⟩
  · by_cases hset : ∃ i, b.word i ≠ 0
    · -- the word is `i > 0` words away, and `ffs` adds `i` where it should add `64 * i`
      obtain ⟨i, hi⟩ := hset
      obtain ⟨j, hj⟩ := Bitset.exists_firstWord hi
      have hpos : j ≠ 0 := fun hj0 => hj.1 (hj0 ▸ h0)
      have heq := hb.word j hj
      rw [Bitset.ffs_eq_of_firstWord hj] at heq
      have hsum := Option.some.inj heq
      omega
    · have hzero : ∀ i, b.word i = 0 := fun i => by
        by_contra hne
        exact hset ⟨i, hne⟩
      obtain ⟨v, hv, -⟩ := hb.empty fun g => by
        unfold Bitset.bit
        rw [hzero]
        exact Nat.zero_testBit _
      -- no word is found, so there is nothing to return
      have hnone : b.find (fun v => v != 0) = none := by
        rw [Option.eq_none_iff_forall_ne_some]
        intro i hi
        exact ((b.find_eq_some_iff i).mp hi).1 (hzero i)
      unfold Bitset.ffs at hv
      rw [hnone] at hv
      exact absurd hv (by simp)
  · intro b c g h hb hc hg hh hne heq
    rw [(findsFirst_of_word_zero hb).lowest g hg, (findsFirst_of_word_zero hc).lowest h hh] at heq
    have hsum := Option.some.inj heq
    omega

/-- With the words `0, 1` the lowest set bit is bit 64, and `ffs()` returns 2, as it does
for the words `2, 0`; with no set bit it returns nothing. -/
theorem ffs_misses :
    ¬ FindsFirst (⟨#v[0, 1]⟩ : Bitset 1) ∧ (⟨#v[0, 1]⟩ : Bitset 1).ffs = some 2 ∧
      (⟨#v[2, 0]⟩ : Bitset 1).ffs = some 2 ∧ (⟨#v[0, 0]⟩ : Bitset 1).ffs = none := by
  refine ⟨fun hb => ?_, by decide, by decide, by decide⟩
  have hfirst : (⟨#v[0, 1]⟩ : Bitset 1).FirstWord 1 := by
    refine ⟨by decide, fun j hj => ?_⟩
    rw [show j = 0 by omega]
    rfl
  have heq := hb.word 1 hfirst
  revert heq
  decide

end Zsl.Types
