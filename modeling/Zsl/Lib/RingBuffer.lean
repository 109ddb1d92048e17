import Mathlib.Logic.Function.Basic
import Mathlib.Algebra.Group.Nat.Defs
import Mathlib.Data.List.Basic

/-!
# Ring buffers with wrapping counters

A queue of at most `2 ^ m` values in a memory of that many slots, with a head and a tail
counter of 32 bits that run freely and wrap.

* `RingBuffer`: the memory and the counters, with `push`, `get` and `advance`;
* `Represents r l n`: `r` is the queue of the values of `l` from the `n`th on, `l` being
  everything ever pushed;
* `Represents.push`, `Represents.advance`, `Represents.get_ofNat`: the operations in terms
  of `l` and `n`, whatever the counters have wrapped to.
-/

namespace Zsl.Lib

/-- A ring buffer of `2 ^ m` slots. -/
structure RingBuffer (α : Type*) (m : Fin 32) where
  slots : ℕ → α
  head : UInt32
  tail : UInt32

namespace RingBuffer
variable {α : Type*} {m : Fin 32}

def empty [Inhabited α] : RingBuffer α m := ⟨fun _ => default, 0, 0⟩

/-- The slot of a counter: its low `m` bits. -/
def index (m : Fin 32) (i : UInt32) : ℕ := (i &&& UInt32.ofNat (2 ^ m.val - 1)).toNat

def get (r : RingBuffer α m) (i : UInt32) : α := r.slots (index m i)

/-- There is room for another value. -/
def hasRoom (r : RingBuffer α m) : Bool := (r.tail - r.head).toNat < 2 ^ m.val

/-- Writes a value behind the tail. -/
def push (r : RingBuffer α m) (a : α) : RingBuffer α m :=
  { r with slots := Function.update r.slots (index m r.tail) a, tail := r.tail + 1 }

/-- Gives up the `k` slots at the head. -/
def advance (r : RingBuffer α m) (k : UInt32) : RingBuffer α m := { r with head := r.head + k }

/-! ## Counters -/

lemma two_pow_lt (m : Fin 32) : 2 ^ m.val < 2 ^ 32 := Nat.pow_lt_pow_right (by omega) m.isLt

lemma index_ofNat (m : Fin 32) (n : ℕ) : index m (UInt32.ofNat n) = n % 2 ^ m.val := by
  have hlt := two_pow_lt m
  have hmask : (UInt32.ofNat (2 ^ m.val - 1)).toNat = 2 ^ m.val - 1 := by
    rw [UInt32.toNat_ofNat']
    exact Nat.mod_eq_of_lt (by omega)
  -- the slots divide the range of the counter, so wrapping keeps the index
  have hdvd : 2 ^ m.val ∣ 2 ^ 32 := Nat.pow_dvd_pow 2 (Nat.le_of_lt m.isLt)
  rw [index, UInt32.toNat_and, hmask, Nat.and_two_pow_sub_one_eq_mod, UInt32.toNat_ofNat',
    Nat.mod_mod_of_dvd _ hdvd]

/-- Counters less than `2 ^ 32` apart are equal only if their counts are. -/
lemma ofNat_inj {i j : ℕ} (hij : i ≤ j) (hlt : j < i + 2 ^ 32) :
    UInt32.ofNat i = UInt32.ofNat j ↔ i = j := by
  refine ⟨fun h => ?_, fun h => h ▸ rfl⟩
  have hmod := congrArg UInt32.toNat h
  rw [UInt32.toNat_ofNat', UInt32.toNat_ofNat'] at hmod
  omega

/-- The distance of two counters is that of their counts. -/
lemma toNat_ofNat_sub {i j : ℕ} (hij : i ≤ j) (hlt : j < i + 2 ^ 32) :
    (UInt32.ofNat j - UInt32.ofNat i).toNat = j - i := by
  rw [UInt32.toNat_sub, UInt32.toNat_ofNat', UInt32.toNat_ofNat']
  omega

/-! ## Queues -/

/-- `r` holds the values of `l` from the `n`th on. -/
structure Represents (r : RingBuffer α m) (l : List α) (n : ℕ) : Prop where
  head : r.head = UInt32.ofNat n
  tail : r.tail = UInt32.ofNat l.length
  le : n ≤ l.length
  fits : l.length ≤ n + 2 ^ m.val
  slots : ∀ i (hi : i < l.length), n ≤ i → r.slots (i % 2 ^ m.val) = l[i]

namespace Represents
variable {r : RingBuffer α m} {l : List α} {n : ℕ}

lemma empty [Inhabited α] : (RingBuffer.empty : RingBuffer α m).Represents [] 0 where
  head := rfl
  tail := rfl
  le := Nat.le_refl 0
  fits := Nat.zero_le _
  slots := fun i hi => absurd hi (Nat.not_lt_zero i)

lemma length_lt (h : Represents r l n) : l.length < n + 2 ^ 32 := by
  have := h.fits
  have := two_pow_lt m
  omega

/-- Two counters between head and tail differ unless their counts are the same. -/
lemma ofNat_inj (h : Represents r l n) {i j : ℕ} (hi : n ≤ i) (hij : i ≤ j)
    (hj : j ≤ l.length) : UInt32.ofNat i = UInt32.ofNat j ↔ i = j := by
  have := h.length_lt
  exact RingBuffer.ofNat_inj hij (by omega)

lemma get_ofNat (h : Represents r l n) {i : ℕ} (hi : n ≤ i) (hlt : i < l.length) :
    r.get (UInt32.ofNat i) = l[i] := by
  rw [get, index_ofNat, h.slots i hlt hi]

lemma hasRoom_iff (h : Represents r l n) : r.hasRoom = true ↔ l.length < n + 2 ^ m.val := by
  rw [hasRoom, h.head, h.tail, toNat_ofNat_sub h.le h.length_lt, decide_eq_true_iff]
  have := h.le
  omega

lemma push (h : Represents r l n) (hroom : r.hasRoom = true) (a : α) :
    (r.push a).Represents (l ++ [a]) n := by
  rw [h.hasRoom_iff] at hroom
  refine ⟨h.head, ?_, ?_, ?_, fun i hi hn => ?_⟩
  · show r.tail + 1 = UInt32.ofNat (l ++ [a]).length
    rw [h.tail, List.length_append, List.length_singleton, UInt32.ofNat_add]
    rfl
  · rw [List.length_append]
    exact Nat.le_trans h.le (Nat.le_add_right _ _)
  · rw [List.length_append, List.length_singleton]
    omega
  · rw [List.length_append, List.length_singleton] at hi
    have hslots : (r.push a).slots = Function.update r.slots (l.length % 2 ^ m.val) a := by
      rw [RingBuffer.push, h.tail, index_ofNat]
    rw [hslots]
    by_cases hil : i = l.length
    · subst hil
      rw [Function.update_self, List.getElem_concat_length rfl]
    · have hlt : i < l.length := by omega
      -- fewer than `2 ^ m` values lie between the two slots, so they are not the same
      have hne : i % 2 ^ m.val ≠ l.length % 2 ^ m.val := by
        intro heq
        have hzero := Nat.sub_mod_eq_zero_of_mod_eq heq.symm
        rw [Nat.mod_eq_of_lt (by omega)] at hzero
        omega
      rw [Function.update_of_ne hne, h.slots i hlt hn, List.getElem_append_left hlt]

lemma advance (h : Represents r l n) {k : ℕ} (hk : n + k ≤ l.length) :
    (r.advance (UInt32.ofNat k)).Represents l (n + k) := by
  refine ⟨?_, h.tail, hk, ?_, fun i hi hn => h.slots i hi (by omega)⟩
  · show r.head + UInt32.ofNat k = UInt32.ofNat (n + k)
    rw [h.head, UInt32.ofNat_add]
  · have := h.fits
    omega

end Represents

end RingBuffer

end Zsl.Lib
