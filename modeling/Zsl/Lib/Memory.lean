import Mathlib.Data.Nat.Notation
import Mathlib.Tactic.TypeStar

/-!
# Memory

Cells at consecutive addresses, read and written as lists.

* `read_write`: a list that is written is read back;
* `write_apply_of_not`: the cells outside of it stay;
* `read_eq_read_iff`: two ranges hold the same cells.
-/

namespace Zsl.Lib.Memory
variable {β : Type*}

/-- The `n` cells from `a` on. -/
def read (m : ℕ → β) (a n : ℕ) : List β := (List.range n).map fun i => m (a + i)

/-- `bs` written from `a` on. -/
def write (m : ℕ → β) (a : ℕ) (bs : List β) : ℕ → β := fun x =>
  if a ≤ x then (bs[x - a]?).getD (m x) else m x

@[simp] lemma length_read (m : ℕ → β) (a n : ℕ) : (read m a n).length = n := by simp [read]

@[simp] lemma getElem_read (m : ℕ → β) (a : ℕ) {n i : ℕ} (hi : i < (read m a n).length) :
    (read m a n)[i] = m (a + i) := by
  simp [read]

lemma write_apply_of_lt (m : ℕ → β) (a : ℕ) {bs : List β} {i : ℕ} (hi : i < bs.length) :
    write m a bs (a + i) = bs[i] := by
  unfold write
  rw [if_pos (Nat.le_add_right a i), Nat.add_sub_cancel_left, List.getElem?_eq_getElem hi]
  rfl

lemma write_apply_of_not (m : ℕ → β) {a x : ℕ} {bs : List β}
    (h : x < a ∨ a + bs.length ≤ x) : write m a bs x = m x := by
  unfold write
  by_cases hx : a ≤ x
  · rw [if_pos hx, List.getElem?_eq_none (by omega)]
    rfl
  · rw [if_neg hx]

lemma read_eq_read_iff {m m' : ℕ → β} {a a' n : ℕ} :
    read m a n = read m' a' n ↔ ∀ i < n, m (a + i) = m' (a' + i) := by
  unfold read
  rw [List.map_inj_left]
  simp only [List.mem_range]

/-- What was written is read back. -/
theorem read_write (m : ℕ → β) (a : ℕ) (bs : List β) :
    read (write m a bs) a bs.length = bs := by
  apply List.ext_getElem
  · exact length_read _ _ _
  · intro i hi hi'
    rw [getElem_read]
    exact write_apply_of_lt m a hi'

end Zsl.Lib.Memory
