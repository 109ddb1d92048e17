import Mathlib.Logic.Equiv.Basic
import Mathlib.Data.Set.Insert

/-!
# Exclusive ownership

Holders of resources: a holder has at most one resource, and every live resource is to have
exactly one holder.

* `Owned held live`: the live resources and their holders are one to one;
* `Owned.acquire`, `Owned.release`, `Owned.swap`, `Owned.move`: a holder without a resource
  gets a new one, a holder gives its resource up, two holders exchange theirs, and a holder
  hands its resource to one without.
-/

namespace Zsl.Lib

variable {ι ρ : Type*}

/-- Who holds `x` once `i` has been given `o`: `i`, or who held it before. -/
lemma update_eq_some [DecidableEq ι] {held : ι → Option ρ} {i j : ι} {o : Option ρ} {x : ρ}
    (h : Function.update held i o j = some x) :
    (j = i ∧ o = some x) ∨ (j ≠ i ∧ held j = some x) := by
  by_cases hji : j = i
  · subst hji
    rw [Function.update_self] at h
    exact .inl ⟨rfl, h⟩
  · rw [Function.update_of_ne hji] at h
    exact .inr ⟨hji, h⟩

/-- Every live resource has exactly one holder, and only live resources are held. -/
structure Owned (held : ι → Option ρ) (live : Set ρ) : Prop where
  live_of_held : ∀ i x, held i = some x → x ∈ live
  holder : ∀ x ∈ live, ∃ i, held i = some x
  unique : ∀ i j x, held i = some x → held j = some x → i = j

namespace Owned
variable {held : ι → Option ρ} {live : Set ρ}

lemma none : Owned (fun _ : ι => (Option.none : Option ρ)) ∅ where
  live_of_held := by simp
  holder := by simp
  unique := by simp

theorem existsUnique (h : Owned held live) {x : ρ} (hx : x ∈ live) : ∃! i, held i = some x := by
  obtain ⟨i, hi⟩ := h.holder x hx
  exact ⟨i, hi, fun j hj => h.unique j i x hj hi⟩

variable [DecidableEq ι]

lemma acquire (h : Owned held live) {i : ι} {x : ρ} (hi : held i = Option.none)
    (hx : x ∉ live) : Owned (Function.update held i (some x)) (insert x live) := by
  have hne {j : ι} {y : ρ} (hj : held j = some y) : j ≠ i := by
    intro hji
    rw [hji, hi] at hj
    cases hj
  -- who holds `y` now is `i` with the new resource, or held it before
  have hold {j : ι} {y : ρ} (hj : Function.update held i (some x) j = some y) :
      (j = i ∧ y = x) ∨ (held j = some y ∧ y ≠ x) := by
    rcases update_eq_some hj with ⟨hji, hy⟩ | ⟨-, hj⟩
    · left
      exact ⟨hji, (Option.some.inj hy).symm⟩
    · right
      refine ⟨hj, ?_⟩
      intro hyx
      exact hx (hyx ▸ h.live_of_held j y hj)
  refine ⟨fun j y hj => ?_, fun y hy => ?_, fun j k y hj hk => ?_⟩
  · rcases hold hj with ⟨-, rfl⟩ | ⟨hj, -⟩
    · exact Set.mem_insert _ _
    · exact Set.mem_insert_of_mem _ (h.live_of_held j y hj)
  · rcases Set.mem_insert_iff.mp hy with rfl | hy
    · exact ⟨i, Function.update_self ..⟩
    · obtain ⟨j, hj⟩ := h.holder y hy
      exact ⟨j, (Function.update_of_ne (hne hj) ..).trans hj⟩
  · rcases hold hj with ⟨rfl, rfl⟩ | ⟨hj, hyx⟩ <;> rcases hold hk with ⟨hk, hk'⟩ | ⟨hk, hk'⟩
    · exact hk.symm
    · exact absurd rfl hk'
    · exact absurd hk' hyx
    · exact h.unique j k y hj hk

lemma release (h : Owned held live) {i : ι} {x : ρ} (hi : held i = some x) :
    Owned (Function.update held i Option.none) (live \ {x}) := by
  -- nobody but `i` held `x`, so nobody holds it now
  have hold {j : ι} {y : ρ} (hj : Function.update held i Option.none j = some y) :
      held j = some y ∧ y ≠ x := by
    rcases update_eq_some hj with ⟨-, hy⟩ | ⟨hji, hj⟩
    · cases hy
    · refine ⟨hj, ?_⟩
      intro hyx
      exact hji (h.unique j i x (hyx ▸ hj) hi)
  refine ⟨fun j y hj => ?_, fun y hy => ?_, fun j k y hj hk => ?_⟩
  · exact ⟨h.live_of_held j y (hold hj).1, (hold hj).2⟩
  · obtain ⟨j, hj⟩ := h.holder y hy.1
    refine ⟨j, (Function.update_of_ne ?_ ..).trans hj⟩
    intro hji
    rw [hji, hi] at hj
    exact hy.2 (Option.some.inj hj).symm
  · exact h.unique j k y (hold hj).1 (hold hk).1

lemma swap (h : Owned held live) (i j : ι) : Owned (held ∘ Equiv.swap i j) live where
  live_of_held k x hk := h.live_of_held _ x hk
  holder x hx := by
    obtain ⟨k, hk⟩ := h.holder x hx
    exact ⟨Equiv.swap i j k, by rw [Function.comp_apply, Equiv.swap_apply_self, hk]⟩
  unique k l x hk hl := (Equiv.swap i j).injective (h.unique _ _ x hk hl)

/-- `i` and `j` exchange what they hold, written as two updates. -/
lemma update_update (h : Owned held live) (i j : ι) :
    Owned (Function.update (Function.update held i (held j)) j (held i)) live := by
  have heq : Function.update (Function.update held i (held j)) j (held i) =
      held ∘ Equiv.swap i j := by
    -- the later update wins when the two places are the same
    funext k
    by_cases hkj : k = j
    · subst hkj
      simp
    · rw [Function.update_of_ne hkj, Function.comp_apply]
      by_cases hki : k = i
      · subst hki
        simp
      · rw [Function.update_of_ne hki, Equiv.swap_apply_of_ne_of_ne hki hkj]
  rw [heq]
  exact h.swap i j

/-- `j` hands what it holds to `i`. -/
lemma move (h : Owned held live) {i : ι} (hi : held i = Option.none) (j : ι) :
    Owned (Function.update (Function.update held i (held j)) j Option.none) live := by
  have hupdate := h.update_update i j
  rwa [hi] at hupdate

end Owned

end Zsl.Lib
