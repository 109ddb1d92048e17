import Mathlib.Data.Nat.Notation
import Zsl.Lib.Runs

/-!
# Where runs lead to

* `run_cons_eq_some`: a run splits at each of its actions;
* `Steps.of_inductive`: an invariant of the steps that meet a condition;
* `invariant_of_run`: what the steps preserve holds where a run ends;
* `length_add_measure_le`: runs whose steps decrease a measure are finite, with a bound on
  their length;
* `exists_stuck`: so each of them can be continued until nothing more is possible;
* `logging`: a system that also keeps a log of its steps.
-/

namespace Zsl.Lib.System
variable {σ α : Type*} {M : System σ α}

/-- A run splits at each of its actions. -/
lemma run_cons_eq_some {s u : σ} {a : α} {acts : List α} :
    M.run s (a :: acts) = some u ↔ ∃ t, M.step s a = some t ∧ M.run t acts = some u :=
  Option.bind_eq_some_iff

lemma Steps.cons {Q : σ → α → σ → Prop} {s t : σ} {a : α} {acts : List α}
    (ht : M.step s a = some t) (hq : Q s a t) (h : M.Steps Q t acts) :
    M.Steps Q s (a :: acts) := by
  intro u hu
  obtain rfl := Option.some.inj (ht.symm.trans hu)
  exact ⟨hq, h⟩

/-- What follows from a property of each step holds of each step. -/
lemma Steps.imp {P Q : σ → α → σ → Prop} (hPQ : ∀ s a t, P s a t → Q s a t) {s : σ}
    {acts : List α} (h : M.Steps P s acts) : M.Steps Q s acts := by
  induction acts generalizing s with
  | nil => trivial
  | cons a acts ih =>
    intro t ht
    obtain ⟨hp, hrest⟩ := h t ht
    exact ⟨hPQ s a t hp, ih hrest⟩

/-- A run whose steps meet `C` satisfies what an invariant gives under `C`. -/
theorem Steps.of_inductive (Inv : σ → Prop) {C P : σ → α → σ → Prop}
    (hstep : ∀ s a t, Inv s → M.step s a = some t → C s a t → P s a t ∧ Inv t) {s : σ}
    (hs : Inv s) {acts : List α} (h : M.Steps C s acts) : M.Steps P s acts := by
  induction acts generalizing s with
  | nil => trivial
  | cons a acts ih =>
    intro t ht
    obtain ⟨hc, hrest⟩ := h t ht
    obtain ⟨hp, ht'⟩ := hstep s a t hs ht hc
    exact ⟨hp, ih ht' hrest⟩

theorem invariant_of_run (Inv : σ → Prop)
    (hstep : ∀ s a t, Inv s → M.step s a = some t → Inv t) {s u : σ} (hs : Inv s)
    {acts : List α} (h : M.run s acts = some u) : Inv u := by
  induction acts generalizing s with
  | nil =>
    obtain rfl := Option.some.inj h
    exact hs
  | cons a acts ih =>
    obtain ⟨t, ht, hrest⟩ := run_cons_eq_some.mp h
    exact ih (hstep s a t hs ht) hrest

/-- A run is no longer than the measure its steps use up. -/
theorem length_add_measure_le (Inv : σ → Prop) (μ : σ → ℕ)
    (hstep : ∀ s a t, Inv s → M.step s a = some t → Inv t ∧ μ t < μ s) {s u : σ} (hs : Inv s)
    {acts : List α} (h : M.run s acts = some u) : acts.length + μ u ≤ μ s := by
  induction acts generalizing s with
  | nil =>
    obtain rfl := Option.some.inj h
    exact Nat.le_of_eq (Nat.zero_add _)
  | cons a acts ih =>
    obtain ⟨t, ht, hrest⟩ := run_cons_eq_some.mp h
    obtain ⟨hinv, hlt⟩ := hstep s a t hs ht
    have hle := ih hinv hrest
    rw [List.length_cons]
    omega

/-- A system whose steps use up a measure can be run to an end. -/
theorem exists_stuck (μ : σ → ℕ) (hstep : ∀ s a t, M.step s a = some t → μ t < μ s) (s : σ) :
    ∃ acts t, M.run s acts = some t ∧ ∀ a, M.step t a = none := by
  induction hn : μ s using Nat.strongRecOn generalizing s with
  | ind n ih =>
    by_cases hstuck : ∀ a, M.step s a = none
    · exact ⟨[], s, rfl, hstuck⟩
    · obtain ⟨a, ha⟩ := not_forall.mp hstuck
      obtain ⟨t, ht⟩ := Option.ne_none_iff_exists'.mp ha
      obtain ⟨acts, u, hu, hend⟩ := ih (μ t) (hn ▸ hstep s a t ht) t rfl
      exact ⟨a :: acts, u, run_cons_eq_some.mpr ⟨t, ht, hu⟩, hend⟩

/-- The system with a log, to which a step appends what `note` says of it. -/
def logging {γ : Type*} (M : System σ α) (note : σ → α → List γ) : System (σ × List γ) α where
  start := (M.start, [])
  step s a := (M.step s.1 a).map fun t => (t, s.2 ++ note s.1 a)

lemma logging_step {γ : Type*} {note : σ → α → List γ} {s t : σ × List γ} {a : α} :
    (M.logging note).step s a = some t ↔ M.step s.1 a = some t.1 ∧ t.2 = s.2 ++ note s.1 a := by
  show Option.map _ _ = _ ↔ _
  rw [Option.map_eq_some_iff]
  constructor
  · rintro ⟨u, hu, rfl⟩
    exact ⟨hu, rfl⟩
  · rintro ⟨ht, hlog⟩
    exact ⟨t.1, ht, by rw [← hlog]⟩

end Zsl.Lib.System
