import Mathlib.Data.List.Basic
import Zsl.Lib.Reachability

/-!
# Refinement of systems

A concrete system refines an abstract one along a relation of their states, if each concrete
step is answered by the abstract step it stands for, or by none.

* `Refines C A R label`: the steps of `C`, as `A` sees them;
* `Refines.run`: every run of `C` is one of `A`, without the actions that stand for nothing;
* `Refines.steps`: what holds of the steps of `A` holds of those of `C` that stand for one.
-/

namespace Zsl.Lib.System
variable {σ α τ β : Type*}

/-- `C` refines `A` along `R`, where `label a` is the action of `A` that `a` stands for. -/
structure Refines (C : System σ α) (A : System τ β) (R : σ → τ → Prop)
    (label : α → Option β) : Prop where
  start : R C.start A.start
  stutter : ∀ c s a c', R c s → label a = none → C.step c a = some c' → R c' s
  step : ∀ c s a b c', R c s → label a = some b → C.step c a = some c' →
    ∃ s', A.step s b = some s' ∧ R c' s'

namespace Refines
variable {C : System σ α} {A : System τ β} {R : σ → τ → Prop} {label : α → Option β}

/-- The abstract system answers every run from related states. -/
lemma run_of_related (h : Refines C A R label) {c c' : σ} {s : τ} (hR : R c s) {acts : List α}
    (hrun : C.run c acts = some c') :
    ∃ s', A.run s (acts.filterMap label) = some s' ∧ R c' s' := by
  induction acts generalizing c s with
  | nil =>
    obtain rfl := Option.some.inj hrun
    exact ⟨s, rfl, hR⟩
  | cons a acts ih =>
    obtain ⟨d, hd, hrest⟩ := run_cons_eq_some.mp hrun
    cases hlabel : label a with
    | none =>
      rw [List.filterMap_cons_none hlabel]
      exact ih (h.stutter c s a d hR hlabel hd) hrest
    | some b =>
      rw [List.filterMap_cons_some hlabel]
      obtain ⟨t, ht, hR'⟩ := h.step c s a b d hR hlabel hd
      obtain ⟨s', hs', hR''⟩ := ih hR' hrest
      exact ⟨s', run_cons_eq_some.mpr ⟨t, ht, hs'⟩, hR''⟩

theorem run (h : Refines C A R label) {c' : σ} {acts : List α}
    (hrun : C.run C.start acts = some c') :
    ∃ s', A.run A.start (acts.filterMap label) = some s' ∧ R c' s' :=
  h.run_of_related h.start hrun

/-- A property of every step of the abstract run is one of the concrete steps. -/
lemma steps_of_related (h : Refines C A R label) {Q : τ → β → τ → Prop} {c : σ} {s : τ}
    (hR : R c s) {acts : List α} (hQ : A.Steps Q s (acts.filterMap label)) :
    C.Steps (fun c a c' => ∀ b, label a = some b →
      ∃ s s', R c s ∧ R c' s' ∧ C.step c a = some c' ∧ Q s b s') c acts := by
  induction acts generalizing c s with
  | nil => trivial
  | cons a acts ih =>
    intro c' hc'
    cases hlabel : label a with
    | none =>
      rw [List.filterMap_cons_none hlabel] at hQ
      refine ⟨fun b hb => ?_, ih (h.stutter c s a c' hR hlabel hc') hQ⟩
      rw [hlabel] at hb
      cases hb
    | some b =>
      rw [List.filterMap_cons_some hlabel] at hQ
      obtain ⟨s', hs', hR'⟩ := h.step c s a b c' hR hlabel hc'
      obtain ⟨hq, hrest⟩ := hQ s' hs'
      refine ⟨fun b' hb' => ?_, ih hR' hrest⟩
      obtain rfl := Option.some.inj (hlabel.symm.trans hb')
      exact ⟨s, s', hR, hR', hc', hq⟩

theorem steps (h : Refines C A R label) {Q : τ → β → τ → Prop}
    (hQ : ∀ acts, A.Steps Q A.start acts) (acts : List α) :
    C.Steps (fun c a c' => ∀ b, label a = some b →
      ∃ s s', R c s ∧ R c' s' ∧ C.step c a = some c' ∧ Q s b s') C.start acts :=
  h.steps_of_related h.start (hQ _)

/-- Conditions on the steps refine one another as the steps do. -/
lemma restrict (h : Refines C A R label) {P : σ → α → Prop} {Q : τ → β → Prop}
    [∀ c a, Decidable (P c a)] [∀ s b, Decidable (Q s b)]
    (hPQ : ∀ c s a b, R c s → label a = some b → P c a → Q s b) :
    Refines (C.restrict P) (A.restrict Q) R label where
  start := h.start
  stutter c s a c' hR hlabel hstep := h.stutter c s a c' hR hlabel (restrict_step.mp hstep).2
  step c s a b c' hR hlabel hstep := by
    obtain ⟨hP, hstep⟩ := restrict_step.mp hstep
    obtain ⟨s', hs', hR'⟩ := h.step c s a b c' hR hlabel hstep
    exact ⟨s', restrict_step.mpr ⟨hPQ c s a b hR hlabel hP, hs'⟩, hR'⟩

end Refines

end Zsl.Lib.System
