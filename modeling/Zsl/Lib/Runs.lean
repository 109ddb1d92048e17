import Mathlib.Logic.Basic

/-!
# Runs of a system

A system moves by a partial step function: `step s a = none` when the action `a` is not
possible in `s`. A property of a run is a property of its steps, read off the state
before, the action and the state after:

* `Steps Q s acts`: every step of the run of `acts` from `s` satisfies `Q`;
* `steps_of_inductive`, the invariant rule: what an inductive invariant gives at each step
  holds along every run;
* `steps_iff`: two step properties that agree as long as the first one has held so far
  hold along the same runs. This is the rule for "the run is good exactly when no step
  meets the bad condition".
-/

namespace Zsl.Lib

/-- A system with an initial state and a partial step function. -/
structure System (σ α : Type*) where
  start : σ
  step : σ → α → Option σ

namespace System
variable {σ α : Type*} (M : System σ α)

/-- The state `acts` leads to from `s`, if every action is possible. -/
def run : σ → List α → Option σ
  | s, [] => some s
  | s, a :: acts => (M.step s a).bind fun t => run t acts

/-- Every step of the run of `acts` from `s` satisfies `Q`. -/
def Steps (Q : σ → α → σ → Prop) : σ → List α → Prop
  | _, [] => True
  | s, a :: acts => ∀ t, M.step s a = some t → Q s a t ∧ Steps Q t acts

/-- The system whose steps must also meet `C`. -/
def restrict (C : σ → α → Prop) [∀ s a, Decidable (C s a)] : System σ α where
  start := M.start
  step s a := if C s a then M.step s a else none

variable {M}

lemma restrict_step {C : σ → α → Prop} [∀ s a, Decidable (C s a)] {s t : σ} {a : α} :
    (M.restrict C).step s a = some t ↔ C s a ∧ M.step s a = some t := by
  simp [restrict]

/-- Along every run, an invariant that the steps preserve holds and yields `P` at every
step. -/
theorem steps_of_inductive (Inv : σ → Prop) {P : σ → α → σ → Prop}
    (hstep : ∀ s a t, Inv s → M.step s a = some t → P s a t ∧ Inv t) {s : σ} (hs : Inv s)
    (acts : List α) : M.Steps P s acts := by
  induction acts generalizing s with
  | nil => trivial
  | cons a acts ih =>
    intro t ht
    obtain ⟨hp, ht'⟩ := hstep s a t hs ht
    exact ⟨hp, ih ht'⟩

/-- A run satisfies `P` at every step exactly when it meets `C` at every step, if the two
agree under an invariant that steps meeting `C` preserve. -/
theorem steps_iff (Inv : σ → Prop) {C P : σ → α → σ → Prop}
    (hstep : ∀ s a t, Inv s → M.step s a = some t → (C s a t ↔ P s a t) ∧ (C s a t → Inv t))
    {s : σ} (hs : Inv s) (acts : List α) : M.Steps C s acts ↔ M.Steps P s acts := by
  induction acts generalizing s with
  | nil => exact Iff.rfl
  | cons a acts ih =>
    refine forall_congr' fun t => forall_congr' fun ht => ?_
    -- the invariant passes to the next state whichever side is assumed
    obtain ⟨hiff, hinv⟩ := hstep s a t hs ht
    constructor
    · exact fun h => ⟨hiff.mp h.1, (ih (hinv h.1)).mp h.2⟩
    · exact fun h => ⟨hiff.mpr h.1, (ih (hinv (hiff.mpr h.1))).mpr h.2⟩

/-- A property of all steps of a run holds of the step after any part of it. -/
lemma Steps.of_run {Q : σ → α → σ → Prop} {s u t : σ} {acts rest : List α} {a : α}
    (h : M.Steps Q s (acts ++ a :: rest)) (hu : M.run s acts = some u)
    (ht : M.step u a = some t) : Q u a t := by
  induction acts generalizing s with
  | nil =>
    obtain rfl := Option.some.inj hu
    exact (h t ht).1
  | cons b acts ih =>
    obtain ⟨v, hv, hrest⟩ := Option.bind_eq_some_iff.mp hu
    exact ih (h v hv).2 hrest

end System

end Zsl.Lib
