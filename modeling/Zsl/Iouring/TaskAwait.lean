import Zsl.Iouring.RuntimeMoves

/-!
# Awaiting a task

* `TaskProtocol`: what a `co_await` of an `awaitable_t` is to do, in both orders of the
  await and the completion of the task;
* `TaskUnawaited`: the steps on which the two do not meet;
* `task_protocol_iff`: a run keeps the protocol exactly when its steps are of that kind,
  since `final_suspend` never resumes a continuation and `await_ready` never tells that the
  task has completed.
-/

namespace Zsl.Iouring

/-- The task await protocol, at one step. -/
structure TaskProtocol (s : State) (act : Action) (t : State) : Prop where
  /-- nobody is suspended on a completed task -/
  no_orphan : ∀ c k, t.status c = .atTask k → t.status k ≠ .finished
  /-- completing a task resumes its continuation -/
  resumes : act = .finish → ∀ c k, s.stack.head? = some c → s.continuation c = some k →
    t.stack = k :: s.stack.tail ∧ t.status k = .running
  /-- awaiting a completed task continues the awaiter and leaves the dead promise alone -/
  continues : ∀ k, act = .awaitTask k → s.status k = .finished →
    t.fault ≠ some .deadPromise ∧ t.stack = s.stack

/-- The step neither completes a task that was awaited nor awaits a completed task. -/
def TaskUnawaited (s : State) (act : Action) (_ : State) : Prop :=
  match act with
  | .finish => ∀ c, s.stack.head? = some c → s.continuation c = none
  | .awaitTask k => s.status k ≠ .finished
  | _ => True

/-- A suspended awaiter is the continuation of a task that is not complete. -/
def Continued (s : State) : Prop :=
  ∀ c k, s.status c = .atTask k → s.status k ≠ .finished ∧ s.continuation k = some c

namespace Continued
variable {s : State}

lemma start : Continued State.start := by
  intro c k hc
  cases hc

lemma setStatus (h : Continued s) (c : CoroId) (st : Status) (hst : ∀ k, st ≠ .atTask k)
    (hfin : st = .finished → s.continuation c = none) : Continued (s.setStatus c st) := by
  intro d k hd
  by_cases hdc : d = c
  · subst hdc
    exact absurd (by simpa using hd) (hst k)
  · rw [State.setStatus_of_ne hdc] at hd
    obtain ⟨hk, hcont⟩ := h d k hd
    refine ⟨?_, hcont⟩
    -- a task that completes has no continuation, so nobody waits for it
    by_cases hkc : k = c
    · subst hkc
      intro hfk
      have hnone := hfin (by simpa using hfk)
      rw [hcont] at hnone
      cases hnone
    · rwa [State.setStatus_of_ne hkc]

lemma awaitTask (h : Continued s) (c : CoroId) {k : CoroId} (hfree : s.continuation k = none)
    (hk : s.status k ≠ .finished) :
    Continued ({ s with continuation := Function.update s.continuation k (some c) }.setStatus c
      (.atTask k)) := by
  intro d j hd
  have hne {i : CoroId} (hi : s.status i ≠ .finished) :
      (State.setStatus { s with continuation := Function.update s.continuation k (some c) } c
        (.atTask k)).status i ≠ .finished := by
    by_cases hic : i = c
    · subst hic
      simp
    · rwa [State.setStatus_of_ne hic]
  by_cases hdc : d = c
  · subst hdc
    obtain rfl : k = j := by simpa using hd
    exact ⟨hne hk, Function.update_self ..⟩
  · rw [State.setStatus_of_ne hdc] at hd
    obtain ⟨hj, hcont⟩ := h d j hd
    refine ⟨hne hj, ?_⟩
    -- the continuation of `k` is set for the first time
    have hjk : j ≠ k := by
      intro heq
      rw [heq, hfree] at hcont
      cases hcont
    exact (Function.update_of_ne hjk _ _).trans hcont

/-- A step that does not make an await and a completion meet keeps the awaiters apart from
the completed tasks. -/
lemma step (h : Continued s) {act : Action} {t : State} (hm : Move s act t)
    (hu : TaskUnawaited s act t) : Continued t := by
  cases hm with
  | start => exact h.setStatus s.born .running (by simp) (by simp)
  | awaitSuspended hc he ha hw free hr hle =>
    exact setStatus (s := (s.setEvent _ _).enqueue _ _ _) h _ _ (by simp) (by simp)
  | taskSuspended hc hlt hk ht => exact h.awaitTask _ hk ht
  | finish hc => exact h.setStatus _ _ (by simp) fun _ => hu _ hc
  | dispatch hs hq hd =>
    cases hd with
    | resumedTask he hr hc ht =>
      exact setStatus (s := State.setEvent { s with cq := _ } _ _) h _ _ (by simp) (by simp)
    | resumed he hr hc hw hb =>
      exact setStatus (s := (State.setEvent { s with cq := _ } _ _).setEvent _ _) h _ _
        (by simp) (by simp)
    | deadEvent | ignored | badResume => exact h
  | create | destroy | awaitNull | awaitFailed | taskDead | closeNull | closed | postFinal
  | postMore => exact h

end Continued

lemma taskUnawaited_of_protocol {s t : State} {act : Action} (hm : Move s act t)
    (hp : TaskProtocol s act t) : TaskUnawaited s act t := by
  cases hm with
  | @finish c hc =>
    intro d hd
    by_contra hne
    obtain ⟨k, hk⟩ := Option.ne_none_iff_exists'.mp hne
    -- `final_suspend` pops the task and pushes nobody
    have hstack : s.stack.tail = k :: s.stack.tail := (hp.resumes rfl d k hd hk).1
    have hlen := congrArg List.length hstack
    simp at hlen
  | taskDead hc ht => exact absurd rfl (hp.continues _ rfl ht).1
  | taskSuspended hc hlt hk ht => exact ht
  | _ => trivial

lemma protocol_of_taskUnawaited {s t : State} {act : Action} (h : Continued t)
    (hm : Move s act t) (hu : TaskUnawaited s act t) : TaskProtocol s act t where
  no_orphan c k hc := (h c k hc).1
  resumes hact c k hc hk := by
    subst hact
    have hnone : s.continuation c = none := hu c hc
    rw [hk] at hnone
    cases hnone
  continues k hact hk := by
    subst hact
    exact absurd hk hu

/-- A run keeps the task await protocol at every step exactly when no task in it is both
awaited and completed. -/
theorem task_protocol_iff (acts : List Action) :
    runtime.Steps TaskUnawaited runtime.start acts ↔
      runtime.Steps TaskProtocol runtime.start acts := by
  refine Lib.System.steps_iff Continued ?_ Continued.start acts
  intro s act t hs hst
  have hm := step_move hst
  refine ⟨⟨fun hu => ?_, taskUnawaited_of_protocol hm⟩, fun hu => hs.step hm hu⟩
  exact protocol_of_taskUnawaited (hs.step hm hu) hm hu

/-- A task that waits for a timer, is awaited, and completes: its awaiter stays suspended. -/
def completedAfterAwait : List Action :=
  [.start, .start, .create 1 .onTimeout, .awaitEvent 1 1, .awaitTask 1, .post 0 (-62) false,
    .dispatch]

/-- A task that completes without suspending, and is awaited then. -/
def completedBeforeAwait : List Action := [.start, .start, .finish]

/-- In both orders the await of a completed task goes wrong. -/
theorem task_protocol_fails :
    (∃ s, runtime.run runtime.start (completedAfterAwait ++ [.finish]) = some s ∧
      s.status 1 = .finished ∧ s.status 0 = .atTask 1 ∧ s.continuation 1 = some 0 ∧
      s.stack = []) ∧
    (∃ s, runtime.run runtime.start (completedBeforeAwait ++ [.awaitTask 1]) = some s ∧
      s.fault = some .deadPromise) ∧
    ¬ ∀ acts, runtime.Steps TaskProtocol runtime.start acts := by
  refine ⟨⟨_, rfl, rfl, rfl, rfl, rfl⟩, ⟨_, rfl, rfl⟩, fun h => ?_⟩
  have hp := (h (completedAfterAwait ++ [.finish])).of_run rfl rfl
  exact hp.no_orphan 0 1 rfl rfl

end Zsl.Iouring
