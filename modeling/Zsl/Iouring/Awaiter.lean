import Zsl.Iouring.Delivery
import Zsl.Lib.Reachability

/-!
# Who awaits a task

`await_suspend` of an `awaitable_t` stores the awaiter as the continuation of the task, and
nothing reads it.

* `Linked.atTask`: no step resumes an awaiter of a task;
* `awaiter_never_resumed`: so it stays suspended, along every run that delivers its completions
  to their own awaits.
-/

namespace Zsl.Iouring

/-- A step leaves a coroutine that awaits a task where it is. -/
lemma Linked.atTask {s t : State} (h : Linked s) {act : Action} (hst : Iouring.step s act = some t)
    (hu : DeliverySafe s act t) {c k : CoroId} (hc : s.status c = .atTask k) :
    t.status c = .atTask k := by
  have hne {d : CoroId} (hd : s.stack.head? = some d) {st : Status} :
      (s.setStatus d st).status c = .atTask k := by
    -- the coroutine that runs is not suspended
    rwa [State.setStatus_of_ne]
    intro heq
    rw [heq, h.threaded.head hd] at hc
    cases hc
  have hm := step_move hst
  cases hm with
  | start =>
    show (s.setStatus s.born .running).status c = .atTask k
    rwa [State.setStatus_of_ne]
    intro heq
    rw [heq, h.threaded.unborn _ le_rfl] at hc
    cases hc
  | awaitSuspended hd => exact hne hd
  | taskSuspended hd => exact hne hd
  | finish hd => exact hne hd
  | @dispatch q cq t hs hq hd =>
    by_contra hne
    have hat := (h.delivered hst hq (hu rfl q cq hq)).resumes c (fun heq => hne (heq.trans hc))
    rw [hc] at hat
    cases hat
  | _ => exact hc

/-- A coroutine that awaits an `awaitable_t` is not resumed by any step of a run that delivers its
completions to their own awaits: not by the completion of the task either. -/
theorem awaiter_never_resumed (acts : List Action)
    (h : runtime.Steps DeliverySafe runtime.start acts) :
    runtime.Steps (fun s _ t => ∀ c k, s.status c = .atTask k → t.status c = .atTask k)
      runtime.start acts := by
  apply Lib.System.Steps.of_inductive Linked _ Linked.start h
  intro s act t hl hst hu
  exact ⟨fun c k hc => hl.atTask hst hu hc, hl.step hst hu⟩

/-- A task that waits for a timer, is awaited, and is resumed and completes. -/
theorem awaiter_never_resumed_timer :
    runtime.Steps (fun s _ t => ∀ c k, s.status c = .atTask k → t.status c = .atTask k)
      runtime.start [.start, .start, .create 1 .onTimeout, .awaitEvent 1 1, .awaitTask 1,
        .post 0 (-62) false, .dispatch, .finish] := by
  apply awaiter_never_resumed
  refine .cons rfl nofun (.cons rfl nofun (.cons rfl nofun (.cons rfl nofun (.cons rfl nofun
    (.cons rfl nofun (.cons rfl ?_ (.cons rfl nofun trivial)))))))
  rintro - q cq hq
  obtain ⟨rfl, -⟩ := List.cons.inj hq
  exact nofun

end Zsl.Iouring
