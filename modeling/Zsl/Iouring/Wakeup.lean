import Zsl.Iouring.RuntimeDispatch

/-!
# Lost wakeups

* `Awaitable`: a request is in flight for an await, or completed and not yet dispatched;
* `NoLostWakeup`: every suspended await has one, and dispatching its final completion ends
  it with the value of the result code;
* `no_lost_wakeup_iff`: a run keeps this exactly when each final completion of a send or
  accept that is still awaited has a positive result code, and each await's own entry is
  among those its submit hands over. `on_send` and `on_accept` drop the other codes.
-/

namespace Zsl.Iouring

/-- The await `w` on the event at `a` has a request in flight or a completion to come. -/
def Awaitable (s : State) (a : Addr) (w : ℕ) : Prop :=
  (∃ e ∈ s.inflight, e.userData = a ∧ e.request.ticket = w) ∨
    ∃ q ∈ s.cq, q.entry.userData = a ∧ q.entry.request.ticket = w

/-- No wakeup is lost at a step. -/
structure NoLostWakeup (s : State) (act : Action) (t : State) : Prop where
  awaitable : ∀ c a w, t.status c = .atEvent a w → Awaitable t a w
  wakes : act = .dispatch → ∀ q cq c a, s.cq = q :: cq → q.more = false →
    s.status c = .atEvent a q.entry.request.ticket →
    t.stack = [c] ∧ t.status c = .running ∧ t.returns = s.returns ++
      [⟨q.entry.request.ticket, q, q.entry.request.opcode.outcome q.res⟩]

/-- A submit from an await takes the whole queue or throws, and the final completion of a
send or accept that is still awaited has a positive result code. -/
def WakeupSafe (s : State) (act : Action) (_ : State) : Prop :=
  match act with
  | .awaitEvent _ r => hasFreeSqe s.sq = true → 0 < r → r = s.sq.length + 1
  | .dispatch => ∀ q cq c a, s.cq = q :: cq → q.more = false →
    s.status c = .atEvent a q.entry.request.ticket →
    q.entry.request.opcode = .send ∨ q.entry.request.opcode = .multishotAccept → 0 < q.res
  | _ => True

/-- Every suspended await has its request in flight or a final completion to come. -/
structure Wakeable (s : State) : Prop where
  wellFormed : WellFormed s
  pending : ∀ c a w, s.status c = .atEvent a w →
    (∃ e ∈ s.inflight, e.request.ticket = w) ∨
      ∃ q ∈ s.cq, q.more = false ∧ q.entry.request.ticket = w

lemma Wakeable.awaitable {s : State} (h : Wakeable s) {c : CoroId} {a : Addr} {w : ℕ}
    (hc : s.status c = .atEvent a w) : Awaitable s a w := by
  rcases h.pending c a w hc with ⟨e, he, rfl⟩ | ⟨q, hq, -, rfl⟩
  · have hmem : e ∈ s.pending := State.mem_pending.mpr (.inr (.inl he))
    exact .inl ⟨e, he, (h.wellFormed.at_pending c a _ hc e hmem rfl).1, rfl⟩
  · have hmem : q.entry ∈ s.pending := State.mem_pending.mpr (.inr (.inr ⟨q, hq, rfl⟩))
    exact .inr ⟨q, hq, (h.wellFormed.at_pending c a _ hc _ hmem rfl).1, rfl⟩

/-- Under `WakeupSafe`, the handler of a final completion still awaited acts on it. -/
lemma resumes_of_safe {s t : State} (h : WellFormed s) (hu : WakeupSafe s .dispatch t) {q : Cqe}
    {cq : List Cqe} (hq : s.cq = q :: cq) (hm : q.more = false) {c : CoroId} {a : Addr}
    (hc : s.status c = .atEvent a q.entry.request.ticket) :
    q.entry.request.opcode.resumes q.res = true := by
  obtain ⟨-, e, he, hco, -⟩ := h.event_of_head hq hc
  -- a cancel is nobody's await
  have hcancel : q.entry.request.opcode ≠ .cancelFd := by
    intro ho
    obtain ⟨e', he', -, hno⟩ := h.cancel_ignored hq ho
    obtain rfl := Option.some.inj (he.symm.trans he')
    rw [hno] at hco
    cases hco
  have hpos := hu q cq c a hq hm hc
  cases ho : q.entry.request.opcode with
  | send => exact decide_eq_true (hpos (.inl ho))
  | multishotAccept => exact decide_eq_true (hpos (.inr ho))
  | cancelFd => exact absurd ho hcancel
  | timeout | connect | recv => rfl

namespace Wakeable
variable {s t : State}

protected lemma start : Wakeable State.start :=
  ⟨WellFormed.start, fun c a w hc => by cases hc⟩

/-- A step that leaves the suspended coroutines and their requests alone. -/
lemma of_subset (h : Wakeable s) (ht : WellFormed t)
    (hst : ∀ c a w, t.status c = .atEvent a w → s.status c = .atEvent a w)
    (hin : ∀ e ∈ s.inflight, e ∈ t.inflight) (hcq : ∀ q ∈ s.cq, q ∈ t.cq) : Wakeable t := by
  refine ⟨ht, fun c a w hc => ?_⟩
  rcases h.pending c a w (hst c a w hc) with ⟨e, he, hew⟩ | ⟨q, hq, hqm, hqw⟩
  · exact .inl ⟨e, hin e he, hew⟩
  · exact .inr ⟨q, hcq q hq, hqm, hqw⟩

lemma dispatch (h : Wakeable s) (ht : WellFormed t) {q : Cqe} {cq : List Cqe}
    (hq : s.cq = q :: cq) (hm : DispatchMove s q cq t) (hu : WakeupSafe s .dispatch t) :
    Wakeable t := by
  refine ⟨ht, fun c a w hc => ?_⟩
  have hd := hm.dispatched
  have hold : s.status c = .atEvent a w := by
    rcases hd.status c with hs | hs
    · rw [← hs, hc]
    · rw [hs] at hc
      cases hc
  rcases h.pending c a w hold with ⟨e, he, hew⟩ | ⟨q', hq', hqm, rfl⟩
  · exact .inl ⟨e, hd.inflight ▸ he, hew⟩
  · rw [hq] at hq'
    rcases List.mem_cons.mp hq' with rfl | hq'
    · -- its final completion is the one dispatched, which ends the await
      have hr := resumes_of_safe h.wellFormed hu hq hqm hold
      have hw := h.wellFormed.dispatch_woken hm hq hold hr
      rw [hw.running] at hc
      cases hc
    · exact .inr ⟨q', hd.cq ▸ hq', hqm, rfl⟩

/-- A step that meets `WakeupSafe` keeps every suspended await wakeable. -/
theorem step (h : Wakeable s) (ht : WellFormed t) {act : Action} (hm : Move s act t)
    (hu : WakeupSafe s act t) : Wakeable t := by
  cases hm with
  | start =>
    exact h.of_subset ht (fun _ _ _ => s.atEvent_of_setStatus (by simp)) (fun _ he => he)
      (fun _ hq => hq)
  | create | destroy | awaitNull | taskDead | closeNull =>
    exact h.of_subset ht (fun _ _ _ hc => hc) (fun _ he => he) (fun _ hq => hq)
  | awaitFailed hc he ha hw free hr =>
    exact h.of_subset ht (fun _ _ _ hc => hc) (fun _ he => List.mem_append_left _ he)
      (fun _ hq => hq)
  | closed free hle =>
    exact h.of_subset ht (fun _ _ _ hc => hc) (fun _ he => List.mem_append_left _ he)
      (fun _ hq => hq)
  | taskSuspended hc hlt hk hf =>
    exact h.of_subset ht (fun _ _ _ => State.atEvent_of_setStatus { s with continuation := _ }
      (by simp)) (fun _ he => he) (fun _ hq => hq)
  | finish hc =>
    exact h.of_subset ht (fun _ _ _ => s.atEvent_of_setStatus (by simp)) (fun _ he => he)
      (fun _ hq => hq)
  | postMore he ho =>
    exact h.of_subset ht (fun _ _ _ hc => hc) (fun _ he => he)
      (fun _ hq => List.mem_append_left _ hq)
  | dispatch hs hq hd => exact h.dispatch ht hq hd hu
  | @postFinal i e res he =>
    refine ⟨ht, fun c a w hc => ?_⟩
    rcases h.pending c a w hc with ⟨x, hx, hxw⟩ | ⟨q, hq, hqm, hqw⟩
    · -- the completed request is in the queue now, the others stay in flight
      obtain ⟨hi, hei⟩ := List.getElem?_eq_some_iff.mp he
      have hperm := (List.getElem_cons_eraseIdx_perm hi).mem_iff (a := x)
      rcases List.mem_cons.mp (hperm.mpr hx) with rfl | hx
      · exact .inr ⟨_, List.mem_append_right _ (List.mem_singleton.mpr rfl), rfl, hei ▸ hxw⟩
      · exact .inl ⟨x, hx, hxw⟩
    · exact .inr ⟨q, List.mem_append_left _ hq, hqm, hqw⟩
  | @awaitSuspended c a e r hc he ha hw free hr hle =>
    -- the submit takes the whole queue, and with it the new entry
    have hown : (⟨⟨e.handler.opcode, s.prepared⟩, a⟩ : Sqe Request) ∈
        (submit (s.sq ++ [⟨⟨e.handler.opcode, s.prepared⟩, a⟩]) r).taken := by
      rw [taken_append_singleton s.sq _ (hu free hr)]
      exact List.mem_append_right _ (List.mem_singleton_self _)
    refine ⟨ht, fun d b w hd => ?_⟩
    by_cases hdc : d = c
    · subst hdc
      obtain ⟨rfl, rfl⟩ : a = b ∧ s.prepared = w := by simpa [State.pop] using hd
      exact .inl ⟨_, List.mem_append_right _ hown, rfl⟩
    · have hold : s.status d = .atEvent b w :=
        (State.setStatus_of_ne (s := (s.setEvent _ _).enqueue _ _ _) hdc).symm.trans hd
      rcases h.pending d b w hold with ⟨x, hx, hxw⟩ | hq
      · exact .inl ⟨x, List.mem_append_left _ hx, hxw⟩
      · exact .inr hq

end Wakeable

lemma noLostWakeup_of_safe {s t : State} {act : Action} (h : WellFormed s) (ht : Wakeable t)
    (hm : Move s act t) (hu : WakeupSafe s act t) : NoLostWakeup s act t where
  awaitable _ _ _ hc := ht.awaitable hc
  wakes hact q cq c a hq hfinal hc := by
    subst hact
    have hw := h.dispatch_woken (hm.dispatchMove hq) hq hc (resumes_of_safe h hu hq hfinal hc)
    exact ⟨hw.stack, hw.running, hw.returns⟩

lemma safe_of_noLostWakeup {s t : State} {act : Action} (h : WellFormed s) (hm : Move s act t)
    (hp : NoLostWakeup s act t) : WakeupSafe s act t := by
  cases act with
  | awaitEvent a r =>
    intro hfree hr
    cases hm with
    | awaitNull hc he full =>
      rw [hfree] at full
      cases full
    | awaitFailed hc he ha hw free hr' => omega
    | @awaitSuspended c _ e _ hc he ha hw free hr' hle =>
      by_contra hne
      have hold {n : ℕ} (hn : n < s.prepared) : n ≠ s.prepared := Nat.ne_of_lt hn
      rcases hp.awaitable c a s.prepared (State.setStatus_self ..) with ⟨x, hx, -, hxw⟩ |
        ⟨q, hq, -, hqw⟩
      · -- a partial submit takes older entries only, so none of them is the new one
        have hmem : x ∈ s.pending := by
          rcases List.mem_append.mp hx with hx | hx
          · exact State.mem_pending.mpr (.inr (.inl hx))
          · have hlt : r ≤ s.sq.length := by omega
            exact State.mem_pending.mpr (.inl (mem_taken_append_singleton hlt hx))
        exact hold (h.pending_lt x hmem) hxw
      · have hmem : q.entry ∈ s.pending := State.mem_pending.mpr (.inr (.inr ⟨q, hq, rfl⟩))
        exact hold (h.pending_lt _ hmem) hqw
  | dispatch =>
    intro q cq c a hq hfinal hc hop
    by_contra hpos
    -- `on_send` and `on_accept` drop the code, and the await stays suspended
    have hr : q.entry.request.opcode.resumes q.res = false := by
      rcases hop with ho | ho <;> rw [ho] <;> exact decide_eq_false hpos
    have hrun := (hp.wakes rfl q cq c a hq hfinal hc).2.1
    rw [h.dispatch_ignored (hm.dispatchMove hq) hq hc hr] at hrun
    have hstatus : s.status c = .running := hrun
    rw [hc] at hstatus
    cases hstatus
  | _ => trivial

/-- A run loses no wakeup exactly when every final completion of a send or accept that is
still awaited has a positive result code, and no submit from an await leaves entries behind. -/
theorem no_lost_wakeup_iff (acts : List Action) :
    runtime.Steps WakeupSafe runtime.start acts ↔
      runtime.Steps NoLostWakeup runtime.start acts := by
  refine Lib.System.steps_iff Wakeable ?_ Wakeable.start acts
  intro s act t hs hst
  have hm := step_move hst
  have ht := hs.wellFormed.step hst
  refine ⟨⟨fun hu => ?_, safe_of_noLostWakeup hs.wellFormed hm⟩, fun hu => hs.step ht hm hu⟩
  exact noLostWakeup_of_safe hs.wellFormed (hs.step ht hm hu) hm hu

/-- A coroutine sends on a socket whose peer has gone: `EPIPE`. -/
def sendFails : List Action :=
  [.start, .create 1 .onSend, .awaitEvent 1 1, .post 0 (-32) false]

/-- The failed send leaves its coroutine suspended with nothing to wake it. -/
theorem lost_wakeup :
    (∃ s, runtime.run runtime.start (sendFails ++ [.dispatch]) = some s ∧
      s.status 0 = .atEvent 1 0 ∧ s.sq = [] ∧ s.inflight = [] ∧ s.cq = []) ∧
    ¬ ∀ acts, runtime.Steps NoLostWakeup runtime.start acts := by
  refine ⟨⟨_, rfl, rfl, rfl, rfl, rfl⟩, fun h => ?_⟩
  have hp := (h (sendFails ++ [.dispatch])).of_run rfl rfl
  rcases hp.awaitable 0 1 0 rfl with ⟨e, he, -⟩ | ⟨q, hq, -⟩
  · cases he
  · cases hq

end Zsl.Iouring
