import Zsl.Iouring.RuntimeDispatch

/-!
# Delivering completions to their awaits

* `Linked`: every pending request whose await has neither failed nor been answered has a
  coroutine suspended at exactly that await;
* `Linked.dispatch`: then a dispatch ends that await, or changes nothing;
* `accept_delivery_iff`: the completions of accepts reach their awaits exactly when no
  request is answered twice. The multishot request of an `accept()` outlives its await, so
  a second connection finds the event dead, or its coroutine elsewhere.
-/

namespace Zsl.Iouring

/-- No completion of the request `w` has resumed a coroutine. -/
def State.Unanswered (s : State) (w : ℕ) : Prop :=
  ∀ r ∈ s.returns, r.cqe.entry.request.ticket ≠ w

/-! ## The link between requests and coroutines -/

/-- Requests, awaits and returned values belong together. -/
structure Linked (s : State) : Prop where
  wellFormed : WellFormed s
  threaded : Threaded s
  own : ∀ r ∈ s.returns, r.cqe.entry.request.ticket = r.ticket ∧
    r.value = r.cqe.entry.request.opcode.outcome r.cqe.res
  unanswered : ∀ e ∈ s.pending, e.request.opcode ≠ .multishotAccept →
    s.Unanswered e.request.ticket
  suspended : ∀ e ∈ s.pending, e.request.opcode ≠ .cancelFd → e.request.ticket ∉ s.failed →
    s.Unanswered e.request.ticket → ∃ c, s.status c = .atEvent e.userData e.request.ticket

namespace Linked
variable {s t : State}

protected lemma start : Linked State.start where
  wellFormed := WellFormed.start
  threaded := Threaded.start
  own := by simp [State.start]
  unanswered := by simp [State.start, State.pending]
  suspended := by simp [State.start, State.pending]

/-- A ticket not yet given out is unanswered. -/
lemma unanswered_prepared (h : Linked s) : s.Unanswered s.prepared := by
  intro r hr
  rw [(h.own r hr).1]
  exact Nat.ne_of_lt (h.wellFormed.returns_lt r hr)

/-- A step that returns no await, and whose new request has its coroutine. -/
lemma keep (h : Linked s) (ht : WellFormed t) (ht' : Threaded t) (hr : t.returns = s.returns)
    (hf : ∀ w ∈ s.failed, w ∈ t.failed)
    (hst : ∀ c a w, s.status c = .atEvent a w → t.status c = .atEvent a w)
    (hp : ∀ e ∈ t.pending, e ∈ s.pending ∨ e.request.ticket = s.prepared ∧
      (e.request.opcode ≠ .cancelFd → e.request.ticket ∉ t.failed →
        ∃ c, t.status c = .atEvent e.userData e.request.ticket)) : Linked t := by
  refine ⟨ht, ht', hr ▸ h.own, fun e he ho => ?_, fun e he ho hw hun => ?_⟩
  · rw [State.Unanswered, hr]
    -- an old request keeps its place, a new one has a new ticket
    rcases hp e he with he | ⟨hw, -⟩
    · exact h.unanswered e he ho
    · rw [hw]
      exact h.unanswered_prepared
  · rcases hp e he with he | ⟨-, hc⟩
    · rw [State.Unanswered, hr] at hun
      obtain ⟨c, hc⟩ := h.suspended e he ho (fun hw' => hw (hf _ hw')) hun
      exact ⟨c, hst c _ _ hc⟩
    · exact hc ho hw

/-- The event and the coroutine of a request whose await has not ended. -/
lemma event (h : Linked s) {e : Sqe Request} (he : e ∈ s.pending)
    (ho : e.request.opcode ≠ .cancelFd) (hf : e.request.ticket ∉ s.failed)
    (hun : s.Unanswered e.request.ticket) :
    ∃ ev c, s.events e.userData = some ev ∧ ev.coroutine = some c ∧
      ev.handler.opcode = e.request.opcode ∧
      s.status c = .atEvent e.userData e.request.ticket := by
  obtain ⟨c, hc⟩ := h.suspended e he ho hf hun
  obtain ⟨-, ev, hev, hco, hop⟩ := h.wellFormed.event_of_pending hc he
  exact ⟨ev, c, hev, hco, hop, hc⟩

/-- The dispatch that ends the await of `c`. -/
lemma woken (h : Linked s) (ht : WellFormed t) (ht' : Threaded t) {q : Cqe} {cq : List Cqe}
    (hq : s.cq = q :: cq) (hd : Dispatched s t cq) {c : CoroId} {a : Addr}
    (hc : s.status c = .atEvent a q.entry.request.ticket) (hw : Woken s t q c) : Linked t := by
  have hret : ∀ r, r ∈ t.returns ↔ r ∈ s.returns ∨
      r = ⟨q.entry.request.ticket, q, q.entry.request.opcode.outcome q.res⟩ := by
    intro r
    rw [hw.returns, List.mem_append, List.mem_singleton]
  have hperm := hd.pending hq
  have hold {e : Sqe Request} (he : e ∈ t.pending) : e ∈ s.pending :=
    hperm.mem_iff.mpr (List.mem_cons_of_mem _ he)
  have hmem : q.entry ∈ s.pending := State.head_mem_pending hq
  refine ⟨ht, ht', fun r hr => ?_, fun e he ho r hr => ?_, fun e he ho hf hun => ?_⟩
  · rcases (hret r).mp hr with hr | rfl
    · exact h.own r hr
    · exact ⟨rfl, rfl⟩
  · rcases (hret r).mp hr with hr | rfl
    · exact h.unanswered e (hold he) ho r hr
    · -- a request that completes once was pending once
      intro hew
      obtain rfl := h.wellFormed.pending_inj _ hmem e (hold he) hew
      have hnodup := (hperm.filter _).nodup_iff.mp h.wellFormed.single
      rw [List.filter_cons_of_pos (by simpa using ho)] at hnodup
      exact (List.nodup_cons.mp hnodup).1 (List.mem_filter.mpr ⟨he, by simpa using ho⟩)
  · have hew : q.entry.request.ticket ≠ e.request.ticket := hun _ ((hret _).mpr (.inr rfl))
    obtain ⟨d, hdw⟩ := h.suspended e (hold he) ho (hd.failed ▸ hf)
      fun r hr => hun r ((hret r).mpr (.inl hr))
    have hdc : d ≠ c := by
      intro heq
      rw [heq, hc] at hdw
      exact hew (Status.atEvent.inj hdw).2
    exact ⟨d, (hw.others d hdc).trans hdw⟩

end Linked

/-! ## The condition -/

/-- The completion `q` reaches nobody but its own await: the submit of its request did not
throw and no completion of the request has resumed a coroutine, and an accepted descriptor
is not `0`. The completion of any other request whose submit threw is harmless only if it
finds an event that ignores it. -/
def Deliverable (s : State) (q : Cqe) : Prop :=
  if q.entry.request.opcode = .multishotAccept then
    q.entry.request.ticket ∉ s.failed ∧ s.Unanswered q.entry.request.ticket ∧ q.res ≠ 0
  else
    q.entry.request.ticket ∈ s.failed → ∃ e, s.events q.entry.userData = some e ∧
      e.handler ≠ .onAccept ∧ (e.handler.call q.res e).2 = false

/-- Every dispatched completion is deliverable. -/
def DeliverySafe (s : State) (act : Action) (_ : State) : Prop :=
  act = .dispatch → ∀ q cq, s.cq = q :: cq → Deliverable s q

/-! ## Dispatching -/

/-- The completion is for `on_accept`, by its request or by the event it finds. -/
def ForAccept (s : State) (q : Cqe) : Prop :=
  q.entry.request.opcode = .multishotAccept ∨
    ∃ e, s.events q.entry.userData = some e ∧ e.handler = .onAccept

/-- The dispatch of `q` reaches nobody but the await of its request. -/
structure Delivered (s : State) (q : Cqe) (t : State) : Prop where
  /-- `on_accept` finds its event alive, and its coroutine at exactly that `accept()` -/
  alive : ForAccept s q → ∃ e c, s.events q.entry.userData = some e ∧ e.handler = .onAccept ∧
    e.coroutine = some c ∧ s.status c = .atEvent q.entry.userData q.entry.request.ticket
  /-- an accepted descriptor is the result of that `accept()` -/
  result : q.entry.request.opcode = .multishotAccept → 0 ≤ q.res → t.returns = s.returns ++
    [⟨q.entry.request.ticket, q, some (.ok (.socket q.res))⟩]
  /-- nobody suspended elsewhere, running or finished is resumed -/
  resumes : ∀ c, t.status c ≠ s.status c →
    s.status c = .atEvent q.entry.userData q.entry.request.ticket
  no_fault : t.fault = none

/-- Accept delivery at a step: no await returns twice, and dispatches deliver. -/
def AcceptDelivery (s : State) (act : Action) (t : State) : Prop :=
  (t.returns.map Return.ticket).Nodup ∧
    (act = .dispatch → ∀ q cq, s.cq = q :: cq → Delivered s q t)

lemma onAccept_of_opcode {h : Handler} (hh : h.opcode = .multishotAccept) : h = .onAccept := by
  cases h <;> simp_all [Handler.opcode]

namespace Linked
variable {s t : State}

/-- A deliverable completion ends its own await, or changes nothing. -/
theorem dispatch (h : Linked s) {q : Cqe} {cq : List Cqe} (hq : s.cq = q :: cq)
    (hd : DispatchMove s q cq t) (hu : Deliverable s q) :
    (∃ c, s.status c = .atEvent q.entry.userData q.entry.request.ticket ∧ Woken s t q c) ∨
    t = { s with cq := cq } ∧ (ForAccept s q → q.res < 0 ∧
      ∃ c, s.status c = .atEvent q.entry.userData q.entry.request.ticket) := by
  have hmem : q.entry ∈ s.pending := State.head_mem_pending hq
  by_cases ho : q.entry.request.opcode = .multishotAccept
  · rw [Deliverable, if_pos ho] at hu
    obtain ⟨hf, hun, hzero⟩ := hu
    obtain ⟨c, hc⟩ := h.suspended _ hmem (by simp [ho]) hf hun
    -- `on_accept` drops the codes up to 0, and 0 is excluded
    by_cases hr : q.entry.request.opcode.resumes q.res = true
    · exact .inl ⟨c, hc, h.wellFormed.dispatch_woken hd hq hc hr⟩
    · have hr' := Bool.eq_false_iff.mpr hr
      have hpos : ¬ 0 < q.res := by
        rw [ho] at hr
        simpa [Opcode.resumes] using hr
      exact .inr ⟨h.wellFormed.dispatch_ignored hd hq hc hr', fun _ => ⟨by omega, c, hc⟩⟩
  · rw [Deliverable, if_neg ho] at hu
    have hnot {e : Event} (he : s.events q.entry.userData = some e) (hh : e.handler ≠ .onAccept) :
        ¬ ForAccept s q := by
      rintro (ho' | ⟨e', he', hh'⟩)
      · exact ho ho'
      · obtain rfl := Option.some.inj (he.symm.trans he')
        exact hh hh'
    -- the completion of a cancel finds the static event of `close`
    by_cases hcancel : q.entry.request.opcode = .cancelFd
    · obtain ⟨e, he, hh, -⟩ := h.wellFormed.cancel_ignored hq hcancel
      have ht := hd.eq_of_ignored he (by rw [hh]; rfl)
      exact .inr ⟨ht, fun hfor => absurd hfor (hnot he (by simp [hh]))⟩
    by_cases hf : q.entry.request.ticket ∈ s.failed
    · obtain ⟨e, he, hh, hr⟩ := hu hf
      rw [(call_spec e.handler q.res e).1] at hr
      exact .inr ⟨hd.eq_of_ignored he hr, fun hfor => absurd hfor (hnot he hh)⟩
    · obtain ⟨e, c, he, -, hop, hc⟩ := h.event hmem hcancel hf (h.unanswered _ hmem ho)
      by_cases hr : q.entry.request.opcode.resumes q.res = true
      · exact .inl ⟨c, hc, h.wellFormed.dispatch_woken hd hq hc hr⟩
      · have hr' := Bool.eq_false_iff.mpr hr
        refine .inr ⟨h.wellFormed.dispatch_ignored hd hq hc hr', fun hfor => absurd hfor ?_⟩
        refine hnot he fun hh => ho ?_
        rw [← hop, hh]
        rfl

/-- Steps that dispatch deliverable completions only keep the link. -/
theorem step (h : Linked s) {act : Action} (hst : step s act = some t)
    (hu : DeliverySafe s act t) : Linked t := by
  have ht := h.wellFormed.step hst
  have ht' := h.threaded.step hst
  have hm := step_move hst
  have hrun {c d : CoroId} {st : Status} (hc : s.stack.head? = some c) {a : Addr} {w : ℕ}
      (hd : s.status d = .atEvent a w) : (s.setStatus c st).status d = .atEvent a w := by
    -- the coroutine that runs is not among the suspended ones
    rwa [State.setStatus_of_ne]
    intro heq
    rw [heq, h.threaded.head hc] at hd
    cases hd
  clear hst
  cases hm with
  | start =>
    refine h.keep ht ht' rfl (fun _ hw => hw) (fun c a w hc => ?_) fun e he => .inl he
    rw [← hc]
    apply State.setStatus_of_ne
    intro hnew
    rw [hnew, h.threaded.unborn _ le_rfl] at hc
    cases hc
  | create | destroy | awaitNull | taskDead | closeNull =>
    exact h.keep ht ht' rfl (fun _ hw => hw) (fun _ _ _ hc => hc) fun e he => .inl he
  | awaitFailed hc he ha hw free hr =>
    refine h.keep ht ht' rfl (fun _ hw => List.mem_cons_of_mem _ hw) (fun _ _ _ hc => hc)
      fun e he => ?_
    rcases State.mem_pending_enqueue.mp he with rfl | he
    · exact .inr ⟨rfl, fun _ hf => absurd List.mem_cons_self hf⟩
    · exact .inl he
  | awaitSuspended hc he ha hw free hr hle =>
    refine h.keep ht ht' rfl (fun _ hw => hw) (fun _ _ _ => hrun hc) fun e he => ?_
    rcases State.mem_pending_enqueue.mp he with rfl | he
    · exact .inr ⟨rfl, fun _ _ => ⟨_, State.setStatus_self ..⟩⟩
    · exact .inl he
  | taskSuspended hc hlt hk hf =>
    exact h.keep ht ht' rfl (fun _ hw => hw) (fun _ _ _ => hrun hc) fun e he => .inl he
  | closed free hle =>
    refine h.keep ht ht' rfl (fun _ hw => hw) (fun _ _ _ hc => hc) fun e he => ?_
    rcases State.mem_pending_enqueue.mp he with rfl | he
    · exact .inr ⟨rfl, fun ho => absurd rfl ho⟩
    · exact .inl he
  | finish hc =>
    exact h.keep ht ht' rfl (fun _ hw => hw) (fun _ _ _ => hrun hc) fun e he => .inl he
  | postFinal he =>
    exact h.keep ht ht' rfl (fun _ hw => hw) (fun _ _ _ hc => hc)
      fun e he' => .inl ((State.pending_postFinal _ he).mem_iff.mp he')
  | postMore he ho =>
    refine h.keep ht ht' rfl (fun _ hw => hw) (fun _ _ _ hc => hc) fun e he' => .inl ?_
    rcases List.mem_cons.mp ((s.pending_postMore _ _).mem_iff.mp he') with rfl | he'
    · exact State.mem_pending_of_inflight he
    · exact he'
  | @dispatch q cq t hs hq hd =>
    rcases h.dispatch hq hd (hu rfl q cq hq) with ⟨c, hc, hw⟩ | ⟨rfl, -⟩
    · exact h.woken ht ht' hq hd.dispatched hc hw
    · exact h.keep ht ht' rfl (fun _ hw => hw) (fun _ _ _ hc => hc)
        fun e he => .inl (State.mem_pending_of_cq hq he)

lemma delivered (h : Linked s) (hst : Iouring.step s .dispatch = some t) {q : Cqe}
    {cq : List Cqe} (hq : s.cq = q :: cq) (hu : Deliverable s q) : Delivered s q t := by
  have hfault := fault_of_step hst
  have hmem : q.entry ∈ s.pending := State.head_mem_pending hq
  have halive {c : CoroId} (hfor : ForAccept s q)
      (hc : s.status c = .atEvent q.entry.userData q.entry.request.ticket) :
      ∃ e c, s.events q.entry.userData = some e ∧ e.handler = .onAccept ∧
        e.coroutine = some c ∧
        s.status c = .atEvent q.entry.userData q.entry.request.ticket := by
    obtain ⟨-, e, he, hco, hop⟩ := h.wellFormed.event_of_head hq hc
    refine ⟨e, c, he, ?_, hco, hc⟩
    rcases hfor with ho | ⟨e', he', hh⟩
    · exact onAccept_of_opcode (hop.trans ho)
    · obtain rfl := Option.some.inj (he.symm.trans he')
      exact hh
  have hd := (step_move hst).dispatchMove hq
  rcases h.dispatch hq hd hu with ⟨c, hc, hw⟩ | ⟨rfl, hfor⟩
  · refine ⟨fun hfor => halive hfor hc, fun ho hres => ?_, fun d hd => ?_, ?_⟩
    · rw [hw.returns, ho, Opcode.outcome, if_neg (by omega)]
    · -- only the coroutine of the await changes its status
      by_contra hdc
      apply hd
      apply hw.others
      intro heq
      exact hdc (heq ▸ hc)
    · rw [hw.fault, hfault]
  · refine ⟨fun hacc => ?_, fun ho hres => ?_, fun d hd => absurd rfl hd, hfault⟩
    · obtain ⟨-, c, hc⟩ := hfor hacc
      exact halive hacc hc
    · have hneg := (hfor (.inl ho)).1
      omega

lemma deliverable (h : Linked s) {q : Cqe} {cq : List Cqe} (hd : DispatchMove s q cq t)
    (hp : Delivered s q t) : Deliverable s q := by
  unfold Deliverable
  split
  · next ho =>
    obtain ⟨e, c, he, hh, -, hc⟩ := hp.alive (.inl ho)
    obtain ⟨hf, hr⟩ := h.wellFormed.at_fresh _ _ _ hc
    refine ⟨hf, fun r hr' => ?_, fun hzero => ?_⟩
    · rw [(h.own r hr').1]
      exact hr r hr'
    · have ht := hd.eq_of_ignored he (by rw [hh, hzero]; rfl)
      -- on descriptor 0 `on_accept` does nothing, so no value is returned
      have hret := hp.result ho (by omega)
      have hlen := congrArg List.length hret
      simp [ht] at hlen
  · next ho =>
    intro hf
    -- nobody waits for a request whose submit threw
    have hnobody (c : CoroId) : t.status c = s.status c := by
      by_contra hne
      exact (h.wellFormed.at_fresh _ _ _ (hp.resumes c hne)).1 hf
    cases hd with
    | deadEvent he => cases hp.no_fault
    | ignored he hr =>
      refine ⟨_, he, fun hh => ?_, (call_spec _ _ _).1.trans hr⟩
      obtain ⟨-, c, -, -, -, hc⟩ := hp.alive (.inr ⟨_, he, hh⟩)
      exact (h.wellFormed.at_fresh _ _ _ hc).1 hf
    | badResume he hr hc => cases hp.no_fault
    | resumedTask he hr hc hk =>
      have hrun := (hnobody _).symm.trans (State.setStatus_self ..)
      rw [hk] at hrun
      cases hrun
    | resumed he hr hc hw hb =>
      have hrun := (hnobody _).symm.trans (State.setStatus_self ..)
      rw [hw] at hrun
      cases hrun

end Linked

/-- Every completion of an accept reaches its own await, and no completion anybody else,
exactly when the completions dispatched are deliverable: in particular, when no completion
of an accept comes after one that has resumed its await. -/
theorem accept_delivery_iff (acts : List Action) :
    runtime.Steps DeliverySafe runtime.start acts ↔
      runtime.Steps AcceptDelivery runtime.start acts := by
  refine Lib.System.steps_iff Linked ?_ Linked.start acts
  intro s act t hs hst
  have hm := step_move hst
  refine ⟨⟨fun hu => ⟨?_, ?_⟩, fun hp => ?_⟩, fun hu => hs.step hst hu⟩
  · exact (hs.wellFormed.step hst).returns_nodup
  · intro hact q cq hq
    subst hact
    exact hs.delivered hst hq (hu rfl q cq hq)
  · intro hact q cq hq
    subst hact
    exact hs.deliverable (hm.dispatchMove hq) (hp.2 rfl q cq hq)

/-- A server that accepts a connection, drops the awaitable and waits for a timer; then a
second connection comes. -/
def secondConnection : List Action :=
  [.start, .create 1 .onAccept, .awaitEvent 1 1, .post 0 7 true, .dispatch, .destroy 1,
    .create 2 .onTimeout, .awaitEvent 2 1, .post 0 8 true]

/-- The same with the awaitable kept alive. -/
def secondConnectionAlive : List Action :=
  [.start, .create 1 .onAccept, .awaitEvent 1 1, .post 0 7 true, .dispatch,
    .create 2 .onTimeout, .awaitEvent 2 1, .post 0 8 true]

/-- The second connection is dispatched to a dead event, or ends the await of the timer. -/
theorem second_connection_misdelivered :
    (∃ s, runtime.run runtime.start (secondConnection ++ [.dispatch]) = some s ∧
      s.fault = some .deadEvent) ∧
    (∃ s, runtime.run runtime.start (secondConnectionAlive ++ [.dispatch]) = some s ∧
      s.status 0 = .running ∧ s.inflight.map (·.request.opcode) = [.multishotAccept, .timeout] ∧
      s.returns.map (fun r => (r.ticket, r.cqe.entry.request.ticket)) = [(0, 0), (1, 0)]) ∧
    ¬ ∀ acts, runtime.Steps AcceptDelivery runtime.start acts := by
  refine ⟨⟨_, rfl, rfl⟩, ⟨_, rfl, rfl, rfl, rfl⟩, fun h => ?_⟩
  have hp := (h (secondConnection ++ [.dispatch])).of_run rfl rfl
  cases (hp.2 rfl _ _ rfl).no_fault

end Zsl.Iouring
