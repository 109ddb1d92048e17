import Zsl.Iouring.RuntimeInvariants

/-!
# Dispatching a completion

* `Dispatched`: what every dispatch keeps;
* `DispatchMove.eq_of_ignored`: a completion on whose result code the handler does nothing
  is only taken off the queue;
* `WellFormed.dispatch_woken`: one on whose result code it acts ends its await, if that is
  still suspended, with the value of the result code.
-/

namespace Zsl.Iouring

/-- What every dispatch of `q` keeps: it takes `q` off the queue, and at most makes one
suspended coroutine run. -/
structure Dispatched (s t : State) (cq : List Cqe) : Prop where
  cq : t.cq = cq
  inflight : t.inflight = s.inflight
  sq : t.sq = s.sq
  prepared : t.prepared = s.prepared
  failed : t.failed = s.failed
  status : ∀ c, t.status c = s.status c ∨ t.status c = .running
  events : ∀ a, (t.events a).map Event.link = (s.events a).map Event.link

section
variable {s t : State} {q : Cqe} {cq : List Cqe}

lemma State.setStatus_running (s : State) (c d : CoroId) :
    (s.setStatus c .running).status d = s.status d ∨
      (s.setStatus c .running).status d = .running := by
  by_cases hdc : d = c
  · subst hdc
    exact .inr (by simp)
  · exact .inl (State.setStatus_of_ne hdc)

lemma DispatchMove.dispatched (hd : DispatchMove s q cq t) : Dispatched s t cq := by
  cases hd with
  | deadEvent he => exact ⟨rfl, rfl, rfl, rfl, rfl, fun _ => .inl rfl, fun _ => rfl⟩
  | ignored he hr => exact ⟨rfl, rfl, rfl, rfl, rfl, fun _ => .inl rfl, fun _ => rfl⟩
  | @badResume e he hr hc =>
    exact ⟨rfl, rfl, rfl, rfl, rfl, fun _ => .inl rfl,
      State.link_setEvent he (call_spec e.handler q.res e).2⟩
  | @resumedTask e c k he hr hc ht =>
    exact ⟨rfl, rfl, rfl, rfl, rfl, s.setStatus_running c,
      State.link_setEvent he (call_spec e.handler q.res e).2⟩
  | @resumed e eb c b w he hr hc hw hb =>
    refine ⟨rfl, rfl, rfl, rfl, rfl, s.setStatus_running c, fun a => ?_⟩
    exact (State.link_setEvent hb (awaitResume_link eb) a).trans
      (State.link_setEvent he (call_spec e.handler q.res e).2 a)

lemma Dispatched.pending (hd : Dispatched s t cq) (hq : s.cq = q :: cq) :
    s.pending.Perm (q.entry :: t.pending) := by
  have hsame : ({ s with cq := cq } : State).pending = t.pending := by
    rw [State.pending, State.pending, hd.sq, hd.inflight, hd.cq]
  rw [← hsame]
  exact State.pending_cq hq

/-- A completion on whose result code the handler does nothing is only taken off the queue. -/
lemma DispatchMove.eq_of_ignored (hd : DispatchMove s q cq t) {e : Event}
    (he : s.events q.entry.userData = some e) (hr : e.handler.opcode.resumes q.res = false) :
    t = { s with cq := cq } := by
  -- every other branch calls a handler that acts
  have hno {x : Event} (hx : s.events q.entry.userData = some x)
      (hr' : x.handler.opcode.resumes q.res = true) : False := by
    obtain rfl : e = x := Option.some.inj (he.symm.trans hx)
    rw [hr] at hr'
    cases hr'
  cases hd with
  | deadEvent he' =>
    rw [he] at he'
    cases he'
  | ignored he' hr' => rfl
  | badResume he' hr' hc' => exact (hno he' hr').elim
  | resumedTask he' hr' hc' ht => exact (hno he' hr').elim
  | resumed he' hr' hc' hw hb => exact (hno he' hr').elim

namespace WellFormed

/-- The event of a completion whose await is still suspended. -/
lemma event_of_head (h : WellFormed s) (hq : s.cq = q :: cq) {c : CoroId} {a : Addr}
    (hc : s.status c = .atEvent a q.entry.request.ticket) :
    q.entry.userData = a ∧ ∃ e, s.events q.entry.userData = some e ∧ e.coroutine = some c ∧
      e.handler.opcode = q.entry.request.opcode := by
  obtain ⟨rfl, e, he, hco, hop⟩ := h.event_of_pending hc (State.head_mem_pending hq)
  exact ⟨rfl, e, he, hco, hop⟩

/-- The completion of a cancel finds the event of `close`, which ignores it. -/
lemma cancel_ignored (h : WellFormed s) (hq : s.cq = q :: cq)
    (ho : q.entry.request.opcode = .cancelFd) :
    ∃ e, s.events q.entry.userData = some e ∧ e.handler = .onClose ∧ e.coroutine = none := by
  obtain ⟨e, he, hh, hno⟩ := h.close_event
  rw [← (h.cancel _ (State.head_mem_pending hq)).mp ho] at he
  exact ⟨e, he, hh, hno⟩

/-- If the handler does nothing on the result code, the await stays suspended. -/
lemma dispatch_ignored (h : WellFormed s) (hd : DispatchMove s q cq t) (hq : s.cq = q :: cq)
    {c : CoroId} {a : Addr} (hc : s.status c = .atEvent a q.entry.request.ticket)
    (hr : q.entry.request.opcode.resumes q.res = false) : t = { s with cq := cq } := by
  obtain ⟨-, e, he, -, hop⟩ := h.event_of_head hq hc
  rw [← hop] at hr
  exact hd.eq_of_ignored he hr

end WellFormed

/-- What a dispatch that ends the await of `c` does: `c` alone runs, and its `co_await`
returns what the result code says. -/
structure Woken (s t : State) (q : Cqe) (c : CoroId) : Prop where
  stack : t.stack = [c]
  running : t.status c = .running
  others : ∀ d, d ≠ c → t.status d = s.status d
  returns : t.returns = s.returns ++
    [⟨q.entry.request.ticket, q, q.entry.request.opcode.outcome q.res⟩]
  fault : t.fault = s.fault

/-- A completion on whose result code the handler acts ends its await. -/
theorem WellFormed.dispatch_woken (h : WellFormed s) (hd : DispatchMove s q cq t)
    (hq : s.cq = q :: cq) {c : CoroId} {a : Addr}
    (hc : s.status c = .atEvent a q.entry.request.ticket)
    (hr : q.entry.request.opcode.resumes q.res = true) : Woken s t q c := by
  -- the event is alive and holds `c`, which rules out every branch but the last
  obtain ⟨rfl, e, he, hco, hop⟩ := h.event_of_head hq hc
  cases hd with
  | deadEvent he' =>
    rw [he] at he'
    cases he'
  | ignored he' hr' =>
    obtain rfl := Option.some.inj (he.symm.trans he')
    rw [hop, hr] at hr'
    cases hr'
  | badResume he' hr' hc' =>
    obtain rfl := Option.some.inj (he.symm.trans he')
    have hdead := (hc' c hco).2 _ _ hc
    rw [he] at hdead
    cases hdead
  | resumedTask he' hr' hc' ht =>
    obtain rfl := Option.some.inj (he.symm.trans he')
    obtain rfl := Option.some.inj (hco.symm.trans hc')
    rw [hc] at ht
    cases ht
  | @resumed e' eb c' b w he' hr' hc' hw hb =>
    obtain rfl := Option.some.inj (he.symm.trans he')
    obtain rfl := Option.some.inj (hco.symm.trans hc')
    -- the coroutine is at the event the handler was called on
    obtain ⟨rfl, rfl⟩ : _ = b ∧ _ = w := by simpa [hc] using hw
    obtain rfl : _ = eb := by simpa using hb
    refine ⟨rfl, State.setStatus_self .., fun d hd => State.setStatus_of_ne hd, ?_, rfl⟩
    rw [← hop] at hr ⊢
    rw [← awaitResume_call hr]
    rfl

end

end Zsl.Iouring
