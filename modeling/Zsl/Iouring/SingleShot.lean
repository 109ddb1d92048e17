import Zsl.Iouring.Delivery

/-!
# Single-shot requests

* `singleShot`: the runtime without accepts, with submits that do not fail and with awaits
  of tasks that still run;
* `DispatchSafe`: requests and suspended coroutines are one to one, a dispatch resumes at
  most the coroutine suspended at the await of its own request, and every value returned
  comes from the await's own completion;
* `single_shot_dispatch_safe`: every step of `singleShot` is safe.
-/

namespace Zsl.Iouring

/-- Timers, connects, sends, receives and closes, whose submits do not fail. -/
def SingleShot (s : State) : Action → Prop
  | .create _ h => h ≠ .onAccept
  | .awaitEvent _ r => 0 < r
  | .close r => 0 < r
  | .awaitTask t => s.status t ≠ .finished
  | _ => True

instance (s : State) (act : Action) : Decidable (SingleShot s act) := by
  cases act <;> unfold SingleShot <;> infer_instance

/-- The runtime under `SingleShot`. -/
def singleShot : Lib.System State Action := runtime.restrict SingleShot

/-- The requests of awaits, not yet dispatched. -/
def State.awaits (s : State) : List (Sqe Request) :=
  s.pending.filter fun e => e.request.opcode ≠ .cancelFd

/-- The coroutine recorded in the event of a request. -/
def State.recorded (s : State) (e : Sqe Request) : Option CoroId :=
  (s.events e.userData).bind Event.coroutine

structure DispatchSafe (s : State) (act : Action) (t : State) : Prop where
  /-- the recorded coroutine is suspended at exactly that await -/
  suspended : ∀ e ∈ t.awaits, ∃ c, t.recorded e = some c ∧
    t.status c = .atEvent e.userData e.request.ticket
  /-- no two requests record the same coroutine -/
  distinct : (t.awaits.map t.recorded).Nodup
  /-- the completion of a cancel resumes nobody -/
  close : act = .dispatch → ∀ q cq, s.cq = q :: cq → q.entry.request.opcode = .cancelFd →
    t = { s with cq := cq }
  /-- nobody running, finished or suspended elsewhere is resumed -/
  resumes : act = .dispatch → ∀ q cq c, s.cq = q :: cq → t.status c ≠ s.status c →
    s.status c = .atEvent q.entry.userData q.entry.request.ticket ∧ t.status c = .running
  /-- a value is computed from the await's own completion -/
  returns : ∀ r ∈ t.returns, r.cqe.entry.request.ticket = r.ticket ∧
    r.value = r.cqe.entry.request.opcode.outcome r.cqe.res
  no_fault : t.fault = none

/-- What holds of every state of `singleShot`. -/
structure SingleShotInv (s : State) : Prop where
  linked : Linked s
  sq : s.sq = []
  failed : s.failed = []
  handler : ∀ a e, s.events a = some e → e.handler ≠ .onAccept
  opcode : ∀ e ∈ s.pending, e.request.opcode ≠ .multishotAccept
  no_fault : s.fault = none

namespace SingleShotInv
variable {s t : State}

protected lemma start : SingleShotInv State.start where
  linked := Linked.start
  sq := rfl
  failed := rfl
  handler := by
    intro a e he
    simp only [State.start] at he
    split at he
    · obtain rfl := Option.some.inj he
      simp [Event.mk']
    · cases he
  opcode := by simp [State.start, State.pending]
  no_fault := rfl

/-- Every completion is deliverable. -/
lemma deliverable (h : SingleShotInv s) {q : Cqe} {cq : List Cqe} (hq : s.cq = q :: cq) :
    Deliverable s q := by
  rw [Deliverable, if_neg (h.opcode _ (State.head_mem_pending hq)), h.failed]
  exact fun hf => absurd hf List.not_mem_nil

lemma deliverySafe (h : SingleShotInv s) (act : Action) : DeliverySafe s act t :=
  fun _ _ _ hq => h.deliverable hq

/-- The event and the coroutine of a pending request. -/
lemma event (h : SingleShotInv s) {e : Sqe Request} (he : e ∈ s.awaits) :
    ∃ c, s.recorded e = some c ∧ s.status c = .atEvent e.userData e.request.ticket := by
  obtain ⟨hmem, ho⟩ := List.mem_filter.mp he
  have hun := h.linked.unanswered e hmem (h.opcode e hmem)
  obtain ⟨ev, c, hev, hco, -, hc⟩ := h.linked.event hmem (of_decide_eq_true ho)
    (by simp [h.failed]) hun
  exact ⟨c, by rw [State.recorded, hev, Option.bind_some, hco], hc⟩

/-- Distinct requests record distinct coroutines. -/
lemma recorded_nodup (h : SingleShotInv s) : (s.awaits.map s.recorded).Nodup := by
  have hnodup : s.pending.Nodup := by
    -- without accepts every pending request completes once
    have hall : s.singleShots = s.pending :=
      List.filter_eq_self.mpr fun e he => by simpa using h.opcode e he
    rw [← hall]
    exact h.linked.wellFormed.single
  apply (hnodup.filter _).map_on
  intro e he x hx hex
  obtain ⟨c, hec, hc⟩ := h.event he
  obtain ⟨d, hxd, hd⟩ := h.event hx
  obtain rfl : c = d := Option.some.inj (hec.symm.trans (hex.trans hxd))
  have hw := (Status.atEvent.inj (hc.symm.trans hd)).2
  exact h.linked.wellFormed.pending_inj _ (List.mem_of_mem_filter he) _
    (List.mem_of_mem_filter hx) hw

/-- A successful submit leaves nothing in an otherwise empty queue. -/
lemma left_nil (h : SingleShotInv s) {r : ℤ} (hr : 0 < r) (x : Sqe Request) :
    (submit (s.sq ++ [x]) r).left = [] := by
  -- the queue was empty, so one entry is all there is to take
  have hlen : (s.sq ++ [x]).length ≤ r.toNat := by
    rw [h.sq, List.nil_append, List.length_singleton]
    omega
  exact List.drop_of_length_le hlen

lemma free (h : SingleShotInv s) : hasFreeSqe s.sq = true := by
  rw [h.sq]
  rfl

lemma handler_setEvent (h : SingleShotInv s) {a : Addr} {x : Option Event}
    (hx : ∀ e, x = some e → e.handler ≠ .onAccept) (b : Addr) (e : Event)
    (he : (s.setEvent a x).events b = some e) : e.handler ≠ .onAccept := by
  by_cases hba : b = a
  · subst hba
    exact hx e (by simpa using he)
  · rw [State.setEvent_of_ne hba] at he
    exact h.handler b e he

lemma opcode_ne {e : Event} (he : e.handler ≠ .onAccept) :
    e.handler.opcode ≠ .multishotAccept :=
  fun ho => he (onAccept_of_opcode ho)

lemma dispatch (h : SingleShotInv s) (hl : Linked t) (hfault : t.fault = none) {q : Cqe}
    {cq : List Cqe} (hq : s.cq = q :: cq) (hd : Dispatched s t cq) : SingleShotInv t := by
  refine ⟨hl, hd.sq.trans h.sq, hd.failed.trans h.failed, fun a e he => ?_, fun e he => ?_,
    hfault⟩
  · -- handlers write results only
    obtain ⟨e', he', hlink⟩ : ∃ e', s.events a = some e' ∧ e'.link = e.link := by
      simpa [he] using (hd.events a).symm
    rw [← (Prod.mk.inj hlink).1]
    exact h.handler a e' he'
  · exact h.opcode e ((hd.pending hq).mem_iff.mpr (List.mem_cons_of_mem _ he))

/-- Every step of `singleShot` keeps the invariant. -/
theorem step (h : SingleShotInv s) {act : Action} (hu : SingleShot s act)
    (hst : step s act = some t) : SingleShotInv t := by
  have hl := h.linked.step hst (h.deliverySafe act)
  have hm := step_move hst
  cases hm with
  | @dispatch q cq t hs hq hd =>
    have hfault := (h.linked.delivered hst hq (h.deliverable hq)).no_fault
    exact h.dispatch hl hfault hq hd.dispatched
  | start | finish | taskSuspended => exact { h with linked := hl }
  | create free hh =>
    refine { h with linked := hl, handler := h.handler_setEvent ?_ }
    intro e he
    obtain rfl := Option.some.inj he
    exact hu
  | destroy ha hw =>
    exact { h with linked := hl, handler := h.handler_setEvent (by simp) }
  | awaitNull hc he full =>
    rw [h.free] at full
    cases full
  | closeNull full =>
    rw [h.free] at full
    cases full
  | awaitFailed hc he ha hw free hr => exact absurd hu (by simpa [SingleShot] using hr)
  | taskDead hc ht => exact absurd ht hu
  | awaitSuspended hc he ha hw free hr hle =>
    have hh := h.handler _ _ he
    refine { h with linked := hl, sq := h.left_nil hr _, handler := h.handler_setEvent ?_
                    opcode := fun x hx => ?_ }
    · intro e' he'
      obtain rfl := Option.some.inj he'
      exact hh
    · rcases State.mem_pending_enqueue.mp hx with rfl | hx
      · exact opcode_ne hh
      · exact h.opcode x hx
  | closed free hle =>
    refine { h with linked := hl, sq := h.left_nil hu _, opcode := fun x hx => ?_ }
    rcases State.mem_pending_enqueue.mp hx with rfl | hx
    · simp
    · exact h.opcode x hx
  | postFinal he =>
    exact { h with
      linked := hl
      opcode := fun x hx => h.opcode x ((State.pending_postFinal _ he).mem_iff.mp hx) }
  | postMore he ho =>
    exact absurd ho (h.opcode _ (State.mem_pending_of_inflight he))

lemma dispatchSafe (h : SingleShotInv s) {act : Action} (hst : Iouring.step s act = some t)
    (ht : SingleShotInv t) : DispatchSafe s act t where
  suspended _ he := ht.event he
  distinct := ht.recorded_nodup
  close hact q cq hq ho := by
    subst hact
    obtain ⟨e, he, hh, -⟩ := h.linked.wellFormed.cancel_ignored hq ho
    exact ((step_move hst).dispatchMove hq).eq_of_ignored he (by rw [hh]; rfl)
  resumes hact q cq c hq hc := by
    subst hact
    have hd := ((step_move hst).dispatchMove hq).dispatched
    refine ⟨(h.linked.delivered hst hq (h.deliverable hq)).resumes c hc, ?_⟩
    exact (hd.status c).resolve_left hc
  returns := ht.linked.own
  no_fault := ht.no_fault

/-- A step of `singleShot` is safe, and keeps the invariant. -/
lemma safe_step (h : SingleShotInv s) {act : Action} (hst : singleShot.step s act = some t) :
    DispatchSafe s act t ∧ SingleShotInv t := by
  obtain ⟨hu, hst⟩ := Lib.System.restrict_step.mp hst
  have ht := h.step hu hst
  exact ⟨h.dispatchSafe hst ht, ht⟩

end SingleShotInv

/-- On a single thread, with submits that succeed, dispatching timers, connects, sends,
receives and the cancels of closed sockets is safe, in every run. -/
theorem single_shot_dispatch_safe (acts : List Action) :
    singleShot.Steps DispatchSafe singleShot.start acts := by
  refine Lib.System.steps_of_inductive SingleShotInv ?_ SingleShotInv.start acts
  intro s act t hs hst
  exact hs.safe_step hst

end Zsl.Iouring
