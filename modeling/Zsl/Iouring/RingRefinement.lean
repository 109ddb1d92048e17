import Zsl.Iouring.RingRuntime
import Zsl.Iouring.SingleShot
import Zsl.Lib.Refinement

/-!
# The ring implements the completion queue

* `State.withCq`: what the code does to a state, it does whatever the completion queue is;
* `QueueOf`: the queue that a ring and the locals of the loop stand for;
* `ring_refines_runtime`: the runtime over a ring is the runtime.
-/

namespace Zsl.Iouring

/-! ## The completion queue of a state -/

namespace State

/-- The state with another completion queue. -/
def withCq (s : State) (cq : List Cqe) : State := { s with cq := cq }

variable (s : State) (cq : List Cqe)

lemma withCq_setEvent (a : Addr) (e : Option Event) :
    (s.withCq cq).setEvent a e = (s.setEvent a e).withCq cq := rfl

lemma withCq_resume (coroutine : Option CoroId) (q : Cqe) :
    (s.withCq cq).resume coroutine q = (s.resume coroutine q).withCq cq := by
  cases coroutine with
  | none => rfl
  | some c =>
    unfold resume
    dsimp only
    rw [show (s.withCq cq).status c = s.status c from rfl]
    cases s.status c with
    | atEvent b w =>
      dsimp only
      rw [show (s.withCq cq).events b = s.events b from rfl]
      cases s.events b <;> rfl
    | _ => rfl

lemma withCq_handle (q : Cqe) : (s.withCq cq).handle q = (s.handle q).withCq cq := by
  unfold handle
  rw [show (s.withCq cq).events q.entry.userData = s.events q.entry.userData from rfl]
  cases s.events q.entry.userData with
  | none => rfl
  | some e =>
    dsimp only
    split
    · exact withCq_resume (s.setEvent q.entry.userData (some (e.handler.call q.res e).1)) cq _ q
    · rfl

lemma withCq_request (a : Addr) (o : Opcode) (r : ℤ) :
    (s.withCq cq).request a o r = (s.request a o r).map fun t => (t.1.withCq cq, t.2) := by
  unfold request
  rw [Option.map_map]
  rfl

lemma withCq_awaitSuspend (c : CoroId) (a : Addr) (e : Event) (r : ℤ) :
    (s.withCq cq).awaitSuspend c a e r = (s.awaitSuspend c a e r).withCq cq := by
  unfold awaitSuspend
  rw [withCq_setEvent, withCq_request]
  cases (s.setEvent a (some { e with coroutine := some c })).request a e.handler.opcode r with
  | none => rfl
  | some t =>
    obtain ⟨t, thrown⟩ := t
    cases thrown <;> rfl

lemma withCq_close (r : ℤ) : (s.withCq cq).close r = (s.close r).withCq cq := by
  unfold close
  rw [withCq_request]
  cases s.request closeEvent .cancelFd r <;> rfl

lemma withCq_taskAwaitSuspend (c t : CoroId) :
    (s.withCq cq).taskAwaitSuspend c t = (s.taskAwaitSuspend c t).withCq cq := by
  unfold taskAwaitSuspend
  show (if s.status t = .finished then _ else _) = _
  split <;> rfl

end State

/-- The coroutines do not look at the completion queue. -/
lemma step_withCq {act : Action} (hact : act.ofProgram = true) (s : State) (cq : List Cqe) :
    step (s.withCq cq) act = (step s act).map fun t => t.withCq cq := by
  unfold step
  show (if s.fault.isSome then _ else _) = _
  split
  · rfl
  · cases act with
    | start => rfl
    | create a h =>
      dsimp only
      show (if s.events a = none ∧ h ≠ .onClose then _ else _) = _
      split <;> rfl
    | destroy a =>
      dsimp only
      show (if a ≠ closeEvent ∧ s.awaited a = false then _ else _) = _
      split <;> rfl
    | awaitEvent a r =>
      dsimp only
      rw [show (s.withCq cq).stack = s.stack from rfl,
        show (s.withCq cq).events a = s.events a from rfl]
      cases s.stack.head? with
      | none => rfl
      | some c =>
        cases s.events a with
        | none => rfl
        | some e =>
          dsimp only
          show (if a ≠ closeEvent ∧ s.awaited a = false ∧ r ≤ s.sq.length + 1 then _ else _) = _
          split
          · rw [State.withCq_awaitSuspend]
            rfl
          · rfl
    | awaitTask t =>
      dsimp only
      rw [show (s.withCq cq).stack = s.stack from rfl]
      cases s.stack.head? with
      | none => rfl
      | some c =>
        dsimp only
        show (if t < s.born ∧ s.continuation t = none then _ else _) = _
        split
        · rw [State.withCq_taskAwaitSuspend]
          rfl
        · rfl
    | close r =>
      dsimp only
      show (if r ≤ s.sq.length + 1 then _ else _) = _
      split
      · rw [State.withCq_close]
        rfl
      · rfl
    | finish =>
      dsimp only
      show Option.map _ s.stack.head? = _
      cases s.stack.head? <;> rfl
    | post => cases hact
    | dispatch => cases hact

lemma step_post {s : State} {i : ℕ} {e : Sqe Request} {res : ℤ} {more : Bool}
    (hfault : s.fault = none) (he : s.inflight[i]? = some e)
    (hmore : more = true → e.request.opcode = .multishotAccept) :
    step s (.post i res more) = some { s with
      inflight := if more then s.inflight else s.inflight.eraseIdx i
      cq := s.cq ++ [⟨e, res, more⟩] } := by
  unfold step
  rw [if_neg (by simp [hfault])]
  dsimp only
  rw [he]
  exact if_pos hmore

lemma step_dispatch {s : State} {q : Cqe} {cq : List Cqe} (hfault : s.fault = none)
    (hstack : s.stack = []) (hq : s.cq = q :: cq) :
    step s .dispatch = some ((s.withCq cq).handle q) := by
  cases s
  dsimp only at hfault hstack hq
  subst hfault hstack hq
  rfl

/-! ## The queue of a ring -/

section Ring
variable {m : Fin 32} {c c' : RingState m} {s : State}

/-- The loop has handled `k` entries, and read a tail behind them. -/
structure DrainLoop.Walked (f : DrainLoop) (n k posted : ℕ) : Prop where
  head : f.head = UInt32.ofNat (n + k)
  completions : f.completions = UInt32.ofNat k
  tail : ∃ j, f.tail = UInt32.ofNat j ∧ n + k ≤ j ∧ j ≤ posted

/-- How far into the ring the loop is. -/
def LoopAt (loop : Option DrainLoop) (n k posted : ℕ) : Prop :=
  match loop with
  | none => k = 0
  | some f => f.Walked n k posted

/-- Of all entries posted, `n` were given back to the kernel and `k` more were handled, and
the others are the completion queue. -/
structure QueueOf (c : RingState m) (s : State) (posted : List Cqe) (n k : ℕ) : Prop where
  ring : c.ring.Represents posted n
  le : n + k ≤ posted.length
  loop : LoopAt c.loop n k posted.length
  state : s = c.base.withCq (posted.drop (n + k))

/-- The state of the runtime that a ring stands for. -/
def Implements (c : RingState m) (s : State) : Prop := ∃ posted n k, QueueOf c s posted n k

lemma LoopAt.mono {loop : Option DrainLoop} {n k posted posted' : ℕ}
    (h : LoopAt loop n k posted) (hle : posted ≤ posted') : LoopAt loop n k posted' := by
  cases loop with
  | none => exact h
  | some f =>
    obtain ⟨j, hj, hkj, hle'⟩ := h.tail
    exact ⟨h.head, h.completions, j, hj, hkj, Nat.le_trans hle' hle⟩

namespace QueueOf
variable {posted : List Cqe} {n k : ℕ}

lemma program (h : QueueOf c s posted n k) {act : Action} (hact : act.ofProgram = true)
    {t : State} (ht : Iouring.step c.base act = some t) :
    ∃ s', step s act = some s' ∧ QueueOf { c with base := t } s' posted n k := by
  refine ⟨t.withCq (posted.drop (n + k)), ?_, h.ring, h.le, h.loop, rfl⟩
  rw [h.state, step_withCq hact, ht]
  rfl

lemma post (h : QueueOf c s posted n k) (hroom : c.ring.hasRoom = true) (q : Cqe)
    (inflight : List (Sqe Request)) :
    QueueOf { c with base := { c.base with inflight := inflight }, ring := c.ring.push q }
      { s with inflight := inflight, cq := s.cq ++ [q] } (posted ++ [q]) n k where
  ring := h.ring.push hroom q
  le := by
    rw [List.length_append]
    exact Nat.le_add_right_of_le h.le
  loop := by
    apply LoopAt.mono h.loop
    rw [List.length_append]
    exact Nat.le_add_right _ _
  state := by
    rw [h.state, List.drop_append_of_le_length h.le]
    rfl

lemma waitForEvents (h : QueueOf c s posted n k) (hloop : c.loop = none) :
    QueueOf { c with loop := some ⟨c.ring.head, 0, c.ring.tail⟩ } s posted n k := by
  have hk : k = 0 := by
    have hk := h.loop
    rwa [hloop] at hk
  subst hk
  exact ⟨h.ring, h.le, ⟨h.ring.head, rfl, posted.length, h.ring.tail, h.ring.le, le_rfl⟩, h.state⟩

lemma walked (h : QueueOf c s posted n k) {f : DrainLoop} (hloop : c.loop = some f) :
    f.Walked n k posted.length := by
  have hf := h.loop
  rwa [hloop] at hf

lemma reload (h : QueueOf c s posted n k) {f : DrainLoop} (hloop : c.loop = some f) :
    QueueOf { c with loop := some { f with tail := c.ring.tail } } s posted n k := by
  have hf := h.walked hloop
  exact ⟨h.ring, h.le, ⟨hf.head, hf.completions, posted.length, h.ring.tail, h.le, le_rfl⟩,
    h.state⟩

/-- Before the tail, the loop has an entry to take: the counters differ, so the counts do. -/
lemma lt_tail (h : QueueOf c s posted n k) {f : DrainLoop} (hloop : c.loop = some f)
    (hne : f.head ≠ f.tail) : ∃ j, f.tail = UInt32.ofNat j ∧ n + k < j ∧ j ≤ posted.length := by
  have hf := h.walked hloop
  obtain ⟨j, hj, hkj, hjle⟩ := hf.tail
  refine ⟨j, hj, Nat.lt_of_le_of_ne hkj fun heq => hne ?_, hjle⟩
  rw [hf.head, hj]
  exact congrArg UInt32.ofNat heq

/-- The entry the loop takes next is at the front of the queue. -/
lemma get_head (h : QueueOf c s posted n k) {f : DrainLoop} (hloop : c.loop = some f)
    (hne : f.head ≠ f.tail) :
    ∃ hlt : n + k < posted.length, c.ring.get f.head = posted[n + k] := by
  obtain ⟨j, -, hlt, hjle⟩ := h.lt_tail hloop hne
  refine ⟨Nat.lt_of_lt_of_le hlt hjle, ?_⟩
  rw [(h.walked hloop).head]
  exact h.ring.get_ofNat (Nat.le_add_right n k) (Nat.lt_of_lt_of_le hlt hjle)

lemma walk (h : QueueOf c s posted n k) {f : DrainLoop} (hloop : c.loop = some f)
    (hfault : c.base.fault = none) (hstack : c.base.stack = []) (hne : f.head ≠ f.tail) :
    ∃ s', step s .dispatch = some s' ∧
      QueueOf { c with base := c.base.handle (c.ring.get f.head), loop := some f.next } s' posted
        n (k + 1) := by
  obtain ⟨hlt, hget⟩ := h.get_head hloop hne
  have hf := h.walked hloop
  obtain ⟨j, hj, hkj, hjle⟩ := h.lt_tail hloop hne
  refine ⟨(c.base.handle (c.ring.get f.head)).withCq (posted.drop (n + (k + 1))), ?_, h.ring,
    hlt, ⟨?_, ?_, j, hj, hkj, hjle⟩, rfl⟩
  · have hdrop : s.cq = c.ring.get f.head :: posted.drop (n + (k + 1)) := by
      rw [h.state, hget]
      exact List.drop_eq_getElem_cons hlt
    rw [step_dispatch (by rw [h.state]; exact hfault) (by rw [h.state]; exact hstack) hdrop,
      h.state]
    exact congrArg some (State.withCq_handle c.base _ _)
  · show f.head + 1 = UInt32.ofNat (n + (k + 1))
    rw [hf.head]
    exact (UInt32.ofNat_add (n + k) 1).symm
  · show f.completions + 1 = UInt32.ofNat (k + 1)
    rw [hf.completions]
    exact (UInt32.ofNat_add k 1).symm

/-- `io_uring_cq_advance` gives back what the loop has handled, however often the counters have
wrapped. -/
lemma leave (h : QueueOf c s posted n k) {f : DrainLoop} (hloop : c.loop = some f) :
    QueueOf (c.leave f) s posted (n + k) 0 := by
  have hf := h.walked hloop
  refine ⟨?_, h.le, rfl, h.state⟩
  unfold RingState.leave
  dsimp only
  split
  · rw [hf.completions]
    exact h.ring.advance h.le
  · next hzero =>
    -- fewer completions than the counter has values, so none
    have hk : k = 0 := by
      have hcount : UInt32.ofNat 0 = UInt32.ofNat k := by
        rw [← hf.completions]
        exact (not_not.mp hzero).symm
      have hlt := h.ring.length_lt
      have hle := h.le
      exact ((Lib.RingBuffer.ofNat_inj (Nat.zero_le k) (by omega)).mp hcount).symm
    rw [hk]
    exact h.ring

end QueueOf

/-- The action of the runtime that an action on the ring stands for. -/
def RingRuntimeAction.label : RingRuntimeAction → Option Action
  | .program act => some act
  | .post i res more => some (.post i res more)
  | .walk => some .dispatch
  | _ => none

lemma implements_program (h : Implements c s) {act : Action}
    (hstep : ringRuntimeStep c (.program act) = some c') :
    ∃ s', step s act = some s' ∧ Implements c' s' := by
  obtain ⟨posted, n, k, hq⟩ := h
  obtain ⟨⟨hact, -⟩, hstep⟩ := Option.ite_none_right_eq_some.mp hstep
  obtain ⟨t, ht, rfl⟩ := Option.map_eq_some_iff.mp hstep
  obtain ⟨s', hs', hq'⟩ := hq.program hact ht
  exact ⟨s', hs', posted, n, k, hq'⟩

lemma implements_post (h : Implements c s) {i : ℕ} {res : ℤ} {more : Bool}
    (hstep : ringRuntimeStep c (.post i res more) = some c') :
    ∃ s', step s (.post i res more) = some s' ∧ Implements c' s' := by
  obtain ⟨posted, n, k, hq⟩ := h
  unfold ringRuntimeStep at hstep
  dsimp only at hstep
  split at hstep
  · next e he =>
    obtain ⟨⟨hfault, hmore, hroom⟩, hstep⟩ := Option.ite_none_right_eq_some.mp hstep
    obtain rfl := Option.some.inj hstep
    have hstate := hq.state
    subst hstate
    exact ⟨_, step_post hfault he hmore, _, n, k, hq.post hroom ⟨e, res, more⟩ _⟩
  · cases hstep

lemma implements_walk (h : Implements c s) (hstep : ringRuntimeStep c .walk = some c') :
    ∃ s', step s .dispatch = some s' ∧ Implements c' s' := by
  obtain ⟨posted, n, k, hq⟩ := h
  unfold ringRuntimeStep at hstep
  dsimp only at hstep
  split at hstep
  · next f hloop =>
    obtain ⟨⟨hfault, hstack, hne⟩, hstep⟩ := Option.ite_none_right_eq_some.mp hstep
    obtain rfl := Option.some.inj hstep
    obtain ⟨s', hs', hq'⟩ := hq.walk hloop hfault hstack hne
    exact ⟨s', hs', posted, n, k + 1, hq'⟩
  · cases hstep

/-- What the loop does besides calling handlers changes nothing for the coroutines. -/
lemma implements_stutter (h : Implements c s) {act : RingRuntimeAction} (hlabel : act.label = none)
    (hstep : ringRuntimeStep c act = some c') : Implements c' s := by
  obtain ⟨posted, n, k, hq⟩ := h
  unfold ringRuntimeStep at hstep
  cases act with
  | waitForEvents =>
    obtain ⟨⟨-, hloop⟩, hstep⟩ := Option.ite_none_right_eq_some.mp hstep
    obtain rfl := Option.some.inj hstep
    exact ⟨posted, n, k, hq.waitForEvents hloop⟩
  | reload =>
    dsimp only at hstep
    split at hstep
    · next f hloop =>
      obtain ⟨-, hstep⟩ := Option.ite_none_right_eq_some.mp hstep
      obtain rfl := Option.some.inj hstep
      exact ⟨posted, n, k, hq.reload hloop⟩
    · cases hstep
  | leave =>
    dsimp only at hstep
    split at hstep
    · next f hloop =>
      obtain ⟨-, hstep⟩ := Option.ite_none_right_eq_some.mp hstep
      obtain rfl := Option.some.inj hstep
      exact ⟨posted, n + k, 0, hq.leave hloop⟩
    · cases hstep
  | _ => cases hlabel

lemma implements_refines (m : Fin 32) :
    (ringRuntime m).Refines runtime Implements RingRuntimeAction.label where
  start := ⟨[], 0, 0, .empty, le_rfl, rfl, rfl⟩
  stutter c s act c' h hlabel hstep := implements_stutter h hlabel hstep
  step c s act b c' h hlabel hstep := by
    cases act with
    | program act =>
      obtain rfl := Option.some.inj hlabel
      exact implements_program h hstep
    | post i res more =>
      obtain rfl := Option.some.inj hlabel
      exact implements_post h hstep
    | walk =>
      obtain rfl := Option.some.inj hlabel
      exact implements_walk h hstep
    | _ => cases hlabel

/-- Every run over a ring, whatever its size and however often its counters wrap, is a run of the
runtime: its coroutines, events and requests are those of the run that takes each completion
off the queue as it is handled. -/
theorem ring_refines_runtime (m : Fin 32) (acts : List RingRuntimeAction) (c : RingState m)
    (h : (ringRuntime m).run (ringRuntime m).start acts = some c) :
    ∃ s posted n k, runtime.run runtime.start (acts.filterMap RingRuntimeAction.label) = some s ∧
      QueueOf c s posted n k := by
  obtain ⟨s, hs, posted, n, k, hq⟩ := (implements_refines m).run h
  exact ⟨s, posted, n, k, hs, hq⟩

theorem ring_refines_runtime_timer :
    ∃ (c : RingState 1) (s : State) (posted : List Cqe) (n k : ℕ),
      runtime.run runtime.start [.start, .create 1 .onTimeout, .awaitEvent 1 1,
        .post 0 (-62) false, .dispatch, .finish] = some s ∧ QueueOf c s posted n k :=
  ⟨_, ring_refines_runtime 1 [.program .start, .program (.create 1 .onTimeout),
    .program (.awaitEvent 1 1), .post 0 (-62) false, .waitForEvents, .walk, .program .finish,
    .leave] _ rfl⟩

/-! ## Single-shot requests over a ring -/

/-- `SingleShot` of the action an action on the ring stands for. -/
def RingSingleShot (c : RingState m) (act : RingRuntimeAction) : Prop :=
  match act.label with
  | some b => SingleShot c.base b
  | none => True

instance (c : RingState m) (act : RingRuntimeAction) : Decidable (RingSingleShot c act) := by
  unfold RingSingleShot
  cases act.label <;> infer_instance

lemma implements_singleShot (m : Fin 32) :
    ((ringRuntime m).restrict RingSingleShot).Refines singleShot Implements
      RingRuntimeAction.label := by
  apply (implements_refines m).restrict
  intro c s act b h hlabel hP
  obtain ⟨posted, n, k, hq⟩ := h
  have hP : SingleShot c.base b := by
    unfold RingSingleShot at hP
    rwa [hlabel] at hP
  rw [hq.state]
  cases b <;> exact hP

/-- Over a ring as well, a round of the loop resumes nobody but the coroutine suspended at the
await of the entry it handles, and each value returned comes from the await's own entry. -/
theorem ring_single_shot_safe (m : Fin 32) (acts : List RingRuntimeAction) :
    ((ringRuntime m).restrict RingSingleShot).Steps
      (fun c act c' => act = .walk → c'.base.fault = none ∧
        (∀ f d, c.loop = some f → c'.base.status d ≠ c.base.status d →
          c.base.status d = .atEvent (c.ring.get f.head).entry.userData
            (c.ring.get f.head).entry.request.ticket ∧ c'.base.status d = .running) ∧
        ∀ r ∈ c'.base.returns, r.cqe.entry.request.ticket = r.ticket ∧
          r.value = r.cqe.entry.request.opcode.outcome r.cqe.res)
      (ringRuntime m).start acts := by
  have hsafe (acts : List Action) : singleShot.Steps DispatchSafe singleShot.start acts :=
    Lib.System.steps_of_inductive SingleShotInv (fun s act t hs hst => hs.safe_step hst) .start
      acts
  apply ((implements_singleShot m).steps hsafe acts).imp
  intro c act c' h hact
  subst hact
  obtain ⟨s, s', ⟨posted, n, k, hq⟩, ⟨posted', n', k', hq'⟩, hstep, hd⟩ := h .dispatch rfl
  obtain ⟨-, hstep⟩ := Lib.System.restrict_step.mp hstep
  have hfault := hd.no_fault
  have hreturns := hd.returns
  have hresumes := hd.resumes rfl
  rw [hq'.state] at hfault hreturns hresumes
  refine ⟨hfault, fun f d hloop hne => ?_, hreturns⟩
  -- the entry at the head of the loop is the completion the runtime dispatches
  have hhead : f.head ≠ f.tail := by
    unfold ringRuntime ringRuntimeStep at hstep
    dsimp only at hstep
    rw [hloop] at hstep
    exact (Option.ite_none_right_eq_some.mp hstep).1.2.2
  obtain ⟨hlt, hget⟩ := hq.get_head hloop hhead
  rw [hq.state] at hresumes
  rw [hget]
  exact hresumes _ _ d (List.drop_eq_getElem_cons hlt) hne

end Ring

end Zsl.Iouring
