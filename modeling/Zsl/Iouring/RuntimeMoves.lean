import Zsl.Iouring.Runtime
import Mathlib.Data.List.Nodup
import Mathlib.Data.List.Perm.Basic

/-!
# The moves of the runtime

* `Move` and `DispatchMove`: what a step, and the handler of a completion, can do, one
  constructor for each branch of the code;
* `step_move`: every step is a move, so that an invariant is proved without unfolding `step`;
* `State.pending`: the requests not yet dispatched, and how each move changes them.
-/

namespace Zsl.Iouring

namespace State

/-- The entry of the next request. -/
abbrev entry (s : State) (a : Addr) (o : Opcode) : Sqe Request := ⟨⟨o, s.prepared⟩, a⟩

/-- `request` with a free entry: the entry joins the queue, and the submit takes what it
takes. -/
def enqueue (s : State) (a : Addr) (o : Opcode) (r : ℤ) : State :=
  { s with
    prepared := s.prepared + 1
    sq := (submit (s.sq ++ [s.entry a o]) r).left
    inflight := s.inflight ++ (submit (s.sq ++ [s.entry a o]) r).taken }

lemma request_eq_none {s : State} {a : Addr} {o : Opcode} {r : ℤ} :
    s.request a o r = none ↔ hasFreeSqe s.sq = false := by
  rw [request, Option.map_eq_none_iff, prepare_eq_none]

lemma request_eq_some {s t : State} {a : Addr} {o : Opcode} {r : ℤ} {thrown : Bool} :
    s.request a o r = some (t, thrown) ↔
      hasFreeSqe s.sq = true ∧ t = s.enqueue a o r ∧ thrown = decide (r ≤ 0) := by
  have hthrown (sq : List (Sqe Request)) :
      (submit sq r).thrown.isSome = decide (r ≤ 0) := by
    unfold submit
    split <;> simp_all
  simp only [request, Option.map_eq_some_iff, prepare_eq_some, Prod.mk.injEq, hthrown]
  constructor
  · rintro ⟨_, ⟨hfree, rfl⟩, rfl, rfl⟩
    exact ⟨hfree, rfl, rfl⟩
  · rintro ⟨hfree, rfl, rfl⟩
    exact ⟨_, ⟨hfree, rfl⟩, rfl, rfl⟩

/-- The state in which a handler leaves the event at `a`, and `await_resume` the one at
`b`. -/
def resumed (s : State) (q : Cqe) (e eb : Event) (c : CoroId) (b : Addr) (w : ℕ) : State :=
  { ((s.setEvent q.entry.userData (some (e.handler.call q.res e).1)).setEvent b
      (some (awaitResume eb).2)).setStatus c .running with
    stack := [c]
    returns := s.returns ++ [⟨w, q, (awaitResume eb).1⟩] }

end State

/-! ## The branches of a step -/

/-- What the handler of the completion `q` can do, with `cq` left in the queue. -/
inductive DispatchMove (s : State) (q : Cqe) (cq : List Cqe) : State → Prop
  | deadEvent (he : s.events q.entry.userData = none) :
      DispatchMove s q cq ({ s with cq := cq }.faulted .deadEvent)
  | ignored {e : Event} (he : s.events q.entry.userData = some e)
      (hr : e.handler.opcode.resumes q.res = false) : DispatchMove s q cq { s with cq := cq }
  | badResume {e : Event} (he : s.events q.entry.userData = some e)
      (hr : e.handler.opcode.resumes q.res = true)
      (hc : ∀ c, e.coroutine = some c →
        (∀ t, s.status c ≠ .atTask t) ∧ ∀ b w, s.status c = .atEvent b w → s.events b = none) :
      DispatchMove s q cq
        (({ s with cq := cq }.setEvent q.entry.userData
          (some (e.handler.call q.res e).1)).faulted .badResume)
  | resumedTask {e : Event} {c t : CoroId} (he : s.events q.entry.userData = some e)
      (hr : e.handler.opcode.resumes q.res = true) (hc : e.coroutine = some c)
      (ht : s.status c = .atTask t) :
      DispatchMove s q cq
        { ({ s with cq := cq }.setEvent q.entry.userData
            (some (e.handler.call q.res e).1)).setStatus c .running with stack := [c] }
  | resumed {e eb : Event} {c : CoroId} {b : Addr} {w : ℕ}
      (he : s.events q.entry.userData = some e) (hr : e.handler.opcode.resumes q.res = true)
      (hc : e.coroutine = some c) (hw : s.status c = .atEvent b w)
      (hb : (s.setEvent q.entry.userData (some (e.handler.call q.res e).1)).events b = some eb) :
      DispatchMove s q cq ({ s with cq := cq }.resumed q e eb c b w)

/-- What a step can do. -/
inductive Move (s : State) : Action → State → Prop
  | start : Move s .start
      { s.setStatus s.born .running with born := s.born + 1, stack := s.born :: s.stack }
  | create {a : Addr} {h : Handler} (free : s.events a = none) (hh : h ≠ .onClose) :
      Move s (.create a h) (s.setEvent a (some (Event.mk' h)))
  | destroy {a : Addr} (ha : a ≠ closeEvent) (hw : s.awaited a = false) :
      Move s (.destroy a) (s.setEvent a none)
  | awaitNull {c : CoroId} {a : Addr} {e : Event} {r : ℤ} (hc : s.stack.head? = some c)
      (he : s.events a = some e) (full : hasFreeSqe s.sq = false) :
      Move s (.awaitEvent a r) (s.faulted .nullSqe)
  | awaitFailed {c : CoroId} {a : Addr} {e : Event} {r : ℤ} (hc : s.stack.head? = some c)
      (he : s.events a = some e) (ha : a ≠ closeEvent) (hw : s.awaited a = false)
      (free : hasFreeSqe s.sq = true) (hr : r ≤ 0) :
      Move s (.awaitEvent a r)
        { (s.setEvent a (some { e with coroutine := some c })).enqueue a e.handler.opcode r with
          failed := s.prepared :: s.failed }
  | awaitSuspended {c : CoroId} {a : Addr} {e : Event} {r : ℤ} (hc : s.stack.head? = some c)
      (he : s.events a = some e) (ha : a ≠ closeEvent) (hw : s.awaited a = false)
      (free : hasFreeSqe s.sq = true) (hr : 0 < r) (hle : r ≤ s.sq.length + 1) :
      Move s (.awaitEvent a r)
        (((s.setEvent a (some { e with coroutine := some c })).enqueue a e.handler.opcode
          r).setStatus c (.atEvent a s.prepared)).pop
  | taskDead {c t : CoroId} (hc : s.stack.head? = some c) (ht : s.status t = .finished) :
      Move s (.awaitTask t) (s.faulted .deadPromise)
  | taskSuspended {c t : CoroId} (hc : s.stack.head? = some c) (hlt : t < s.born)
      (hk : s.continuation t = none) (ht : s.status t ≠ .finished) :
      Move s (.awaitTask t)
        ({ s with continuation := Function.update s.continuation t (some c) }.setStatus c
          (.atTask t)).pop
  | closeNull {r : ℤ} (full : hasFreeSqe s.sq = false) : Move s (.close r) (s.faulted .nullSqe)
  | closed {r : ℤ} (free : hasFreeSqe s.sq = true) (hle : r ≤ s.sq.length + 1) :
      Move s (.close r) (s.enqueue closeEvent .cancelFd r)
  | finish {c : CoroId} (hc : s.stack.head? = some c) :
      Move s .finish (s.setStatus c .finished).pop
  | postFinal {i : ℕ} {e : Sqe Request} {res : ℤ} (he : s.inflight[i]? = some e) :
      Move s (.post i res false)
        { s with inflight := s.inflight.eraseIdx i, cq := s.cq ++ [⟨e, res, false⟩] }
  | postMore {i : ℕ} {e : Sqe Request} {res : ℤ} (he : s.inflight[i]? = some e)
      (ho : e.request.opcode = .multishotAccept) :
      Move s (.post i res true) { s with cq := s.cq ++ [⟨e, res, true⟩] }
  | dispatch {q : Cqe} {cq : List Cqe} {t : State} (hs : s.stack = []) (hq : s.cq = q :: cq)
      (hd : DispatchMove s q cq t) : Move s .dispatch t

lemma awaitSuspend_move {s : State} {c : CoroId} {a : Addr} {e : Event} {r : ℤ}
    (hc : s.stack.head? = some c) (he : s.events a = some e) (ha : a ≠ closeEvent)
    (hw : s.awaited a = false) (hle : r ≤ s.sq.length + 1) :
    Move s (.awaitEvent a r) (s.awaitSuspend c a e r) := by
  unfold State.awaitSuspend
  split
  · next h =>
    have hfull := State.request_eq_none.mp h
    exact .awaitNull hc he hfull
  · next t h =>
    obtain ⟨hfree, rfl, hr⟩ := State.request_eq_some.mp h
    exact .awaitFailed hc he ha hw hfree (of_decide_eq_true hr.symm)
  · next t h =>
    obtain ⟨hfree, rfl, hr⟩ := State.request_eq_some.mp h
    exact .awaitSuspended hc he ha hw hfree (by simpa using hr.symm) hle

lemma handle_move (s : State) (q : Cqe) (cq : List Cqe) :
    DispatchMove s q cq ({ s with cq := cq }.handle q) := by
  unfold State.handle
  split
  · next he => exact .deadEvent he
  · next e he =>
    -- whether a handler resumes, and whom, is read off the event before the call
    obtain ⟨hres, hlink⟩ := call_spec e.handler q.res e
    have hco : (e.handler.call q.res e).1.coroutine = e.coroutine := (Prod.mk.inj hlink).2
    dsimp only
    rw [hres, hco]
    split
    · next hr =>
      unfold State.resume
      split
      · next hc => exact .badResume he hr (by simp [hc])
      · next c hc =>
        split
        · next t ht => exact .resumedTask he hr hc ht
        · next b w hw =>
          split
          · next hb =>
            -- the coroutine waits for an event that is gone, and that is not the one handled
            refine .badResume he hr ?_
            intro d hd
            obtain rfl : c = d := by simpa [hc] using hd
            have hw' : s.status c = .atEvent b w := hw
            refine ⟨by simp [hw'], ?_⟩
            intro b' w' hbw
            obtain ⟨rfl, rfl⟩ : b = b' ∧ w = w' := by simpa [hw'] using hbw
            simp only [State.setEvent, Function.update_apply] at hb
            split at hb
            · cases hb
            · exact hb
          · next eb hb => exact .resumed he hr hc hw hb
        · next hnt hne =>
          refine .badResume he hr ?_
          intro d hd
          obtain rfl : c = d := by simpa [hc] using hd
          exact ⟨fun t ht => hnt t ht, fun b w hw => absurd hw (hne b w)⟩
    · next hr =>
      -- nothing is written, so the event is put back as it was
      have hsame : (e.handler.call q.res e).1 = e := call_of_not_resumes (by simpa using hr)
      have hback : State.setEvent { s with cq := cq } q.entry.userData (some e) =
          { s with cq := cq } := by
        simp only [State.setEvent]
        rw [← he, Function.update_eq_self]
      rw [hsame, hback]
      exact .ignored he (by simpa using hr)

lemma fault_of_step {s t : State} {act : Action} (h : step s act = some t) : s.fault = none := by
  unfold step at h
  split at h
  · cases h
  · next hf => simpa using hf

/-- Every step is one of the branches. -/
theorem step_move {s t : State} {act : Action} (h : step s act = some t) : Move s act t := by
  unfold step at h
  split at h
  · cases h
  · cases act with
    | start =>
      obtain rfl := Option.some.inj h
      exact .start
    | create a k =>
      dsimp only at h
      split at h
      · next hg =>
        obtain rfl := Option.some.inj h
        exact .create hg.1 hg.2
      · cases h
    | destroy a =>
      dsimp only at h
      split at h
      · next hg =>
        obtain rfl := Option.some.inj h
        exact .destroy hg.1 hg.2
      · cases h
    | awaitEvent a r =>
      dsimp only at h
      split at h
      · next c e hc he =>
        split at h
        · next hg =>
          obtain rfl := Option.some.inj h
          exact awaitSuspend_move hc he hg.1 hg.2.1 hg.2.2
        · cases h
      · cases h
    | awaitTask t' =>
      dsimp only at h
      split at h
      · next c hc =>
        split at h
        · next hg =>
          obtain rfl := Option.some.inj h
          -- `await_ready` is `false` for a finished task as well
          unfold State.taskAwaitSuspend
          split
          · next hf => exact .taskDead hc hf
          · next hf => exact .taskSuspended hc hg.1 hg.2 hf
        · cases h
      · cases h
    | close r =>
      dsimp only at h
      split at h
      · next hle =>
        obtain rfl := Option.some.inj h
        unfold State.close
        split
        · next hn => exact .closeNull (State.request_eq_none.mp hn)
        · next t hs =>
          obtain ⟨hfree, rfl, -⟩ := State.request_eq_some.mp hs
          exact .closed hfree hle
      · cases h
    | finish =>
      obtain ⟨c, hc, rfl⟩ := Option.map_eq_some_iff.mp h
      exact .finish hc
    | post i res more =>
      dsimp only at h
      split at h
      · next e he =>
        split at h
        · next hm =>
          obtain rfl := Option.some.inj h
          cases more with
          | false => exact .postFinal he
          | true => exact .postMore he (hm rfl)
        · cases h
      · cases h
    | dispatch =>
      dsimp only at h
      split at h
      · next q cq hs hq =>
        obtain rfl := Option.some.inj h
        exact .dispatch hs hq (handle_move s q cq)
      · cases h

/-- A dispatch is a move of the completion at the head of the queue. -/
lemma Move.dispatchMove {s t : State} (hm : Move s .dispatch t) {q : Cqe} {cq : List Cqe}
    (hq : s.cq = q :: cq) : DispatchMove s q cq t := by
  cases hm with
  | dispatch hs hq' hd =>
    obtain ⟨rfl, rfl⟩ := List.cons.inj (hq.symm.trans hq')
    exact hd

/-! ## Pending requests -/

namespace State

/-- The requests not yet dispatched: queued, in flight, or completed. A multishot request
counts once for each of its completions. -/
def pending (s : State) : List (Sqe Request) := s.sq ++ s.inflight ++ s.cq.map Cqe.entry

/-- The pending requests that complete once. -/
def singleShots (s : State) : List (Sqe Request) :=
  s.pending.filter fun e => e.request.opcode ≠ .multishotAccept

lemma mem_pending {s : State} {e : Sqe Request} :
    e ∈ s.pending ↔ e ∈ s.sq ∨ e ∈ s.inflight ∨ ∃ q ∈ s.cq, q.entry = e := by
  rw [pending, List.mem_append, List.mem_append, List.mem_map, or_assoc]

lemma pending_enqueue (s : State) (a : Addr) (o : Opcode) (r : ℤ) :
    (s.enqueue a o r).pending.Perm (s.entry a o :: s.pending) := by
  have hsplit := taken_append_left (s.sq ++ [s.entry a o]) r
  calc (s.enqueue a o r).pending
      = (submit (s.sq ++ [s.entry a o]) r).left ++
          (s.inflight ++ (submit (s.sq ++ [s.entry a o]) r).taken) ++ s.cq.map Cqe.entry := rfl
    List.Perm _ ((submit (s.sq ++ [s.entry a o]) r).taken ++
          (submit (s.sq ++ [s.entry a o]) r).left ++ s.inflight ++ s.cq.map Cqe.entry) := by
        apply List.Perm.append_right
        rw [← List.append_assoc]
        -- what the submit took moves in front of what it left
        refine (List.perm_append_comm).trans ?_
        rw [List.append_assoc]
    _ = s.sq ++ [s.entry a o] ++ s.inflight ++ s.cq.map Cqe.entry := by rw [hsplit]
    List.Perm _ (s.entry a o :: s.pending) := by
        simp only [pending, List.append_assoc, List.cons_append, List.nil_append]
        exact List.perm_middle

lemma mem_pending_enqueue {s : State} {a : Addr} {o : Opcode} {r : ℤ} {e : Sqe Request} :
    e ∈ (s.enqueue a o r).pending ↔ e = s.entry a o ∨ e ∈ s.pending := by
  rw [(s.pending_enqueue a o r).mem_iff, List.mem_cons]

lemma pending_postFinal {s : State} {i : ℕ} {e : Sqe Request} (res : ℤ)
    (he : s.inflight[i]? = some e) :
    ({ s with inflight := s.inflight.eraseIdx i
              cq := s.cq ++ [⟨e, res, false⟩] } : State).pending.Perm s.pending := by
  -- the completed request leaves `inflight` and comes back with its completion
  have hperm : s.inflight.Perm (e :: s.inflight.eraseIdx i) := by
    obtain ⟨hi, rfl⟩ := List.getElem?_eq_some_iff.mp he
    exact (List.getElem_cons_eraseIdx_perm hi).symm
  simp only [pending, List.map_append, List.map_cons, List.map_nil, List.append_assoc]
  apply List.Perm.append_left
  rw [← List.append_assoc]
  exact (List.perm_append_singleton _ _).trans (hperm.symm.append_right _)

lemma pending_postMore (s : State) (e : Sqe Request) (res : ℤ) :
    ({ s with cq := s.cq ++ [⟨e, res, true⟩] } : State).pending.Perm (e :: s.pending) := by
  simp only [pending, List.map_append, List.map_cons, List.map_nil, ← List.append_assoc]
  exact List.perm_append_singleton _ _

lemma pending_cq {s : State} {q : Cqe} {cq : List Cqe} (hq : s.cq = q :: cq) :
    s.pending.Perm (q.entry :: ({ s with cq := cq } : State).pending) := by
  simp only [pending, hq, List.map_cons]
  exact List.perm_middle

lemma mem_pending_of_inflight {s : State} {i : ℕ} {e : Sqe Request}
    (he : s.inflight[i]? = some e) : e ∈ s.pending :=
  mem_pending.mpr (.inr (.inl (List.mem_of_getElem? he)))

lemma head_mem_pending {s : State} {q : Cqe} {cq : List Cqe} (hq : s.cq = q :: cq) :
    q.entry ∈ s.pending := by
  rw [(pending_cq hq).mem_iff]
  exact List.mem_cons_self

lemma mem_pending_of_cq {s : State} {q : Cqe} {cq : List Cqe} (hq : s.cq = q :: cq)
    {e : Sqe Request} (he : e ∈ ({ s with cq := cq } : State).pending) : e ∈ s.pending := by
  rw [(pending_cq hq).mem_iff]
  exact List.mem_cons_of_mem _ he

end State

end Zsl.Iouring
