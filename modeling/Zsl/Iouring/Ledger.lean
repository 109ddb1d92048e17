import Zsl.Iouring.RuntimeDispatch
import Zsl.Lib.Reachability
import Mathlib.Data.List.Range

/-!
# Where the requests are

* `Dispatches`: the completions a run has handed to handlers, in a log;
* `Ledger`: each request prepared is in exactly one place, and no completion of it follows
  its last one;
* `request_ledger`: this holds along every run.
-/

namespace Zsl.Iouring

abbrev Sqe.ticket (e : Sqe Request) : ℕ := e.request.ticket

abbrev Cqe.ticket (q : Cqe) : ℕ := q.entry.request.ticket

/-- The completions after which the kernel is done with their request. -/
def finals (cq : List Cqe) : List Cqe := cq.filter fun q => !q.more

/-- The completion that a step hands to its handler. -/
def dispatched (s : State) : Action → List Cqe
  | .dispatch => s.cq.take 1
  | _ => []

lemma dispatched_of_ne {s : State} {act : Action} (h : act ≠ .dispatch) :
    dispatched s act = [] := by
  cases act with
  | dispatch => exact absurd rfl h
  | _ => rfl

/-- Each request prepared is queued, in flight, completed or dispatched. -/
structure Ledger (s : State) (log : List Cqe) : Prop where
  le : s.sq.length ≤ s.prepared
  /-- the queue holds the last ones prepared, in their order -/
  queued : s.sq.map Sqe.ticket = List.range' (s.prepared - s.sq.length) s.sq.length
  /-- each of the others is in exactly one place -/
  taken : (s.inflight.map Sqe.ticket ++ (finals (log ++ s.cq)).map Cqe.ticket).Perm
    (List.range (s.prepared - s.sq.length))
  /-- nothing is completed after its last completion -/
  order : (log ++ s.cq).Pairwise fun p q => p.more = false → p.ticket ≠ q.ticket

namespace Ledger
variable {s t : State} {log : List Cqe}

protected lemma start : Ledger State.start [] :=
  ⟨le_rfl, rfl, List.Perm.nil, List.Pairwise.nil⟩

/-- A request in flight has no last completion. -/
lemma ticket_ne (h : Ledger s log) {e : Sqe Request} (he : e ∈ s.inflight) {q : Cqe}
    (hq : q ∈ log ++ s.cq) (hmore : q.more = false) : q.ticket ≠ e.ticket := by
  intro heq
  have hnodup := h.taken.nodup_iff.mpr List.nodup_range
  have hfinal : q ∈ finals (log ++ s.cq) := List.mem_filter.mpr ⟨hq, by rw [hmore]; rfl⟩
  exact (List.nodup_append.mp hnodup).2.2 _ (List.mem_map_of_mem he) _ (List.mem_map_of_mem hfinal)
    heq.symm

/-- The queue with a new entry. -/
lemma queued_append (h : Ledger s log) (a : Addr) (o : Opcode) :
    (s.sq ++ [s.entry a o]).map Sqe.ticket =
      List.range' (s.prepared - s.sq.length) (s.sq.length + 1) := by
  have hle := h.le
  rw [List.map_append, h.queued, List.range'_1_concat, Nat.sub_add_cancel hle]
  rfl

/-- A submit takes requests in the order in which they were prepared. -/
lemma enqueue (h : Ledger s log) (a : Addr) (o : Opcode) {r : ℤ} (hr : r ≤ s.sq.length + 1) :
    Ledger (s.enqueue a o r) log := by
  have hle := h.le
  have hk : r.toNat ≤ s.sq.length + 1 := by omega
  have hleft : (s.enqueue a o r).sq = (s.sq ++ [s.entry a o]).drop r.toNat := rfl
  have hlength : (s.enqueue a o r).sq.length = s.sq.length + 1 - r.toNat := by
    rw [hleft, List.length_drop, List.length_append, List.length_singleton]
  have hprepared : (s.enqueue a o r).prepared = s.prepared + 1 := rfl
  have hfirst : (s.enqueue a o r).prepared - (s.enqueue a o r).sq.length =
      s.prepared - s.sq.length + r.toNat := by
    omega
  refine ⟨by omega, ?_, ?_, h.order⟩
  · rw [hfirst, hlength, hleft, List.map_drop, h.queued_append, List.drop_range', Nat.mul_one]
  · have hinflight : (s.enqueue a o r).inflight.map Sqe.ticket =
        s.inflight.map Sqe.ticket ++ List.range' (s.prepared - s.sq.length) r.toNat := by
      show (s.inflight ++ (s.sq ++ [s.entry a o]).take r.toNat).map Sqe.ticket = _
      rw [List.map_append, List.map_take, h.queued_append, List.take_range'_of_length_ge hk]
    -- what the kernel takes follows what it has taken before
    have hrange : List.range (s.prepared - s.sq.length + r.toNat) =
        List.range (s.prepared - s.sq.length) ++
          List.range' (s.prepared - s.sq.length) r.toNat := by
      rw [List.range_eq_range', List.range_eq_range', ← List.range'_append_1, Nat.zero_add]
    rw [hfirst, hrange, hinflight, List.append_assoc]
    refine (List.perm_append_comm.append_left _).trans ?_
    rw [← List.append_assoc]
    exact h.taken.append_right _

lemma finals_append (cq cq' : List Cqe) : finals (cq ++ cq') = finals cq ++ finals cq' :=
  List.filter_append ..

lemma post (h : Ledger s log) {e : Sqe Request} (he : e ∈ s.inflight) {res : ℤ} {more : Bool}
    {inflight : List (Sqe Request)}
    (hperm : (s.inflight.map Sqe.ticket).Perm
      (inflight.map Sqe.ticket ++ (finals [⟨e, res, more⟩]).map Cqe.ticket)) :
    Ledger { s with inflight := inflight, cq := s.cq ++ [⟨e, res, more⟩] } log where
  le := h.le
  queued := h.queued
  taken := by
    have htaken := (hperm.symm.append_right ((finals (log ++ s.cq)).map Cqe.ticket)).trans h.taken
    refine List.Perm.trans ?_ htaken
    rw [← List.append_assoc, finals_append, List.map_append, List.append_assoc]
    exact List.perm_append_comm.append_left _
  order := by
    rw [← List.append_assoc, List.pairwise_append]
    refine ⟨h.order, List.pairwise_singleton _ _, ?_⟩
    intro p hp q hq hmore
    obtain rfl := List.mem_singleton.mp hq
    exact h.ticket_ne he hp hmore

/-- A dispatch moves a completion from the queue to the log. -/
lemma dispatch (h : Ledger s log) {q : Cqe} {cq : List Cqe} (hq : s.cq = q :: cq)
    (hd : Dispatched s t cq) : Ledger t (log ++ [q]) := by
  have hcq : log ++ [q] ++ t.cq = log ++ s.cq := by
    rw [hd.cq, hq, List.append_assoc, List.singleton_append]
  refine ⟨?_, ?_, ?_, ?_⟩
  · rw [hd.sq, hd.prepared]
    exact h.le
  · rw [hd.sq, hd.prepared]
    exact h.queued
  · rw [hcq, hd.sq, hd.prepared, hd.inflight]
    exact h.taken
  · rw [hcq]
    exact h.order

/-- The log is of dispatches only. -/
lemma keep (h : Ledger s log) {act : Action} (hm : Move s act t) (hact : act ≠ .dispatch) :
    Ledger t log := by
  cases hm with
  | dispatch => exact absurd rfl hact
  | @awaitFailed c a e r hc he ha hw free hr =>
    have henqueue := h.enqueue a e.handler.opcode (r := r) (by omega)
    exact ⟨henqueue.le, henqueue.queued, henqueue.taken, henqueue.order⟩
  | @awaitSuspended c a e r hc he ha hw free hr hle =>
    have henqueue := h.enqueue a e.handler.opcode hle
    exact ⟨henqueue.le, henqueue.queued, henqueue.taken, henqueue.order⟩
  | closed free hle =>
    exact h.enqueue _ _ hle
  | @postFinal i e res he =>
    apply h.post (List.mem_of_getElem? he)
    obtain ⟨hi, rfl⟩ := List.getElem?_eq_some_iff.mp he
    exact ((List.getElem_cons_eraseIdx_perm hi).symm.map _).trans
      (List.perm_append_singleton _ _).symm
  | @postMore i e res he ho =>
    apply h.post (List.mem_of_getElem? he)
    rw [show finals [⟨e, res, true⟩] = [] from rfl, List.map_nil, List.append_nil]
  | _ =>
    exact ⟨h.le, h.queued, h.taken, h.order⟩

theorem step (h : Ledger s log) {act : Action} (hm : Move s act t) :
    Ledger t (log ++ dispatched s act) := by
  by_cases hact : act = .dispatch
  · subst hact
    cases hm with
    | @dispatch q cq t hs hq hd =>
      rw [show dispatched s .dispatch = [q] by rw [dispatched, hq]; rfl]
      exact h.dispatch hq hd.dispatched
  · rw [dispatched_of_ne hact, List.append_nil]
    exact h.keep hm hact

end Ledger

/-- Along every run, whatever its submits take and its kernel answers, each request prepared is in
exactly one place, the kernel takes them in the order in which they were prepared, and none
is completed after its last completion. -/
theorem request_ledger (acts : List Action) :
    (runtime.logging dispatched).Steps (fun _ _ t => Ledger t.1 t.2)
      (runtime.logging dispatched).start acts := by
  apply Lib.System.steps_of_inductive (fun s => Ledger s.1 s.2) _ Ledger.start
  intro s act t h hst
  obtain ⟨hst, hlog⟩ := Lib.System.logging_step.mp hst
  have ht := h.step (step_move hst)
  rw [← hlog] at ht
  exact ⟨ht, ht⟩

end Zsl.Iouring
