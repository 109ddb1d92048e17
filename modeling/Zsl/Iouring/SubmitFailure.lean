import Zsl.Iouring.RuntimeDispatch

/-!
# Failing submits

* `Queued`: the queue holds consecutive entries, the kernel has those before them, and the
  entries of failed awaits are still queued;
* `submit_failure_iff`: a failed await leaves no trace exactly when the submits of the run
  together take fewer entries than were prepared before its own. An `io_uring_submit` that
  fails leaves the entry in the queue, and nothing takes it out.
-/

namespace Zsl.Iouring

/-- How many entries the kernel has taken. -/
def State.submitted (s : State) : ℕ := s.prepared - s.sq.length

/-- The requests the kernel has taken, and whose last completion is not yet dispatched. -/
def State.handed (s : State) : List (Sqe Request) := s.inflight ++ s.cq.map Cqe.entry

/-- A failed await has left no trace. -/
structure NoTrace (s : State) (act : Action) (t : State) : Prop where
  /-- the kernel has not got its entry -/
  handed : ∀ e ∈ t.handed, e.request.ticket ∉ t.failed
  /-- no completion of it is dispatched -/
  dispatched : act = .dispatch → ∀ q cq, s.cq = q :: cq → q.entry.request.ticket ∉ s.failed

/-- A submit that takes `r` entries stops short of the entry of each failed await. -/
def SubmitsBefore (s : State) (act : Action) (_ : State) : Prop :=
  match act with
  | .awaitEvent _ r | .close r =>
    hasFreeSqe s.sq = true → 0 < r → ∀ w ∈ s.failed, s.submitted + r ≤ w
  | _ => True

/-- The queue, the kernel's entries and the failed awaits lie one after the other. -/
structure Queued (s : State) : Prop where
  length_le : s.sq.length ≤ s.prepared
  queue : s.sq.map (·.request.ticket) = List.range' s.submitted s.sq.length
  handed : ∀ e ∈ s.handed, e.request.ticket < s.submitted
  failed : ∀ w ∈ s.failed, s.submitted ≤ w

namespace Queued
variable {s t : State}

protected lemma start : Queued State.start where
  length_le := le_rfl
  queue := rfl
  handed := by simp [State.start, State.handed]
  failed := by simp [State.start]

lemma noTrace (h : Queued s) : ∀ e ∈ s.handed, e.request.ticket ∉ s.failed := by
  intro e he hf
  exact absurd (h.handed e he) (Nat.not_lt.mpr (h.failed _ hf))

/-- The queue with the next entry. -/
lemma queue_next (h : Queued s) (a : Addr) (o : Opcode) :
    (s.sq ++ [s.entry a o]).map (·.request.ticket) =
      List.range' s.submitted (s.sq.length + 1) := by
  have hlast : s.prepared = s.submitted + s.sq.length :=
    (Nat.sub_add_cancel h.length_le).symm
  rw [List.map_append, h.queue, ← List.range'_append_1 (n := 1), ← hlast]
  rfl

/-- What a submit takes of the queue. -/
lemma taken_next (h : Queued s) (a : Addr) (o : Opcode) {r : ℤ} (hle : r ≤ s.sq.length + 1) :
    (submit (s.sq ++ [s.entry a o]) r).taken.map (·.request.ticket) =
      List.range' s.submitted r.toNat := by
  show ((s.sq ++ [s.entry a o]).take r.toNat).map (·.request.ticket) = _
  rw [List.map_take, h.queue_next a o, List.take_range'_of_length_ge (by omega)]

lemma submitted_enqueue (h : Queued s) (a : Addr) (o : Opcode) {r : ℤ}
    (hle : r ≤ s.sq.length + 1) :
    (s.enqueue a o r).sq.length = s.sq.length + 1 - r.toNat ∧
      (s.enqueue a o r).submitted = s.submitted + r.toNat := by
  have hlen : (s.enqueue a o r).sq.length = s.sq.length + 1 - r.toNat := by
    show ((s.sq ++ [s.entry a o]).drop r.toNat).length = _
    rw [List.length_drop, List.length_append, List.length_singleton]
  refine ⟨hlen, ?_⟩
  show s.prepared + 1 - (s.enqueue a o r).sq.length = s.prepared - s.sq.length + r.toNat
  have hle' := h.length_le
  omega

/-- A submit that stops short of the failed awaits keeps the order. -/
lemma enqueue (h : Queued s) (a : Addr) (o : Opcode) {r : ℤ} (hle : r ≤ s.sq.length + 1)
    (hr : 0 < r → ∀ w ∈ s.failed, s.submitted + r ≤ w) : Queued (s.enqueue a o r) := by
  obtain ⟨hlen, hsub⟩ := h.submitted_enqueue a o hle
  refine ⟨?_, ?_, fun e he => ?_, fun w hw => ?_⟩
  · show (s.enqueue a o r).sq.length ≤ s.prepared + 1
    have hle' := h.length_le
    omega
  · rw [hlen, hsub]
    show ((s.sq ++ [s.entry a o]).drop r.toNat).map (·.request.ticket) = _
    rw [List.map_drop, h.queue_next a o, List.drop_range', Nat.mul_one]
  · rw [hsub]
    simp only [State.handed, State.enqueue, List.append_assoc, List.mem_append] at he
    -- in flight before, taken now, or completed before
    rcases he with he | he | he
    · have := h.handed e (List.mem_append_left _ he)
      omega
    · have hmem := List.mem_map_of_mem (f := fun x => x.request.ticket) he
      rw [h.taken_next a o hle, List.mem_range'_1] at hmem
      exact hmem.2
    · have := h.handed e (List.mem_append_right _ he)
      omega
  · rw [hsub]
    have hold : s.submitted ≤ w := h.failed w hw
    by_cases hpos : 0 < r
    · have := hr hpos w hw
      omega
    · omega

/-- The entries a submit takes reach every failed await they do not stop short of. -/
lemma stops_short (h : Queued s) (a : Addr) (o : Opcode) {r : ℤ} (hle : r ≤ s.sq.length + 1)
    (hp : ∀ e ∈ (s.enqueue a o r).handed, e.request.ticket ∉ s.failed) :
    ∀ w ∈ s.failed, s.submitted + r ≤ w := by
  intro w hw
  by_contra hlt
  have hge := h.failed w hw
  -- the queue is consecutive, so a submit that reaches past `w` takes `w`
  have hmem : w ∈ (submit (s.sq ++ [s.entry a o]) r).taken.map (·.request.ticket) := by
    rw [h.taken_next a o hle, List.mem_range'_1]
    omega
  obtain ⟨e, he, rfl⟩ := List.mem_map.mp hmem
  exact hp e (List.mem_append_left _ (List.mem_append_right _ he)) hw

/-- A step that moves entries only among those the kernel has. -/
lemma keep (h : Queued s) (hsq : t.sq = s.sq) (hprep : t.prepared = s.prepared)
    (hf : t.failed = s.failed) (hsub : ∀ e ∈ t.handed, e ∈ s.handed) : Queued t := by
  have hs : t.submitted = s.submitted := by rw [State.submitted, State.submitted, hsq, hprep]
  refine ⟨by rw [hsq, hprep]; exact h.length_le, by rw [hsq, hs]; exact h.queue, ?_, ?_⟩
  · rw [hs]
    exact fun e he => h.handed e (hsub e he)
  · rw [hs, hf]
    exact h.failed

lemma dispatch (h : Queued s) {q : Cqe} {cq : List Cqe} (hq : s.cq = q :: cq)
    (hd : Dispatched s t cq) : Queued t := by
  apply h.keep hd.sq hd.prepared hd.failed
  intro e he
  rw [State.handed, hd.inflight, hd.cq] at he
  rw [State.handed, hq]
  rcases List.mem_append.mp he with he | he
  · exact List.mem_append_left _ he
  · exact List.mem_append_right _ (List.mem_cons_of_mem _ he)

/-- Steps whose submits stop short of the failed awaits keep the order. -/
theorem step (h : Queued s) {act : Action} (hm : Move s act t) (hu : SubmitsBefore s act t) :
    Queued t := by
  cases hm with
  | start | create | destroy | awaitNull | taskDead | taskSuspended | closeNull | finish =>
    exact { h with }
  | @awaitFailed c a e r hc he ha hw free hr =>
    -- a submit that throws takes nothing, and the failed entry is the last one queued
    have hq := h.enqueue a e.handler.opcode (r := r) (by omega) fun hpos => by omega
    have hzero : r.toNat = 0 := Int.toNat_of_nonpos hr
    have hsub := (h.submitted_enqueue a e.handler.opcode (r := r) (by omega)).2
    refine { hq with failed := fun w hw => ?_ }
    rcases List.mem_cons.mp hw with rfl | hw
    · have hle : s.submitted ≤ s.prepared := Nat.sub_le _ _
      have heq : (s.enqueue a e.handler.opcode r).submitted ≤ s.prepared := by omega
      exact heq
    · exact hq.failed w hw
  | @awaitSuspended c a e r hc he ha hw free hr hle =>
    exact { h.enqueue a e.handler.opcode hle fun _ => hu free hr with }
  | closed free hle => exact h.enqueue closeEvent .cancelFd hle (hu free)
  | @postFinal i e res he =>
    refine h.keep rfl rfl rfl ?_
    intro x hx
    have hperm := (List.getElem_cons_eraseIdx_perm (List.getElem?_eq_some_iff.mp he).1).mem_iff
      (a := x)
    simp only [State.handed, List.map_append, List.map_cons, List.map_nil, List.mem_append,
      List.mem_singleton] at hx ⊢
    rcases hx with hx | hx | rfl
    · exact .inl (List.mem_of_mem_eraseIdx hx)
    · exact .inr hx
    · exact .inl (List.mem_of_getElem? he)
  | @postMore i e res he ho =>
    refine h.keep rfl rfl rfl ?_
    intro x hx
    simp only [State.handed, List.map_append, List.map_cons, List.map_nil, List.mem_append,
      List.mem_singleton] at hx ⊢
    rcases hx with hx | hx | rfl
    · exact .inl hx
    · exact .inr hx
    · exact .inl (List.mem_of_getElem? he)
  | dispatch hs hq hd => exact h.dispatch hq hd.dispatched

/-- A step after which no trace is left has stopped short of the failed awaits. -/
lemma submitsBefore (h : Queued s) {act : Action} (hm : Move s act t) (hp : NoTrace s act t) :
    SubmitsBefore s act t := by
  cases hm with
  | awaitNull hc he full =>
    intro free
    rw [free] at full
    cases full
  | closeNull full =>
    intro free
    rw [free] at full
    cases full
  | awaitFailed hc he ha hw free hr => exact fun _ hpos => by omega
  | awaitSuspended hc he ha hw free hr hle =>
    exact fun _ _ => h.stops_short _ _ hle hp.handed
  | closed free hle => exact fun _ _ => h.stops_short _ _ hle hp.handed
  | _ => trivial

end Queued

/-- In a run whose submits may fail, the awaits they fail leave no trace exactly when every
submit stops short of the entries of the awaits failed before it. -/
theorem submit_failure_iff (acts : List Action) :
    runtime.Steps SubmitsBefore runtime.start acts ↔
      runtime.Steps NoTrace runtime.start acts := by
  refine Lib.System.steps_iff Queued ?_ Queued.start acts
  intro s act t hs hst
  have hm := step_move hst
  refine ⟨⟨fun hu => ⟨(hs.step hm hu).noTrace, ?_⟩, hs.submitsBefore hm⟩, hs.step hm⟩
  -- a completion in the queue is still handed out
  intro _ q cq hq
  apply hs.noTrace
  apply List.mem_append_right
  rw [hq]
  exact List.mem_cons_self

/-- A receive whose submit fails with `EAGAIN`; the exception destroys the awaitable, and
the socket is closed. -/
def failedReceive : List Action :=
  [.start, .create 1 .onRecv, .awaitEvent 1 (-11), .destroy 1, .finish]

/-- The close hands over the entry of the failed receive, and the completion of that entry
is dispatched to the dead event. -/
theorem submit_failure_leaves_trace :
    (∃ s, runtime.run runtime.start (failedReceive ++ [.close 2]) = some s ∧
      s.failed = [0] ∧ s.inflight.map (·.request) = [⟨.recv, 0⟩, ⟨.cancelFd, 1⟩]) ∧
    (∃ s, runtime.run runtime.start
        (failedReceive ++ [.close 2, .post 0 (-9) false, .dispatch]) = some s ∧
      s.fault = some .deadEvent) ∧
    ¬ ∀ acts, runtime.Steps NoTrace runtime.start acts := by
  refine ⟨⟨_, rfl, rfl, rfl⟩, ⟨_, rfl, rfl⟩, fun h => ?_⟩
  have hp := (h (failedReceive ++ [.close 2])).of_run rfl rfl
  exact hp.handed ⟨⟨.recv, 0⟩, 1⟩ (by decide) (by decide)

end Zsl.Iouring
