import Zsl.Iouring.RuntimeMoves

/-!
# Invariants of the runtime

* `WellFormed`: how the coroutines, the events and the pending requests refer to one
  another, kept by every step, `WellFormed.step`;
* `Threaded`: the stack holds the running coroutines, kept by every step, `Threaded.step`.
-/

namespace Zsl.Iouring

/-! ## Well-formed states -/

lemma State.link_setEvent {s : State} {a : Addr} {e e' : Event} (he : s.events a = some e)
    (hlink : e'.link = e.link) (b : Addr) :
    ((s.setEvent a (some e')).events b).map Event.link = (s.events b).map Event.link := by
  by_cases hba : b = a
  · subst hba
    rw [State.setEvent_self, he, Option.map_some, Option.map_some, hlink]
  · rw [State.setEvent_of_ne hba]

/-- A coroutine that is suspended on an event after another status was set was so before. -/
lemma State.atEvent_of_setStatus (s : State) {c d : CoroId} {st : Status} {a : Addr} {w : ℕ}
    (hst : ∀ a w, st ≠ .atEvent a w) (hd : (s.setStatus c st).status d = .atEvent a w) :
    s.status d = .atEvent a w := by
  by_cases hdc : d = c
  · subst hdc
    exact absurd (by simpa using hd) (hst a w)
  · rwa [State.setStatus_of_ne hdc] at hd

/-- How the parts of a state refer to one another. -/
structure WellFormed (s : State) : Prop where
  close_event : ∃ e, s.events closeEvent = some e ∧ e.handler = .onClose ∧ e.coroutine = none
  handler : ∀ a e, s.events a = some e → e.handler = .onClose → a = closeEvent
  pending_lt : ∀ e ∈ s.pending, e.request.ticket < s.prepared
  pending_inj : ∀ e ∈ s.pending, ∀ x ∈ s.pending, e.request.ticket = x.request.ticket → e = x
  single : s.singleShots.Nodup
  cancel : ∀ e ∈ s.pending, e.request.opcode = .cancelFd ↔ e.userData = closeEvent
  failed_lt : ∀ w ∈ s.failed, w < s.prepared
  returns_lt : ∀ r ∈ s.returns, r.ticket < s.prepared
  returns_nodup : (s.returns.map Return.ticket).Nodup
  at_lt : ∀ c a w, s.status c = .atEvent a w → w < s.prepared
  at_event : ∀ c a w, s.status c = .atEvent a w → ∃ e, s.events a = some e ∧ e.coroutine = some c
  at_pending : ∀ c a w, s.status c = .atEvent a w → ∀ e ∈ s.pending, e.request.ticket = w →
    e.userData = a ∧ ∀ ev, s.events a = some ev → ev.handler.opcode = e.request.opcode
  at_fresh : ∀ c a w, s.status c = .atEvent a w → w ∉ s.failed ∧ ∀ r ∈ s.returns, r.ticket ≠ w
  at_inj : ∀ c d a b w, s.status c = .atEvent a w → s.status d = .atEvent b w → c = d

namespace WellFormed
variable {s : State}

lemma awaited (h : WellFormed s) {c : CoroId} {a : Addr} {w : ℕ}
    (hc : s.status c = .atEvent a w) : s.awaited a = true := by
  obtain ⟨e, he, hco⟩ := h.at_event c a w hc
  simp [State.awaited, he, hco, hc]

lemma not_at (h : WellFormed s) {a : Addr} (ha : s.awaited a = false) (c : CoroId) (w : ℕ) :
    s.status c ≠ .atEvent a w := by
  intro hc
  rw [h.awaited hc] at ha
  cases ha

lemma not_at_of_none (h : WellFormed s) {a : Addr} (ha : s.events a = none) (c : CoroId)
    (w : ℕ) : s.status c ≠ .atEvent a w := by
  intro hc
  obtain ⟨e, he, -⟩ := h.at_event c a w hc
  rw [ha] at he
  cases he

lemma ne_closeEvent (h : WellFormed s) {a : Addr} (ha : s.events a = none) :
    a ≠ closeEvent := by
  intro heq
  obtain ⟨e, he, -⟩ := h.close_event
  rw [← heq, ha] at he
  cases he

/-- The event of a suspended coroutine is the one its pending request names. -/
lemma event_of_pending (h : WellFormed s) {c : CoroId} {a : Addr} {e : Sqe Request}
    (hc : s.status c = .atEvent a e.request.ticket) (he : e ∈ s.pending) :
    e.userData = a ∧ ∃ ev, s.events a = some ev ∧ ev.coroutine = some c ∧
      ev.handler.opcode = e.request.opcode := by
  obtain ⟨hu, hop⟩ := h.at_pending c a _ hc e he rfl
  obtain ⟨ev, hev, hco⟩ := h.at_event c a _ hc
  exact ⟨hu, ev, hev, hco, hop ev hev⟩

/-! ### What the parts of a step keep -/

lemma setEvent (h : WellFormed s) {a : Addr} {x : Option Event} (ha : a ≠ closeEvent)
    (hx : ∀ e, x = some e → e.handler ≠ .onClose) (hw : ∀ c w, s.status c ≠ .atEvent a w) :
    WellFormed (s.setEvent a x) := by
  -- nobody waits at `a`, so what is said about suspended coroutines is untouched
  have hne {c : CoroId} {b : Addr} {w : ℕ} (hc : s.status c = .atEvent b w) : b ≠ a := by
    intro hba
    exact hw c w (hba ▸ hc)
  refine { h with close_event := ?_, handler := ?_, at_event := ?_, at_pending := ?_ }
  · rw [State.setEvent_of_ne ha.symm]
    exact h.close_event
  · intro b e hb hh
    by_cases hba : b = a
    · subst hba
      exact absurd hh (hx e (by simpa using hb))
    · rw [State.setEvent_of_ne hba] at hb
      exact h.handler b e hb hh
  · intro c b w hc
    rw [State.setEvent_of_ne (hne hc)]
    exact h.at_event c b w hc
  · intro c b w hc e he hew
    rw [State.setEvent_of_ne (hne hc)]
    exact h.at_pending c b w hc e he hew

/-- A write to an event that keeps its handler and its coroutine. -/
lemma setEvent_same (h : WellFormed s) {a : Addr} {e e' : Event} (he : s.events a = some e)
    (hlink : e'.link = e.link) : WellFormed (s.setEvent a (some e')) := by
  have hsame := State.link_setEvent he hlink
  -- events before and after the write correspond, up to their results
  have hto {b : Addr} {ev : Event} (hev : s.events b = some ev) :
      ∃ ev', (s.setEvent a (some e')).events b = some ev' ∧ ev'.link = ev.link := by
    simpa [hev] using hsame b
  have hback {b : Addr} {ev : Event} (hev : (s.setEvent a (some e')).events b = some ev) :
      ∃ ev', s.events b = some ev' ∧ ev'.link = ev.link := by
    simpa [hev] using (hsame b).symm
  refine { h with close_event := ?_, handler := ?_, at_event := ?_, at_pending := ?_ }
  · obtain ⟨ev, hev, hon, hno⟩ := h.close_event
    obtain ⟨ev', hev', hl⟩ := hto hev
    obtain ⟨hh, hc⟩ := Prod.mk.inj hl
    exact ⟨ev', hev', hh.trans hon, hc.trans hno⟩
  · intro b ev hev hon
    obtain ⟨ev', hev', hl⟩ := hback hev
    exact h.handler b ev' hev' ((Prod.mk.inj hl).1.trans hon)
  · intro c b w hcw
    obtain ⟨ev, hev, hco⟩ := h.at_event c b w hcw
    obtain ⟨ev', hev', hl⟩ := hto hev
    exact ⟨ev', hev', (Prod.mk.inj hl).2.trans hco⟩
  · intro c b w hcw x hx hxw
    obtain ⟨hu, hop⟩ := h.at_pending c b w hcw x hx hxw
    refine ⟨hu, fun ev hev => ?_⟩
    obtain ⟨ev', hev', hl⟩ := hback hev
    rw [← (Prod.mk.inj hl).1]
    exact hop ev' hev'

lemma enqueue (h : WellFormed s) {a : Addr} {o : Opcode} (ho : o = .cancelFd ↔ a = closeEvent)
    (r : ℤ) : WellFormed (s.enqueue a o r) := by
  have hlt {n : ℕ} (hn : n < s.prepared) : n < (s.enqueue a o r).prepared :=
    Nat.lt_succ_of_lt hn
  refine { h with
    pending_lt := ?_, pending_inj := ?_, single := ?_, cancel := ?_, at_pending := ?_
    failed_lt := fun w hw => hlt (h.failed_lt w hw)
    returns_lt := fun x hx => hlt (h.returns_lt x hx)
    at_lt := fun c b w hc => hlt (h.at_lt c b w hc) }
  · intro e he
    rcases State.mem_pending_enqueue.mp he with rfl | he
    · exact Nat.lt_succ_self _
    · exact hlt (h.pending_lt e he)
  · -- the new ticket is above all others
    intro e he x hx hex
    rcases State.mem_pending_enqueue.mp he with rfl | he <;>
      rcases State.mem_pending_enqueue.mp hx with rfl | hx
    · rfl
    · exact absurd (h.pending_lt x hx) (by simp [← hex])
    · exact absurd (h.pending_lt e he) (by simp [hex])
    · exact h.pending_inj e he x hx hex
  · refine (((s.pending_enqueue a o r).filter _).nodup_iff).mpr ?_
    rw [List.filter_cons]
    split
    · refine List.nodup_cons.mpr ⟨fun hmem => ?_, h.single⟩
      exact lt_irrefl _ (h.pending_lt _ (List.mem_of_mem_filter hmem))
    · exact h.single
  · intro e he
    rcases State.mem_pending_enqueue.mp he with rfl | he
    · exact ho
    · exact h.cancel e he
  · intro c b w hc e he hew
    rcases State.mem_pending_enqueue.mp he with rfl | he
    · exact absurd (h.at_lt c b w hc) (by simp [← hew])
    · exact h.at_pending c b w hc e he hew

lemma fail (h : WellFormed s) {w : ℕ} (hlt : w < s.prepared)
    (hw : ∀ c a, s.status c ≠ .atEvent a w) :
    WellFormed { s with failed := w :: s.failed } := by
  refine { h with failed_lt := ?_, at_fresh := ?_ }
  · intro v hv
    rcases List.mem_cons.mp hv with rfl | hv
    · exact hlt
    · exact h.failed_lt v hv
  · intro c a v hc
    obtain ⟨hf, hr⟩ := h.at_fresh c a v hc
    refine ⟨fun hv => ?_, hr⟩
    rcases List.mem_cons.mp hv with rfl | hv
    · exact hw c a hc
    · exact hf hv

lemma setStatus (h : WellFormed s) (c : CoroId) (st : Status)
    (hst : ∀ a w, st ≠ .atEvent a w) : WellFormed (s.setStatus c st) := by
  have hold {d : CoroId} {a : Addr} {w : ℕ} (hd : (s.setStatus c st).status d = .atEvent a w) :
      s.status d = .atEvent a w := s.atEvent_of_setStatus hst hd
  exact { h with
    at_lt := fun d a w hd => h.at_lt d a w (hold hd)
    at_event := fun d a w hd => h.at_event d a w (hold hd)
    at_pending := fun d a w hd => h.at_pending d a w (hold hd)
    at_fresh := fun d a w hd => h.at_fresh d a w (hold hd)
    at_inj := fun d f a b w hd hf => h.at_inj d f a b w (hold hd) (hold hf) }

/-- Suspending `c` on the event at `a`, with a ticket nobody had. -/
lemma suspend (h : WellFormed s) {c : CoroId} {a : Addr} {w : ℕ} {ev : Event}
    (hlt : w < s.prepared) (hev : s.events a = some ev) (hco : ev.coroutine = some c)
    (hpending : ∀ e ∈ s.pending, e.request.ticket = w →
      e.userData = a ∧ ev.handler.opcode = e.request.opcode)
    (hfailed : w ∉ s.failed) (hreturns : ∀ r ∈ s.returns, r.ticket ≠ w)
    (hfree : ∀ d b, s.status d ≠ .atEvent b w) : WellFormed (s.setStatus c (.atEvent a w)) := by
  -- `c` waits at `a` now, and nobody else has changed
  have hold {d : CoroId} {b : Addr} {v : ℕ}
      (hd : (s.setStatus c (.atEvent a w)).status d = .atEvent b v) :
      (d = c ∧ b = a ∧ v = w) ∨ s.status d = .atEvent b v := by
    by_cases hdc : d = c
    · subst hdc
      left
      simpa [eq_comm] using hd
    · right
      rwa [State.setStatus_of_ne hdc] at hd
  refine { h with at_lt := ?_, at_event := ?_, at_pending := ?_, at_fresh := ?_, at_inj := ?_ }
  · intro d b v hd
    rcases hold hd with ⟨-, -, rfl⟩ | hd
    · exact hlt
    · exact h.at_lt d b v hd
  · intro d b v hd
    rcases hold hd with ⟨rfl, rfl, -⟩ | hd
    · exact ⟨ev, hev, hco⟩
    · exact h.at_event d b v hd
  · intro d b v hd e he hew
    rcases hold hd with ⟨-, rfl, rfl⟩ | hd
    · obtain ⟨hu, hop⟩ := hpending e he hew
      refine ⟨hu, fun ev' hev' => ?_⟩
      obtain rfl : ev = ev' := Option.some.inj (hev.symm.trans hev')
      exact hop
    · exact h.at_pending d b v hd e he hew
  · intro d b v hd
    rcases hold hd with ⟨-, -, rfl⟩ | hd
    · exact ⟨hfailed, hreturns⟩
    · exact h.at_fresh d b v hd
  · intro d f b b' v hd hf
    rcases hold hd with ⟨hdc, -, hvw⟩ | hd' <;> rcases hold hf with ⟨hfc, -, hvw'⟩ | hf'
    · rw [hdc, hfc]
    · exact absurd (hvw ▸ hf') (hfree f b')
    · exact absurd (hvw' ▸ hd') (hfree d b)
    · exact h.at_inj d f b b' v hd' hf'

lemma returned (h : WellFormed s) {w : ℕ} (hlt : w < s.prepared)
    (hw : ∀ c a, s.status c ≠ .atEvent a w) (hnew : ∀ r ∈ s.returns, r.ticket ≠ w) (q : Cqe)
    (v : Option (Except ℤ Value)) :
    WellFormed { s with returns := s.returns ++ [⟨w, q, v⟩] } := by
  refine { h with returns_lt := ?_, returns_nodup := ?_, at_fresh := ?_ }
  · intro r hr
    rcases List.mem_append.mp hr with hr | hr
    · exact h.returns_lt r hr
    · obtain rfl := List.mem_singleton.mp hr
      exact hlt
  · rw [List.map_append, List.map_singleton]
    refine List.nodup_append.mpr ⟨h.returns_nodup, List.nodup_singleton _, ?_⟩
    intro v hv u hu
    obtain ⟨r, hr, rfl⟩ := List.mem_map.mp hv
    obtain rfl := List.mem_singleton.mp hu
    exact hnew r hr
  · -- the await that returned is nobody's any more
    intro c a u hc
    obtain ⟨hf, hr⟩ := h.at_fresh c a u hc
    refine ⟨hf, fun r hr' => ?_⟩
    rcases List.mem_append.mp hr' with hr' | hr'
    · exact hr r hr'
    · obtain rfl := List.mem_singleton.mp hr'
      intro (hwu : w = u)
      exact hw c a (hwu ▸ hc)

lemma of_pending (h : WellFormed s) {inflight : List (Sqe Request)} {cq : List Cqe}
    (hsub : ∀ e ∈ ({ s with inflight := inflight, cq := cq } : State).pending, e ∈ s.pending)
    (hsingle : ({ s with inflight := inflight, cq := cq } : State).singleShots.Nodup) :
    WellFormed { s with inflight := inflight, cq := cq } :=
  { h with
    pending_lt := fun e he => h.pending_lt e (hsub e he)
    pending_inj := fun e he x hx => h.pending_inj e (hsub e he) x (hsub x hx)
    single := hsingle
    cancel := fun e he => h.cancel e (hsub e he)
    at_pending := fun c a w hc e he => h.at_pending c a w hc e (hsub e he) }

lemma popCq (h : WellFormed s) {q : Cqe} {cq : List Cqe} (hq : s.cq = q :: cq) :
    WellFormed { s with cq := cq } := by
  apply h.of_pending fun e => State.mem_pending_of_cq hq
  have hnodup := ((State.pending_cq hq).filter _).nodup_iff.mp h.single
  exact ((List.sublist_cons_self _ _).filter _).nodup hnodup

/-! ### Steps -/

protected lemma start : WellFormed State.start where
  close_event := ⟨Event.mk' .onClose, rfl, rfl, rfl⟩
  handler := by
    intro a e he hh
    by_contra ha
    simp [State.start, ha] at he
  pending_lt := by simp [State.start, State.pending]
  pending_inj := by simp [State.start, State.pending]
  single := by simp [State.start, State.singleShots, State.pending]
  cancel := by simp [State.start, State.pending]
  failed_lt := by simp [State.start]
  returns_lt := by simp [State.start]
  returns_nodup := by simp [State.start]
  at_lt := by simp [State.start]
  at_event := by simp [State.start]
  at_pending := by simp [State.start]
  at_fresh := by simp [State.start]
  at_inj := by simp [State.start]

/-- The event at `a` with its coroutine set, and its request in the queue. -/
lemma request (h : WellFormed s) {a : Addr} {e : Event} (he : s.events a = some e)
    (ha : a ≠ closeEvent) (hw : s.awaited a = false) (c : CoroId) (r : ℤ) :
    WellFormed
      ((s.setEvent a (some { e with coroutine := some c })).enqueue a e.handler.opcode r) := by
  -- only the event of `close` has its handler
  have hh : e.handler ≠ .onClose := fun hh => ha (h.handler a e he hh)
  have hset : WellFormed (s.setEvent a (some { e with coroutine := some c })) := by
    refine h.setEvent ha ?_ (h.not_at hw)
    intro e' he'
    obtain rfl := Option.some.inj he'
    exact hh
  refine hset.enqueue ?_ r
  exact ⟨fun ho => absurd (onClose_of_cancelFd ho) hh, fun hc => absurd hc ha⟩

/-- The handler of `q` and the `await_resume` it leads to. -/
lemma resumed (h : WellFormed s) {q : Cqe} {e eb : Event} {c : CoroId} {b : Addr} {w : ℕ}
    (he : s.events q.entry.userData = some e) (hw : s.status c = .atEvent b w)
    (hb : (s.setEvent q.entry.userData (some (e.handler.call q.res e).1)).events b = some eb) :
    WellFormed (s.resumed q e eb c b w) := by
  -- the handler and `await_resume` write results only
  have h₁ := h.setEvent_same he (call_spec e.handler q.res e).2
  have h₂ := h₁.setEvent_same hb (awaitResume_link eb)
  have h₃ := h₂.setStatus c .running (by simp)
  -- a ticket belongs to one coroutine, which now runs
  have hfree (d : CoroId) (a : Addr) :
      (((s.setEvent q.entry.userData (some (e.handler.call q.res e).1)).setEvent b
        (some (awaitResume eb).2)).setStatus c .running).status d ≠ .atEvent a w := by
    intro hd
    by_cases hdc : d = c
    · subst hdc
      simp at hd
    · rw [State.setStatus_of_ne hdc] at hd
      exact hdc (h.at_inj d c a b w hd hw)
  exact { h₃.returned (h.at_lt c b w hw) hfree (h.at_fresh c b w hw).2 q (awaitResume eb).1 with }

lemma dispatch (h : WellFormed s) {q : Cqe} {cq : List Cqe} {t : State} (hq : s.cq = q :: cq)
    (hd : DispatchMove s q cq t) : WellFormed t := by
  have hcq := h.popCq hq
  cases hd with
  | deadEvent he => exact { hcq with }
  | ignored he hr => exact hcq
  | @badResume e he hr hc =>
    exact { hcq.setEvent_same he (call_spec e.handler q.res e).2 with }
  | @resumedTask e c t he hr hc ht =>
    have hcall := hcq.setEvent_same he (call_spec e.handler q.res e).2
    exact { hcall.setStatus c .running (by simp) with }
  | resumed he hr hc hw hb => exact hcq.resumed he hw hb

/-- Every step keeps a state well formed. -/
theorem step (h : WellFormed s) {act : Action} {t : State} (hst : step s act = some t) :
    WellFormed t := by
  have hm := step_move hst
  clear hst
  cases hm with
  | start => exact { h.setStatus s.born .running (by simp) with }
  | create free hh =>
    refine h.setEvent (h.ne_closeEvent free) ?_ (h.not_at_of_none free)
    intro e' he'
    obtain rfl := Option.some.inj he'
    exact hh
  | destroy ha hw => exact h.setEvent ha (by simp) (h.not_at hw)
  | awaitNull | taskDead | closeNull => exact { h with }
  | @awaitFailed c a e r hc he ha hw free hr =>
    refine (h.request he ha hw c r).fail (Nat.lt_succ_self _) ?_
    intro d b hd
    exact absurd (h.at_lt d b _ hd) (lt_irrefl _)
  | @awaitSuspended c a e r hc he ha hw free hr hle =>
    have hreq := h.request he ha hw c r
    have hfresh (n : ℕ) (hn : n < s.prepared) : n ≠ s.prepared := Nat.ne_of_lt hn
    have hev : ((s.setEvent a (some { e with coroutine := some c })).enqueue a e.handler.opcode
        r).events a = some { e with coroutine := some c } := State.setEvent_self ..
    have hsus := hreq.suspend (w := s.prepared) (Nat.lt_succ_self _) hev rfl ?_
      (fun hf => hfresh _ (h.failed_lt _ hf) rfl) (fun x hx => hfresh _ (h.returns_lt x hx))
      (fun d b hd => hfresh _ (h.at_lt d b _ hd) rfl)
    · exact { hsus with }
    · -- the request of the new await is the only pending one with its ticket
      intro x hx hxw
      rcases State.mem_pending_enqueue.mp hx with rfl | hx
      · exact ⟨rfl, rfl⟩
      · exact absurd hxw (hfresh _ (h.pending_lt x hx))
  | @taskSuspended c t hc hlt hk ht =>
    exact { h.setStatus c (.atTask t) (by simp) with }
  | closed free hle => exact h.enqueue (by simp) _
  | @finish c hc => exact { h.setStatus c .finished (by simp) with }
  | @postFinal i e res he =>
    have hperm := State.pending_postFinal res he
    exact h.of_pending (fun x => hperm.mem_iff.mp) ((hperm.filter _).nodup_iff.mpr h.single)
  | @postMore i e res he ho =>
    have hperm := s.pending_postMore e res
    refine h.of_pending (fun x hx => ?_) ((hperm.filter _).nodup_iff.mpr ?_)
    · rcases List.mem_cons.mp (hperm.mem_iff.mp hx) with rfl | hx
      · exact State.mem_pending_of_inflight he
      · exact hx
    · -- a multishot request may be pending several times
      rw [List.filter_cons_of_neg (by simp [ho])]
      exact h.single
  | dispatch hs hq hd => exact h.dispatch hq hd

end WellFormed

/-! ## Threads -/

/-- The stack holds the running coroutines. -/
structure Threaded (s : State) : Prop where
  nodup : s.stack.Nodup
  running : ∀ c, c ∈ s.stack ↔ s.status c = .running
  unborn : ∀ c, s.born ≤ c → s.status c = .unborn

namespace Threaded
variable {s : State}

protected lemma start : Threaded State.start where
  nodup := List.nodup_nil
  running := by simp [State.start]
  unborn := fun _ _ => rfl

/-- The innermost coroutine is running. -/
lemma head (h : Threaded s) {c : CoroId} (hc : s.stack.head? = some c) :
    s.status c = .running :=
  (h.running c).mp (List.mem_of_mem_head? hc)

/-- The innermost coroutine suspends or completes. -/
lemma leave (h : Threaded s) {c : CoroId} (st : Status) (hc : s.stack.head? = some c)
    (hst : st ≠ .running) : Threaded (s.setStatus c st).pop := by
  obtain ⟨rest, hrest⟩ : ∃ rest, s.stack = c :: rest := List.head?_eq_some_iff.mp hc
  have hnodup := h.nodup
  have hrun := h.running
  rw [hrest] at hnodup hrun
  have htail : (s.setStatus c st).pop.stack = rest := by
    show s.stack.tail = rest
    rw [hrest, List.tail_cons]
  refine ⟨?_, fun d => ?_, fun d hd => ?_⟩
  · rw [htail]
    exact (List.nodup_cons.mp hnodup).2
  · rw [htail]
    by_cases hdc : d = c
    · subst hdc
      simp [State.pop, hst, (List.nodup_cons.mp hnodup).1]
    · have hd : (s.setStatus c st).pop.status d = s.status d := State.setStatus_of_ne hdc
      rw [hd, ← hrun d]
      simp [hdc]
  · -- an unborn coroutine is not the one that ran
    have hdc : d ≠ c := by
      intro hdc
      have hun := h.unborn d hd
      rw [hdc, h.head hc] at hun
      cases hun
    exact (State.setStatus_of_ne hdc).trans (h.unborn d hd)

/-- The drain loop resumes a suspended coroutine. -/
lemma resume (h : Threaded s) {c : CoroId} (hs : s.stack = []) (hc : s.status c ≠ .unborn) :
    Threaded { s.setStatus c .running with stack := [c] } := by
  refine ⟨List.nodup_singleton c, fun d => ?_, fun d hd => ?_⟩
  · by_cases hdc : d = c
    · subst hdc
      simp
    · -- the stack was empty, so nobody else runs
      have hd : s.status d ≠ .running := by
        rw [Ne, ← h.running d, hs]
        exact List.not_mem_nil
      simp [State.setStatus_of_ne hdc, hdc, hd]
  · have hdc : d ≠ c := by
      intro hdc
      exact hc (hdc ▸ h.unborn d hd)
    exact (State.setStatus_of_ne hdc).trans (h.unborn d hd)

/-- Every step keeps the stack. -/
theorem step (h : Threaded s) {act : Action} {t : State} (hst : step s act = some t) :
    Threaded t := by
  have hm := step_move hst
  clear hst
  cases hm with
  | start =>
    have hnew : s.status s.born = .unborn := h.unborn _ le_rfl
    refine ⟨List.nodup_cons.mpr ⟨?_, h.nodup⟩, fun d => ?_, fun d hd => ?_⟩
    · rw [h.running, hnew]
      simp
    · by_cases hdb : d = s.born
      · subst hdb
        simp
      · simp [State.setStatus_of_ne hdb, hdb, h.running]
    · have hdb : d ≠ s.born := Nat.ne_of_gt hd
      exact (State.setStatus_of_ne hdb).trans (h.unborn d (Nat.le_of_succ_le hd))
  | @awaitSuspended c a e r hc he ha hw free hr hle =>
    exact { h.leave (.atEvent a s.prepared) hc (by simp) with }
  | @taskSuspended c k hc hlt hk ht => exact { h.leave (.atTask k) hc (by simp) with }
  | finish hc => exact h.leave .finished hc (by simp)
  | dispatch hs hq hd =>
    cases hd with
    | @resumedTask e c k he hr hc ht =>
      have hne : s.status c ≠ .unborn := by simp [ht]
      exact { h.resume hs hne with }
    | @resumed e eb c b w he hr hc hw hb =>
      have hne : s.status c ≠ .unborn := by simp [hw]
      exact { h.resume hs hne with }
    | deadEvent | ignored | badResume => exact { h with }
  | create | destroy | awaitNull | awaitFailed | taskDead | closeNull | closed | postFinal
  | postMore => exact { h with }

end Threaded

end Zsl.Iouring
