import Zsl.Iouring.Echo
import Zsl.Lib.Reachability

/-!
# The idle monitor of the echo server

`handle_client` of the echo server runs `disconnect_if_idle` beside its loop: every three seconds
a timer of the monitor ends, and the monitor closes the socket if no message has come for more
than ten. Time is a clock that only goes on, in nanoseconds since the connection was accepted.
Each submit gets an answer, and one that is not positive is an exception; what becomes of the entry
it leaves in the queue is not followed here.

* `IdleState`: the two coroutines, what they share, and the messages so far;
* `idle δ`: the two coroutines on a ring that resumes the monitor at most `δ` after its timer;
* `IdleInv`: what the monitor knows of the messages;
* `idle_window`, `idle_checks`: when the monitor closes the connection, and how often it looks;
* `idle_await`: what the `co_await` of the monitor behind the loop meets.
-/

namespace Zsl.Iouring

/-- Where `handle_client` is. -/
inductive HandlerPhase where
  | receiving
  | sending
  /-- suspended in a send whose completion its handler has dropped -/
  | hung
  /-- suspended in `co_await dii` -/
  | awaiting
  /-- in `co_await dii` of a monitor that has completed, whose promise is gone -/
  | deadPromise
  /-- ended by the exception of a submit, with all its variables -/
  | threw
deriving DecidableEq, Repr

/-- Where `disconnect_if_idle` is. -/
inductive MonitorPhase where
  /-- suspended in a timer that ends at `due` -/
  | waiting (due : ℕ)
  | finished
  /-- ended by the exception of a submit -/
  | threw
  /-- with references to the variables of a `handle_client` that has ended -/
  | dangling
deriving DecidableEq, Repr

/-- Seconds, on the clock. -/
def seconds (n : ℕ) : ℕ := n * 1000000000

structure IdleState where
  now : ℕ
  handler : HandlerPhase
  monitor : MonitorPhase
  lastMessageTime : ℕ
  stopped : Bool
  /-- the socket has no descriptor any more -/
  closed : Bool
  /-- when the messages came, the latest first -/
  messages : List ℕ
  /-- the timers since the last message at which the monitor did not close the connection -/
  checks : ℕ
deriving DecidableEq, Repr

/-- Where a submit that answers `r` leads to. -/
def submitted {P : Type} (r : ℤ) (phase threw : P) : P := if 0 < r then phase else threw

namespace IdleState

/-- `handle_client` up to its first `recv`, with the monitor in its first timer. -/
protected def start (timer recv : ℤ) : IdleState where
  now := 0
  handler := submitted recv .receiving .threw
  monitor := submitted timer (.waiting (seconds 3)) .threw
  lastMessageTime := 0
  stopped := false
  closed := false
  messages := []
  checks := 0

/-- Behind the loop of `handle_client`. -/
def awaitMonitor (s : IdleState) : IdleState :=
  match s.monitor with
  | .waiting _ => { s with handler := .awaiting }
  | _ => { s with handler := .deadPromise }

/-- The loop of `handle_client` after `co_await cs.recv(buffer)`, up to the submit of its send. -/
def received (s : IdleState) (r : ℤ) : Option (Except ℤ Value) → IdleState
  | none => { s with handler := .hung }
  | some (.error _) => s.awaitMonitor
  | some (.ok _) => { s with
      handler := submitted r .sending .threw
      lastMessageTime := s.now
      messages := s.now :: s.messages
      checks := 0 }

/-- The loop of `handle_client` after `co_await cs.send(data)`, up to the submit of its receive. -/
def sent (s : IdleState) (r : ℤ) : Option (Except ℤ Value) → IdleState
  | none => { s with handler := .hung }
  | some (.error _) => s.awaitMonitor
  | some (.ok _) =>
    if s.stopped then s.awaitMonitor
    else { s with handler := submitted r .receiving .threw }

/-- `cs.close()`, and the end of the monitor. -/
def close (s : IdleState) (r : ℤ) : IdleState :=
  if s.closed then { s with monitor := .finished }
  else if 0 < r then { s with closed := true, monitor := .finished }
  else { s with monitor := .threw }

/-- The loop of `disconnect_if_idle` after its timer, up to the submit of the close or of the next
timer. -/
def timedOut (s : IdleState) (r : ℤ) : IdleState :=
  if s.handler = .threw then
    -- `lastMessageTime` and `stopped` are gone
    { s with monitor := .dangling }
  else if s.lastMessageTime + seconds 10 < s.now then
    { s with stopped := true }.close r
  else
    { s with
      monitor := submitted r (.waiting (s.now + seconds 3)) .threw
      checks := s.checks + 1 }

end IdleState

/-- What can happen. The answer `r` is that of the submit that follows, if there is one. -/
inductive IdleAction where
  /-- time goes on -/
  | tick (d : ℕ)
  /-- a receive or a send completes -/
  | recv (res r : ℤ)
  | send (res r : ℤ)
  /-- the timer of the monitor ends -/
  | timer (r : ℤ)
deriving DecidableEq, Repr

/-- What each action does, if it is possible in `s`. -/
def idleStep (δ : ℕ) (s : IdleState) : IdleAction → Option IdleState
  | .tick d =>
    match s.monitor with
    | .waiting due => if s.now + d ≤ due + δ then some { s with now := s.now + d } else none
    | _ => some { s with now := s.now + d }
  | .recv res r =>
    if s.handler = .receiving then some (s.received r (coAwait .onRecv res)) else none
  | .send res r =>
    if s.handler = .sending then some (s.sent r (coAwait .onSend res)) else none
  | .timer r =>
    match s.monitor with
    | .waiting due => if due ≤ s.now then some (s.timedOut r) else none
    | _ => none

/-- `handle_client` and its monitor, with the answers of their first submits. -/
def idle (δ : ℕ) (timer recv : ℤ) : Lib.System IdleState IdleAction :=
  ⟨IdleState.start timer recv, idleStep δ⟩

/-! ## Moves -/

/-- What a step does. -/
inductive IdleMove (δ : ℕ) (s : IdleState) : IdleAction → IdleState → Prop
  | tick {d : ℕ} (hdue : ∀ due, s.monitor = .waiting due → s.now + d ≤ due + δ) :
      IdleMove δ s (.tick d) { s with now := s.now + d }
  | received {res r : ℤ} (hh : s.handler = .receiving) (hres : 0 < res) :
      IdleMove δ s (.recv res r) { s with
        handler := submitted r .sending .threw
        lastMessageTime := s.now
        messages := s.now :: s.messages
        checks := 0 }
  | failed {res r : ℤ} (hh : s.handler = .receiving) (hres : res ≤ 0) :
      IdleMove δ s (.recv res r) s.awaitMonitor
  | dropped {res r : ℤ} (hh : s.handler = .sending) (hres : res ≤ 0) :
      IdleMove δ s (.send res r) { s with handler := .hung }
  | sent {res r : ℤ} (hh : s.handler = .sending) (hres : 0 < res) (hs : s.stopped = false) :
      IdleMove δ s (.send res r) { s with handler := submitted r .receiving .threw }
  | left {res r : ℤ} (hh : s.handler = .sending) (hres : 0 < res) (hs : s.stopped = true) :
      IdleMove δ s (.send res r) s.awaitMonitor
  | gone {due : ℕ} {r : ℤ} (hm : s.monitor = .waiting due) (hh : s.handler = .threw) :
      IdleMove δ s (.timer r) { s with monitor := .dangling }
  | closes {due : ℕ} {r : ℤ} (hm : s.monitor = .waiting due) (hh : s.handler ≠ .threw)
      (hidle : s.lastMessageTime + seconds 10 < s.now) :
      IdleMove δ s (.timer r) ({ s with stopped := true }.close r)
  | again {due : ℕ} {r : ℤ} (hm : s.monitor = .waiting due) (hle : due ≤ s.now)
      (hh : s.handler ≠ .threw) (hidle : ¬ s.lastMessageTime + seconds 10 < s.now) :
      IdleMove δ s (.timer r) { s with
        monitor := submitted r (.waiting (s.now + seconds 3)) .threw
        checks := s.checks + 1 }

section
variable {δ : ℕ} {s t : IdleState} {act : IdleAction}

lemma idleMove_recv (hh : s.handler = .receiving) (res r : ℤ) :
    IdleMove δ s (.recv res r) (s.received r (coAwait .onRecv res)) := by
  by_cases hres : 0 < res
  · rw [coAwait_onRecv_of_pos hres]
    exact .received hh hres
  · rw [coAwait_onRecv_of_not hres]
    exact .failed hh (Int.not_lt.mp hres)

lemma idleMove_send (hh : s.handler = .sending) (res r : ℤ) :
    IdleMove δ s (.send res r) (s.sent r (coAwait .onSend res)) := by
  by_cases hres : 0 < res
  · rw [coAwait_onSend_of_pos hres, IdleState.sent]
    split
    · next hs => exact .left hh hres hs
    · next hs => exact .sent hh hres (Bool.eq_false_iff.mpr hs)
  · rw [coAwait_onSend_of_not hres]
    exact .dropped hh (Int.not_lt.mp hres)

lemma idleMove_timer {due : ℕ} (hm : s.monitor = .waiting due) (hle : due ≤ s.now) (r : ℤ) :
    IdleMove δ s (.timer r) (s.timedOut r) := by
  unfold IdleState.timedOut
  split
  · next hh => exact .gone hm hh
  · next hh =>
    split
    · next hidle => exact .closes hm hh hidle
    · next hidle => exact .again hm hle hh hidle

theorem idleStep_move (h : idleStep δ s act = some t) : IdleMove δ s act t := by
  unfold idleStep at h
  cases act with
  | tick d =>
    dsimp only at h
    split at h
    · next due hm =>
      obtain ⟨hle, h⟩ := Option.ite_none_right_eq_some.mp h
      obtain rfl := Option.some.inj h
      apply IdleMove.tick
      intro due' hm'
      obtain rfl := MonitorPhase.waiting.inj (hm.symm.trans hm')
      exact hle
    · next hm =>
      obtain rfl := Option.some.inj h
      apply IdleMove.tick
      intro due' hm'
      exact absurd hm' (hm due')
  | recv res r =>
    obtain ⟨hh, h⟩ := Option.ite_none_right_eq_some.mp h
    obtain rfl := Option.some.inj h
    exact idleMove_recv hh res r
  | send res r =>
    obtain ⟨hh, h⟩ := Option.ite_none_right_eq_some.mp h
    obtain rfl := Option.some.inj h
    exact idleMove_send hh res r
  | timer r =>
    dsimp only at h
    split at h
    · next due hm =>
      obtain ⟨hle, h⟩ := Option.ite_none_right_eq_some.mp h
      obtain rfl := Option.some.inj h
      exact idleMove_timer hm hle r
    · cases h

end

/-! ## What the monitor knows -/

namespace IdleState

/-- When the last message came or, before the first, the connection. -/
def lastMessage (s : IdleState) : ℕ := s.messages.headD 0

lemma awaitMonitor_eq (s : IdleState) :
    s.awaitMonitor = { s with handler := s.awaitMonitor.handler } := by
  unfold awaitMonitor
  split <;> rfl

/-- The close of the monitor, which no other has preceded. -/
lemma stopped_close {s : IdleState} (hc : s.closed = false) (r : ℤ) :
    { s with stopped := true }.close r =
      if 0 < r then { s with stopped := true, closed := true, monitor := .finished }
      else { s with stopped := true, monitor := .threw } := by
  unfold close
  exact if_neg (by rw [hc]; decide)

end IdleState

section
variable {P : Type} {r : ℤ} {phase threw p : P}

lemma submitted_of_pos (hr : 0 < r) : submitted r phase threw = phase := if_pos hr

lemma of_submitted (h : submitted r phase threw = p) (hne : threw ≠ p) : phase = p := by
  unfold submitted at h
  split at h
  · exact h
  · exact absurd h hne

end

/-- What a pending timer says of the time and the last message. -/
structure TimerInv (δ : ℕ) (s : IdleState) (due : ℕ) : Prop where
  stopped : s.stopped = false
  closed : s.closed = false
  now_le : s.now ≤ due + δ
  due_le : due ≤ s.lastMessageTime + seconds 13
  checks : 0 < s.checks → s.lastMessageTime + s.checks * seconds 3 ≤ due

/-- What holds in every state. -/
structure IdleInv (δ : ℕ) (s : IdleState) : Prop where
  last_le : s.lastMessageTime ≤ s.now
  last_eq : s.lastMessageTime = s.lastMessage
  waiting : ∀ due, s.monitor = .waiting due → TimerInv δ s due
  finished : s.monitor = .finished → s.stopped = true ∧ s.closed = true
  threw : s.monitor = .threw → s.closed = false
  dangling : s.monitor = .dangling → s.closed = false ∧ s.handler = .threw
  checks : s.checks ≤ 4

namespace IdleInv
variable {δ : ℕ} {s t : IdleState} {act : IdleAction}

protected lemma start (δ : ℕ) (timer recv : ℤ) : IdleInv δ (.start timer recv) where
  last_le := le_rfl
  last_eq := rfl
  waiting due hm := by
    obtain rfl := MonitorPhase.waiting.inj (of_submitted hm (by simp))
    refine ⟨rfl, rfl, Nat.zero_le _, ?_, fun hpos => absurd hpos (Nat.lt_irrefl 0)⟩
    show seconds 3 ≤ 0 + seconds 13
    decide
  finished hm := by cases of_submitted hm (by simp)
  threw _ := rfl
  dangling hm := by cases of_submitted hm (by simp)
  checks := Nat.zero_le _

/-- As long as `handle_client` has not ended, the monitor has not outlived it. -/
lemma not_dangling (h : IdleInv δ s) (hh : s.handler ≠ .threw) : s.monitor ≠ .dangling :=
  fun hm => hh (h.dangling hm).2

/-- What does not touch the clock, the monitor and what they share. -/
lemma handler (h : IdleInv δ s) (hh : s.handler ≠ .threw) (phase : HandlerPhase) :
    IdleInv δ { s with handler := phase } where
  last_le := h.last_le
  last_eq := h.last_eq
  waiting due hm :=
    let ⟨hstopped, hclosed, hnow, hdue, hchecks⟩ := h.waiting due hm
    ⟨hstopped, hclosed, hnow, hdue, hchecks⟩
  finished := h.finished
  threw := h.threw
  dangling hm := absurd hm (h.not_dangling hh)
  checks := h.checks

lemma awaitMonitor (h : IdleInv δ s) (hh : s.handler ≠ .threw) : IdleInv δ s.awaitMonitor := by
  rw [IdleState.awaitMonitor_eq]
  exact h.handler hh _

lemma tick (h : IdleInv δ s) {d : ℕ}
    (hdue : ∀ due, s.monitor = .waiting due → s.now + d ≤ due + δ) :
    IdleInv δ { s with now := s.now + d } where
  last_le := Nat.le_add_right_of_le h.last_le
  last_eq := h.last_eq
  waiting due hm :=
    ⟨(h.waiting due hm).stopped, (h.waiting due hm).closed, hdue due hm, (h.waiting due hm).due_le,
      (h.waiting due hm).checks⟩
  finished := h.finished
  threw := h.threw
  dangling := h.dangling
  checks := h.checks

/-- A message starts the ten seconds anew. -/
lemma received (h : IdleInv δ s) (hh : s.handler ≠ .threw) (phase : HandlerPhase) :
    IdleInv δ { s with
      handler := phase
      lastMessageTime := s.now
      messages := s.now :: s.messages
      checks := 0 } where
  last_le := le_rfl
  last_eq := rfl
  waiting due hm := by
    obtain ⟨hstopped, hclosed, hnow, hdue, -⟩ := h.waiting due hm
    have hlater := Nat.le_trans hdue (Nat.add_le_add_right h.last_le _)
    exact ⟨hstopped, hclosed, hnow, hlater, fun hpos => absurd hpos (Nat.lt_irrefl 0)⟩
  finished := h.finished
  threw := h.threw
  dangling hm := absurd hm (h.not_dangling hh)
  checks := Nat.zero_le _

/-- The monitor ends. -/
lemma closes (h : IdleInv δ s) {due : ℕ} (hm : s.monitor = .waiting due) (r : ℤ) :
    IdleInv δ ({ s with stopped := true }.close r) := by
  have hclosed := (h.waiting due hm).closed
  rw [IdleState.stopped_close hclosed]
  split
  · exact ⟨h.last_le, h.last_eq, by simp, fun _ => ⟨rfl, rfl⟩, by simp, by simp, h.checks⟩
  · exact ⟨h.last_le, h.last_eq, by simp, by simp, fun _ => hclosed, by simp, h.checks⟩

/-- A timer that does not close the connection is followed by another one. -/
lemma again (h : IdleInv δ s) {due : ℕ} (hm : s.monitor = .waiting due) (hle : due ≤ s.now)
    (hidle : ¬ s.lastMessageTime + seconds 10 < s.now) (r : ℤ) :
    IdleInv δ { s with
      monitor := submitted r (.waiting (s.now + seconds 3)) .threw
      checks := s.checks + 1 } := by
  obtain ⟨hstopped, hclosed, -, -, hdue⟩ := h.waiting due hm
  have hlast := h.last_le
  have hchecks := h.checks
  unfold seconds at *
  refine ⟨hlast, h.last_eq, fun due' hm' => ?_, fun hm' => ?_, fun _ => hclosed, fun hm' => ?_, ?_⟩
  · obtain rfl := MonitorPhase.waiting.inj (of_submitted hm' (by simp))
    refine ⟨hstopped, hclosed, ?_, ?_, ?_⟩ <;> dsimp only [seconds] <;> omega
  · cases of_submitted hm' (by simp)
  · cases of_submitted hm' (by simp)
  · dsimp only
    omega

theorem step (h : IdleInv δ s) (hm : IdleMove δ s act t) : IdleInv δ t := by
  cases hm with
  | tick hdue => exact h.tick hdue
  | received hh => exact h.received (by rw [hh]; decide) _
  | failed hh => exact h.awaitMonitor (by rw [hh]; decide)
  | dropped hh => exact h.handler (by rw [hh]; decide) _
  | sent hh => exact h.handler (by rw [hh]; decide) _
  | left hh => exact h.awaitMonitor (by rw [hh]; decide)
  | @gone due r hm hh =>
    have hclosed := (h.waiting due hm).closed
    exact ⟨h.last_le, h.last_eq, by simp, by simp, by simp, fun _ => ⟨hclosed, hh⟩, h.checks⟩
  | closes hm => exact h.closes hm _
  | again hm hle hh hidle => exact h.again hm hle hidle _

end IdleInv

/-! ## The ten seconds -/

/-- The answer of the submit with which `handle_client` goes on in its loop. -/
def IdleState.handlerAnswer (s : IdleState) : IdleAction → Option ℤ
  | .recv res r => if 0 < res then some r else none
  | .send res r => if 0 < res ∧ s.stopped = false then some r else none
  | _ => none

namespace IdleInv
variable {δ : ℕ} {s t : IdleState} {act : IdleAction} {r : ℤ}

/-- As long as the monitor waits, so long ago at most was the last message. -/
lemma now_le (h : IdleInv δ s) {due : ℕ} (hm : s.monitor = .waiting due) :
    s.now ≤ s.lastMessage + seconds 13 + δ := by
  obtain ⟨-, -, hnow, hdue, -⟩ := h.waiting due hm
  rw [← h.last_eq]
  omega

end IdleInv

/-- After a message, at most four timers of the monitor find a connection that is not to be closed
yet. -/
theorem idle_checks (δ : ℕ) (timer recv : ℤ) (acts : List IdleAction) :
    (idle δ timer recv).Steps (fun _ _ t => t.checks ≤ 4) (idle δ timer recv).start acts := by
  apply Lib.System.steps_of_inductive (IdleInv δ) _ (.start δ timer recv)
  intro s act t h hst
  have ht := h.step (idleStep_move hst)
  exact ⟨ht.checks, ht⟩

/-! ## The end of the loop -/

/-- The loop of `handle_client` ends: with a receive that returns an error or with a send, once the
monitor has set `stopped`. -/
def LoopEnds (s : IdleState) : IdleAction → Prop
  | .recv res _ => res ≤ 0
  | .send res _ => 0 < res ∧ s.stopped = true
  | _ => False

/-- The monitor has completed: it has closed the connection, or a submit of it has failed. -/
def MonitorGone (s : IdleState) : Prop := s.closed = true ∨ s.monitor = .threw

/-- `handle_client` is in its `co_await` of the monitor. -/
def HandlerPhase.Awaits (phase : HandlerPhase) : Prop := phase = .awaiting ∨ phase = .deadPromise

namespace IdleInv
variable {δ : ℕ} {s t : IdleState} {act : IdleAction}

lemma awaitMonitor_iff (h : IdleInv δ s) (hh : s.handler ≠ .threw) :
    (s.awaitMonitor.handler = .deadPromise ↔ MonitorGone s) ∧
      (s.awaitMonitor.handler = .awaiting ↔ ¬ MonitorGone s) := by
  unfold IdleState.awaitMonitor MonitorGone
  cases hm : s.monitor with
  | waiting due => simp [(h.waiting due hm).closed]
  | finished => simp [(h.finished hm).2]
  | threw => simp
  | dangling => exact absurd hm (h.not_dangling hh)

/-- A monitor that has set `stopped` has completed. -/
lemma monitorGone (h : IdleInv δ s) (hh : s.handler ≠ .threw) (hs : s.stopped = true) :
    MonitorGone s := by
  cases hm : s.monitor with
  | waiting due =>
    have hopen := (h.waiting due hm).stopped
    rw [hs] at hopen
    cases hopen
  | finished => exact .inl (h.finished hm).2
  | threw => exact .inr hm
  | dangling => exact absurd hm (h.not_dangling hh)

/-- The step that ends the loop leads to the `co_await`. -/
lemma loopEnds (h : IdleInv δ s) (hm : IdleMove δ s act t) (he : LoopEnds s act) :
    (t.handler = .deadPromise ↔ MonitorGone s) ∧ (t.handler = .awaiting ↔ ¬ MonitorGone s) := by
  cases hm with
  | @received res r hh hres => exact absurd hres (Int.not_lt.mpr he)
  | failed hh => exact h.awaitMonitor_iff (by rw [hh]; decide)
  | @dropped res r hh hres => exact absurd he.1 (Int.not_lt.mpr hres)
  | sent hh hres hs => exact absurd (hs.symm.trans he.2) (by decide)
  | left hh => exact h.awaitMonitor_iff (by rw [hh]; decide)
  | _ => exact he.elim

/-- And no other step does. -/
lemma awaits_of_not_loopEnds (h : IdleInv δ s) (hm : IdleMove δ s act t) (he : ¬ LoopEnds s act)
    (ht : t.handler.Awaits) : t.handler = s.handler := by
  have hsubmitted {r : ℤ} {phase : HandlerPhase} (hp : ¬ phase.Awaits) :
      ¬ (submitted r phase HandlerPhase.threw).Awaits := by
    unfold submitted
    split
    · exact hp
    · simp [HandlerPhase.Awaits]
  cases hm with
  | tick => rfl
  | received => exact absurd ht (hsubmitted (by simp [HandlerPhase.Awaits]))
  | failed hh hres => exact absurd hres he
  | dropped => simp [HandlerPhase.Awaits] at ht
  | sent => exact absurd ht (hsubmitted (by simp [HandlerPhase.Awaits]))
  | left hh hres hs => exact absurd ⟨hres, hs⟩ he
  | gone => rfl
  | @closes due r hm hh hidle =>
    rw [IdleState.stopped_close (h.waiting due hm).closed]
    split <;> rfl
  | again => rfl

/-- As long as the loop goes on, receives and sends alternate. -/
lemma alternates (hm : IdleMove δ s act t) {r : ℤ} (ha : s.handlerAnswer act = some r)
    (hr : 0 < r) : s.handler = .receiving ∧ t.handler = .sending ∨
      s.handler = .sending ∧ t.handler = .receiving := by
  cases hm with
  | @received res r' hh hres =>
    obtain rfl : r' = r := by simpa [IdleState.handlerAnswer, hres] using ha
    exact .inl ⟨hh, submitted_of_pos hr⟩
  | failed hh hres => simp [IdleState.handlerAnswer, Int.not_lt.mpr hres] at ha
  | dropped hh hres => simp [IdleState.handlerAnswer, Int.not_lt.mpr hres] at ha
  | @sent res r' hh hres hs =>
    obtain rfl : r' = r := by simpa [IdleState.handlerAnswer, hres, hs] using ha
    exact .inr ⟨hh, submitted_of_pos hr⟩
  | left hh hres hs => simp [IdleState.handlerAnswer, hs] at ha
  | _ => cases ha

/-- Nothing resumes `handle_client` there, or from a send whose completion was dropped: not the end
of the monitor either. -/
lemma handler_eq_of_awaits (h : IdleInv δ s) (hm : IdleMove δ s act t)
    (hs : s.handler.Awaits ∨ s.handler = .hung) : t.handler = s.handler := by
  cases hm with
  | received hh => simp [HandlerPhase.Awaits, hh] at hs
  | failed hh => simp [HandlerPhase.Awaits, hh] at hs
  | dropped hh => simp [HandlerPhase.Awaits, hh] at hs
  | sent hh => simp [HandlerPhase.Awaits, hh] at hs
  | left hh => simp [HandlerPhase.Awaits, hh] at hs
  | @closes due r hm hh hidle =>
    rw [IdleState.stopped_close (h.waiting due hm).closed]
    split <;> rfl
  | _ => rfl

end IdleInv

/-- Receives and sends alternate until the loop of `handle_client` ends, in a `co_await` of the
monitor, for good: of a completed one, whose promise is gone, exactly if the monitor has closed
the connection or was ended by a submit that failed, and so whenever it was `stopped` that ended
the loop. A send that fails leaves `handle_client` suspended for good, still in its loop. -/
theorem idle_await (δ : ℕ) (timer recv : ℤ) (acts : List IdleAction) :
    (idle δ timer recv).Steps
      (fun s act t =>
        (∀ r, s.handlerAnswer act = some r → 0 < r →
          s.handler = .receiving ∧ t.handler = .sending ∨
            s.handler = .sending ∧ t.handler = .receiving) ∧
        (LoopEnds s act →
          (t.handler = .deadPromise ↔ MonitorGone s) ∧ (t.handler = .awaiting ↔ ¬ MonitorGone s)) ∧
        (∀ res r, act = .send res r → LoopEnds s act → t.handler = .deadPromise) ∧
        (¬ LoopEnds s act → t.handler.Awaits → t.handler = s.handler) ∧
        (∀ res r, act = .send res r → res ≤ 0 → t.handler = .hung) ∧
        (s.handler.Awaits ∨ s.handler = .hung → t.handler = s.handler))
      (idle δ timer recv).start acts := by
  apply Lib.System.steps_of_inductive (IdleInv δ) _ (.start δ timer recv)
  intro s act t h hst
  have hm := idleStep_move hst
  refine ⟨⟨fun r => IdleInv.alternates hm, h.loopEnds hm, fun res r hact he => ?_,
    h.awaits_of_not_loopEnds hm, fun res r hact hres => ?_, h.handler_eq_of_awaits hm⟩,
    h.step hm⟩
  · apply (h.loopEnds hm he).1.mpr
    subst hact
    cases hm with
    | dropped hh hres => exact absurd he.1 (Int.not_lt.mpr hres)
    | sent hh hres hs => exact absurd (hs.symm.trans he.2) (by decide)
    | left hh hres hs => exact h.monitorGone (by rw [hh]; decide) hs
  · subst hact
    cases hm with
    | dropped => rfl
    | sent hh hpos => exact absurd hpos (Int.not_lt.mpr hres)
    | left hh hpos => exact absurd hpos (Int.not_lt.mpr hres)

/-- The submit of the second timer fails, and then the client closes the connection. -/
example : ((idle 0 1 1).run (idle 0 1 1).start [.tick (seconds 3), .timer 0, .recv 0 1]).map
    (fun s => (s.handler, s.closed)) = some (.deadPromise, false) := by decide

end Zsl.Iouring
