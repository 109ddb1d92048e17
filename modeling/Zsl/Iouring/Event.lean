import Zsl.Iouring.SubmissionQueue

/-!
# Events and their handlers

An `event_t` is the user data of a request: the handler the drain loop calls on a
completion, and the coroutine to resume. Each awaitable of the library extends it with the
result its `await_resume` hands to the coroutine. The handlers are pure here: they return
the event with its result set, and whether they resume the coroutine.
-/

namespace Zsl.Iouring

/-- A `std::coroutine_handle`: the identity of a coroutine frame. -/
abbrev CoroId : Type := ℕ

/-- The handlers the library installs. `onClose` is the lambda of `socket_t::close`. -/
inductive Handler where
  | onTimeout
  | onConnect
  | onSend
  | onRecv
  | onAccept
  | onClose
deriving DecidableEq, Repr

/-- The requests the library prepares, by their prep functions. -/
inductive Opcode where
  | timeout
  | connect
  | send
  | recv
  | multishotAccept
  | cancelFd
deriving DecidableEq, Repr

/-- The prep function in `submit()` of the awaitable with this handler. -/
def Handler.opcode : Handler → Opcode
  | .onTimeout => .timeout
  | .onConnect => .connect
  | .onSend => .send
  | .onRecv => .recv
  | .onAccept => .multishotAccept
  | .onClose => .cancelFd

/-- The value in a `connect_result_t`, `send_result_t`, `recv_result_t` or
`accept_result_t`. -/
inductive Value where
  | status (succeeded : Bool)
  | bytes (n : ℤ)
  | socket (fd : ℤ)
deriving DecidableEq, Repr

/-- An event with the response of its awaitable; `timer_event_t` has no result. -/
structure Event where
  handler : Handler
  coroutine : Option CoroId
  result : Except ℤ Value
deriving DecidableEq

/-- What a request relies on: the handler and the coroutine of its event. -/
def Event.link (e : Event) : Handler × Option CoroId := (e.handler, e.coroutine)

/-- An event as its awaitable is constructed. -/
def Event.mk' (h : Handler) : Event := ⟨h, none, .error (-1)⟩

/-! ## Handlers -/

/-- `scheduler_t::on_timeout`. -/
def onTimeout (_res : ℤ) (e : Event) : Event × Bool := (e, true)

/-- `socket_t::on_connect`. -/
def onConnect (res : ℤ) (e : Event) : Event × Bool :=
  if res = 0 then ({ e with result := .ok (.status true) }, true)
  else ({ e with result := .ok (.status false) }, true)

/-- `socket_t::on_send`: only a positive result code is handled. -/
def onSend (res : ℤ) (e : Event) : Event × Bool :=
  if res > 0 then ({ e with result := .ok (.bytes res) }, true)
  else (e, false)

/-- `socket_t::on_recv`. -/
def onRecv (res : ℤ) (e : Event) : Event × Bool :=
  if res > 0 then ({ e with result := .ok (.bytes res) }, true)
  else if res = 0 then ({ e with result := .error res }, true)
  else ({ e with result := .error res }, true)

/-- `acceptor_t::on_accept`: only a positive descriptor is handled. -/
def onAccept (res : ℤ) (e : Event) : Event × Bool :=
  if res > 0 then ({ e with result := .ok (.socket res) }, true)
  else (e, false)

/-- The handler of `close_event_t`. -/
def onClose (_res : ℤ) (e : Event) : Event × Bool := (e, false)

/-- `e.handler_(cqe, e)`. -/
def Handler.call (h : Handler) : ℤ → Event → Event × Bool :=
  match h with
  | .onTimeout => Iouring.onTimeout
  | .onConnect => Iouring.onConnect
  | .onSend => Iouring.onSend
  | .onRecv => Iouring.onRecv
  | .onAccept => Iouring.onAccept
  | .onClose => Iouring.onClose

/-- `ring_awaitable_t::await_resume`: the value it returns, if `T` is not `void`, and the
event with its result exchanged. -/
def awaitResume (e : Event) : Option (Except ℤ Value) × Event :=
  if e.handler = .onTimeout then (none, e) else (some e.result, { e with result := .error (-1) })

lemma awaitResume_link (e : Event) : (awaitResume e).2.link = e.link := by
  unfold awaitResume
  split <;> rfl

/-! ## What the handlers have in common -/

/-- The result codes on which the handler of a request resumes the coroutine. -/
def Opcode.resumes : Opcode → ℤ → Bool
  | .send, res => 0 < res
  | .multishotAccept, res => 0 < res
  | .cancelFd, _ => false
  | _, _ => true

/-- What a `co_await` is to return for the result code of its own completion. -/
def Opcode.outcome : Opcode → ℤ → Option (Except ℤ Value)
  | .connect, res => some (.ok (.status (res = 0)))
  | .send, res => some (if res < 0 then .error res else .ok (.bytes res))
  | .recv, res => some (if res > 0 then .ok (.bytes res) else .error res)
  | .multishotAccept, res => some (if res < 0 then .error res else .ok (.socket res))
  | _, _ => none

/-- A handler only writes the result of its event, and resumes by its request's rule. -/
lemma call_spec (h : Handler) (res : ℤ) (e : Event) :
    (h.call res e).2 = h.opcode.resumes res ∧ (h.call res e).1.link = e.link := by
  cases h
  case onTimeout => exact ⟨rfl, rfl⟩
  case onClose => exact ⟨rfl, rfl⟩
  case onConnect =>
    by_cases hr : res = 0 <;>
      simp [Handler.call, onConnect, Handler.opcode, Opcode.resumes, Event.link, hr]
  case onSend =>
    by_cases hr : res > 0 <;>
      simp [Handler.call, onSend, Handler.opcode, Opcode.resumes, Event.link, hr]
  case onRecv =>
    by_cases hr : res > 0 <;> by_cases hz : res = 0 <;>
      simp [Handler.call, onRecv, Handler.opcode, Opcode.resumes, Event.link, hr, hz]
  case onAccept =>
    by_cases hr : res > 0 <;>
      simp [Handler.call, onAccept, Handler.opcode, Opcode.resumes, Event.link, hr]

/-- A handler that does not resume leaves its event as it is. -/
lemma call_of_not_resumes {e : Event} {res : ℤ} (h : e.handler.opcode.resumes res = false) :
    (e.handler.call res e).1 = e := by
  obtain ⟨handler, coroutine, result⟩ := e
  cases handler
  case onClose => rfl
  -- `on_send` and `on_accept` return at once on the other codes
  case onSend =>
    have hr : ¬ res > 0 := by simpa [Handler.opcode, Opcode.resumes] using h
    simp [Handler.call, onSend, hr]
  case onAccept =>
    have hr : ¬ res > 0 := by simpa [Handler.opcode, Opcode.resumes] using h
    simp [Handler.call, onAccept, hr]
  all_goals simp [Handler.opcode, Opcode.resumes] at h

lemma onClose_of_cancelFd {h : Handler} (hh : h.opcode = .cancelFd) : h = .onClose := by
  cases h <;> simp_all [Handler.opcode]

/-- A coroutine that is resumed by a handler gets what the result code says, whatever the
event held before. -/
theorem awaitResume_call {e : Event} {res : ℤ} (h : e.handler.opcode.resumes res = true) :
    (awaitResume (e.handler.call res e).1).1 = e.handler.opcode.outcome res := by
  obtain ⟨handler, coroutine, result⟩ := e
  cases handler
  case onTimeout => rfl
  case onClose => simp [Handler.opcode, Opcode.resumes] at h
  -- the other handlers have just written the result that `await_resume` takes out
  case onConnect =>
    by_cases hr : res = 0 <;>
      simp [Handler.call, onConnect, awaitResume, Handler.opcode, Opcode.outcome, hr]
  case onSend =>
    have hr : 0 < res := by simpa [Handler.opcode, Opcode.resumes] using h
    have hneg : ¬ res < 0 := by omega
    simp [Handler.call, onSend, awaitResume, Handler.opcode, Opcode.outcome, hr, hneg]
  case onRecv =>
    by_cases hr : res > 0 <;> by_cases hz : res = 0 <;>
      simp [Handler.call, onRecv, awaitResume, Handler.opcode, Opcode.outcome, hr, hz]
  case onAccept =>
    have hr : 0 < res := by simpa [Handler.opcode, Opcode.resumes] using h
    have hneg : ¬ res < 0 := by omega
    simp [Handler.call, onAccept, awaitResume, Handler.opcode, Opcode.outcome, hr, hneg]

end Zsl.Iouring
