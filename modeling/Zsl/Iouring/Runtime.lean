import Zsl.Iouring.Event
import Zsl.Lib.Runs
import Mathlib.Logic.Function.Basic

/-!
# Coroutines on a ring

The system of one thread: coroutines that start one another, `co_await` each other's
`awaitable_t` and the awaitables of the library, and close sockets; the kernel, which
completes requests in any order with any result codes; and the drain loop, which hands the
completions to the handlers of their events.

* `State`: the coroutines, the events, the submission and completion queues, and the logs
  of failed and returned awaits the results are stated with;
* `State.awaitSuspend`, `State.close`, `State.taskAwaitSuspend`, `State.finalSuspend`,
  `State.handle`: what the library does at each of its entry points;
* `step`: the actions a program, the kernel and the drain loop can take, and `runtime`,
  the system they make.

Every co_await of a ring awaitable has a ticket, the number of requests prepared before
its own, so that two awaits of one event can be told apart.
-/

namespace Zsl.Iouring

/-! ## States -/

/-- Where a coroutine is. A finished one has let `final_suspend` destroy its frame. -/
inductive Status where
  | unborn
  | running
  | atEvent (a : Addr) (ticket : ℕ)
  | atTask (task : CoroId)
  | finished
deriving DecidableEq, Repr

/-- What a prep function wrote into its entry, with the ticket of the await. -/
structure Request where
  opcode : Opcode
  ticket : ℕ
deriving DecidableEq, Repr

/-- A completion: it carries the user data of its entry. `more` is `IORING_CQE_F_MORE`. -/
structure Cqe where
  entry : Sqe Request
  res : ℤ
  more : Bool
deriving DecidableEq, Repr

/-- A `co_await` that returned: its ticket, the completion whose handler resumed it, and
the value of `await_resume`. -/
structure Return where
  ticket : ℕ
  cqe : Cqe
  value : Option (Except ℤ Value)
deriving DecidableEq

/-- The ways a step leaves what the language defines. -/
inductive Fault where
  /-- `impl_t::prepare` writes to a null entry -/
  | nullSqe
  /-- a handler is called on an event that is gone -/
  | deadEvent
  /-- `await_suspend` writes to the promise of a destroyed frame -/
  | deadPromise
  /-- `resume()` of a null handle or of a coroutine that is not suspended -/
  | badResume
deriving DecidableEq, Repr

structure State where
  status : CoroId → Status
  /-- `continuation_` of each promise -/
  continuation : CoroId → Option CoroId
  born : ℕ
  /-- the running coroutines, innermost first -/
  stack : List CoroId
  events : Addr → Option Event
  prepared : ℕ
  sq : List (Sqe Request)
  inflight : List (Sqe Request)
  cq : List Cqe
  failed : List ℕ
  returns : List Return
  fault : Option Fault

/-- The static `ce` of `socket_t::close`. -/
def closeEvent : Addr := 0

def State.start : State where
  status := fun _ => .unborn
  continuation := fun _ => none
  born := 0
  stack := []
  events := fun a => if a = closeEvent then some (Event.mk' .onClose) else none
  prepared := 0
  sq := []
  inflight := []
  cq := []
  failed := []
  returns := []
  fault := none

namespace State

def setStatus (s : State) (c : CoroId) (st : Status) : State :=
  { s with status := Function.update s.status c st }

def setEvent (s : State) (a : Addr) (e : Option Event) : State :=
  { s with events := Function.update s.events a e }

@[simp] lemma setStatus_self (s : State) (c : CoroId) (st : Status) :
    (s.setStatus c st).status c = st := Function.update_self ..

lemma setStatus_of_ne {s : State} {c d : CoroId} {st : Status} (h : d ≠ c) :
    (s.setStatus c st).status d = s.status d := Function.update_of_ne h ..

@[simp] lemma setEvent_self (s : State) (a : Addr) (e : Option Event) :
    (s.setEvent a e).events a = e := Function.update_self ..

lemma setEvent_of_ne {s : State} {a b : Addr} {e : Option Event} (h : b ≠ a) :
    (s.setEvent a e).events b = s.events b := Function.update_of_ne h ..

/-- A fault ends the run: nothing is said about what comes after it. -/
def faulted (s : State) (f : Fault) : State := { s with fault := some f }

/-- The innermost coroutine gives the thread back to its caller. -/
def pop (s : State) : State := { s with stack := s.stack.tail }

/-- A coroutine is suspended on the event at `a`. -/
def awaited (s : State) (a : Addr) : Bool :=
  match (s.events a).bind Event.coroutine with
  | none => false
  | some c => match s.status c with
    | .atEvent b _ => b = a
    | _ => false

/-! ## The library -/

/-- `ring_t::prepare` of a request for the event at `a`, then `ring_t::submit`, which
answers `r`; with what the submit threw. -/
def request (s : State) (a : Addr) (o : Opcode) (r : ℤ) : Option (State × Bool) :=
  (prepare s.sq a ⟨o, s.prepared⟩).map fun sq =>
    ({ s with
        prepared := s.prepared + 1
        sq := (submit sq r).left
        inflight := s.inflight ++ (submit sq r).taken },
      (submit sq r).thrown.isSome)

/-- `ring_awaitable_t::await_suspend` on the event `e` at `a`, run by `c`. If the submit
throws, the exception is rethrown in `c`, which goes on. -/
def awaitSuspend (s : State) (c : CoroId) (a : Addr) (e : Event) (r : ℤ) : State :=
  match (s.setEvent a (some { e with coroutine := some c })).request a e.handler.opcode r with
  | none => s.faulted .nullSqe
  | some (t, true) => { t with failed := s.prepared :: t.failed }
  | some (t, false) => (t.setStatus c (.atEvent a s.prepared)).pop

/-- `socket_t::close` of a valid descriptor. -/
def close (s : State) (r : ℤ) : State :=
  match s.request closeEvent .cancelFd r with
  | none => s.faulted .nullSqe
  | some (t, _) => t

/-- `awaitable_t::await_suspend` on the task `t`, run by `c`; `await_ready` is `false`
whether or not the task has completed. -/
def taskAwaitSuspend (s : State) (c t : CoroId) : State :=
  if s.status t = .finished then s.faulted .deadPromise
  else
    ({ s with continuation := Function.update s.continuation t (some c) }.setStatus c
      (.atTask t)).pop

/-- `awaitable_task_base_t::final_suspend` of `c` returns `suspend_never`: the frame is
destroyed and the caller of `c` goes on. -/
def finalSuspend (s : State) (c : CoroId) : State := (s.setStatus c .finished).pop

/-- `resume()` of the coroutine of an event, in the handler of the completion `q`. A
coroutine suspended on an event runs `await_resume` of that event first. -/
def resume (s : State) (coroutine : Option CoroId) (q : Cqe) : State :=
  match coroutine with
  | none => s.faulted .badResume
  | some c => match s.status c with
    | .atTask _ => { s.setStatus c .running with stack := [c] }
    | .atEvent b w => match s.events b with
      | none => s.faulted .badResume
      | some e =>
        { (s.setEvent b (some (awaitResume e).2)).setStatus c .running with
          stack := [c]
          returns := s.returns ++ [⟨w, q, (awaitResume e).1⟩] }
    | _ => s.faulted .badResume

/-- One round of the drain loop: the handler of the event of `q` is called on it. -/
def handle (s : State) (q : Cqe) : State :=
  match s.events q.entry.userData with
  | none => s.faulted .deadEvent
  | some e =>
    let (e', resumes) := e.handler.call q.res e
    let t := s.setEvent q.entry.userData (some e')
    if resumes then t.resume e'.coroutine q else t

end State

/-! ## Actions -/

inductive Action where
  /-- a coroutine is called, from `main` or from a running coroutine -/
  | start
  /-- an awaitable of the library is constructed -/
  | create (a : Addr) (h : Handler)
  /-- an awaitable is destroyed -/
  | destroy (a : Addr)
  /-- the running coroutine awaits the event at `a`; `io_uring_submit` answers `r` -/
  | awaitEvent (a : Addr) (r : ℤ)
  /-- the running coroutine awaits the task `t` -/
  | awaitTask (t : CoroId)
  /-- a socket is closed; `io_uring_submit` answers `r` -/
  | close (r : ℤ)
  /-- the running coroutine completes -/
  | finish
  /-- the kernel completes the request `i`, or, with `more`, a part of it -/
  | post (i : ℕ) (res : ℤ) (more : Bool)
  /-- the drain loop dispatches the next completion -/
  | dispatch
deriving DecidableEq, Repr

/-- What each action does, if it is possible in `s`. -/
def step (s : State) (act : Action) : Option State :=
  if s.fault.isSome then none else
  match act with
  | .start =>
    some { s.setStatus s.born .running with born := s.born + 1, stack := s.born :: s.stack }
  | .create a h =>
    if s.events a = none ∧ h ≠ .onClose then some (s.setEvent a (some (Event.mk' h))) else none
  | .destroy a =>
    -- the frame of a suspended coroutine keeps the awaitable it waits for
    if a ≠ closeEvent ∧ s.awaited a = false then some (s.setEvent a none) else none
  | .awaitEvent a r =>
    match s.stack.head?, s.events a with
    | some c, some e =>
      -- an awaitable has one awaiter, and the kernel takes no more than is queued
      if a ≠ closeEvent ∧ s.awaited a = false ∧ r ≤ s.sq.length + 1 then
        some (s.awaitSuspend c a e r)
      else none
    | _, _ => none
  | .awaitTask t =>
    match s.stack.head? with
    | some c =>
      -- a task is awaited at most once
      if t < s.born ∧ s.continuation t = none then some (s.taskAwaitSuspend c t) else none
    | none => none
  | .close r => if r ≤ s.sq.length + 1 then some (s.close r) else none
  | .finish => s.stack.head?.map s.finalSuspend
  | .post i res more =>
    match s.inflight[i]? with
    | some e =>
      -- only a multishot request goes on after a completion
      if more = true → e.request.opcode = .multishotAccept then
        some { s with
          inflight := if more then s.inflight else s.inflight.eraseIdx i
          cq := s.cq ++ [⟨e, res, more⟩] }
      else none
    | none => none
  | .dispatch =>
    match s.stack, s.cq with
    -- the loop goes on once the coroutine its handler resumed has given the thread back
    | [], q :: cq => some ({ s with cq := cq }.handle q)
    | _, _ => none

/-- The coroutines, the kernel and the drain loop of one ring. -/
def runtime : Lib.System State Action := ⟨State.start, step⟩

end Zsl.Iouring
