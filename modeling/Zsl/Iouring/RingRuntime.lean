import Zsl.Iouring.Runtime
import Zsl.Lib.RingBuffer

/-!
# The runtime over a completion ring

The runtime takes a completion off its queue when it dispatches it. `wait_for_events` does not:
its loop walks the ring with a local `head`, the handlers submit requests and the kernel posts
completions meanwhile, and the entries are given back together after the loop.

* `DrainLoop`: the locals of the loop;
* `RingState`: the runtime, with a ring for its completion queue;
* `ringRuntime`: the coroutines, the kernel and the loop as a system. No handler throws, and
  none calls `wait_for_events`.
-/

namespace Zsl.Iouring

/-- The locals of `wait_for_events` in its loop, with the tail the loop last read. -/
structure DrainLoop where
  head : UInt32
  completions : UInt32
  tail : UInt32
deriving DecidableEq, Repr

/-- `head++` and `completions++`. -/
def DrainLoop.next (f : DrainLoop) : DrainLoop :=
  { f with head := f.head + 1, completions := f.completions + 1 }

/-- A ring of `2 ^ m` completions with the coroutines on it. -/
structure RingState (m : Fin 32) where
  /-- all but the completion queue, which stays empty -/
  base : State
  ring : Lib.RingBuffer Cqe m
  loop : Option DrainLoop

instance : Inhabited Cqe := ⟨⟨⟨⟨.timeout, 0⟩, closeEvent⟩, 0, false⟩⟩

/-- The actions of the coroutines and their callers. -/
def Action.ofProgram : Action → Bool
  | .post _ _ _ => false
  | .dispatch => false
  | _ => true

inductive RingRuntimeAction where
  /-- an action of a coroutine, or of `main` outside of `wait_for_events` -/
  | program (act : Action)
  /-- the kernel completes a request, or a part of it -/
  | post (i : ℕ) (res : ℤ) (more : Bool)
  /-- `wait_for_events` is called, and its wait succeeds -/
  | waitForEvents
  /-- the loop reads the tail again -/
  | reload
  /-- the loop calls the handler of the next entry -/
  | walk
  /-- the loop has reached the tail -/
  | leave
deriving DecidableEq, Repr

variable {m : Fin 32}

namespace RingState

protected def start : RingState m := ⟨State.start, Lib.RingBuffer.empty, none⟩

/-- The end of the loop, with `io_uring_cq_advance`. -/
def leave (c : RingState m) (f : DrainLoop) : RingState m :=
  { c with
    ring := if f.completions ≠ 0 then c.ring.advance f.completions else c.ring
    loop := none }

end RingState

/-- What each action does, if it is possible in `c`. -/
def ringRuntimeStep (c : RingState m) : RingRuntimeAction → Option (RingState m)
  | .program act =>
    -- inside the loop, only a coroutine that a handler has resumed runs
    if act.ofProgram = true ∧ (c.loop = none ∨ c.base.stack ≠ []) then
      (step c.base act).map fun s => { c with base := s }
    else none
  | .post i res more =>
    match c.base.inflight[i]? with
    | some e =>
      if c.base.fault = none ∧ (more = true → e.request.opcode = .multishotAccept) ∧
          c.ring.hasRoom = true then
        some { c with
          base := { c.base with
            inflight := if more then c.base.inflight else c.base.inflight.eraseIdx i }
          ring := c.ring.push ⟨e, res, more⟩ }
      else none
    | none => none
  | .waitForEvents =>
    if c.base.stack = [] ∧ c.loop = none then
      some { c with loop := some ⟨c.ring.head, 0, c.ring.tail⟩ }
    else none
  | .reload =>
    match c.loop with
    | some f =>
      if c.base.stack = [] then some { c with loop := some { f with tail := c.ring.tail } }
      else none
    | none => none
  | .walk =>
    match c.loop with
    | some f =>
      if c.base.fault = none ∧ c.base.stack = [] ∧ f.head ≠ f.tail then
        some { c with base := c.base.handle (c.ring.get f.head), loop := some f.next }
      else none
    | none => none
  | .leave =>
    match c.loop with
    | some f => if c.base.stack = [] ∧ f.head = f.tail then some (c.leave f) else none
    | none => none

/-- The runtime on a ring of `2 ^ m` completions. -/
def ringRuntime (m : Fin 32) : Lib.System (RingState m) RingRuntimeAction :=
  ⟨RingState.start, ringRuntimeStep⟩

end Zsl.Iouring
