import Zsl.Iouring.SubmissionQueue
import Zsl.Lib.RingBuffer
import Zsl.Lib.Runs

/-!
# The drain loop

`impl_t::wait_for_events` waits for completions and hands each to the handler of its event.
It walks the completion queue with a local `head`, counts the entries in `completions`, and
gives them back to the kernel in one `io_uring_cq_advance` after the loop.

* `Frame`: the locals of a call; a handler may call `wait_for_events` again, so there can be
  several;
* `DrainState`: the completion queue, the calls, and what was posted and handled so far;
* `drain`: the kernel, the calls and the handlers as a system.
-/

namespace Zsl.Iouring

/-- An entry of the completion queue. Its `number` is not in the memory: it tells apart
completions that look the same. -/
structure Completion where
  userData : Option Addr
  res : ℤ
  number : ℕ
deriving DecidableEq, Repr, Inhabited

/-- The locals of a call of `wait_for_events` in its loop, with the tail the loop last read,
and how much was handled when the call began and posted when it read the tail. -/
structure Frame where
  head : UInt32
  completions : UInt32
  tail : UInt32
  inHandler : Bool
  start : ℕ
  seen : ℕ
deriving DecidableEq, Repr

/-- `head++` and `completions++` after an entry. -/
def Frame.next (f : Frame) : Frame :=
  { f with head := f.head + 1, completions := f.completions + 1, inHandler := false }

/-- A completion queue of `2 ^ m` entries and the calls that drain it, innermost first. -/
structure DrainState (m : Fin 32) where
  ring : Lib.RingBuffer Completion m
  frames : List Frame
  thrown : List (ℤ × String)
  posted : List Completion
  handled : List Completion

namespace DrainState
variable {m : Fin 32}

protected def start : DrainState m := ⟨Lib.RingBuffer.empty, [], [], [], []⟩

/-- `-ETIME`. -/
def eTime : ℤ := -62

/-- A call of `wait_for_events` whose `io_uring_wait_cqes` answers `r`, up to its loop. -/
def waitForEvents (s : DrainState m) (r : ℤ) : DrainState m :=
  if r ≠ 0 then
    if r = eTime then s
    else { s with thrown := s.thrown ++ [(r, "io_uring_wait_cqes")] }
  else
    { s with
      frames := ⟨s.ring.head, 0, s.ring.tail, false, s.handled.length, s.posted.length⟩ ::
        s.frames }

/-- The body of the loop, up to the call of the handler. An entry without user data is only
logged. -/
def walk (s : DrainState m) (f : Frame) (fs : List Frame) : DrainState m :=
  let cqe := s.ring.get f.head
  { s with
    handled := s.handled ++ [cqe]
    frames := (if cqe.userData.isSome then { f with inHandler := true } else f.next) :: fs }

/-- The end of the loop. -/
def leave (s : DrainState m) (f : Frame) (fs : List Frame) : DrainState m :=
  { s with
    ring := if f.completions ≠ 0 then s.ring.advance f.completions else s.ring
    frames := fs }

end DrainState

inductive DrainAction where
  /-- the kernel posts a completion -/
  | post (userData : Option Addr) (res : ℤ)
  /-- `wait_for_events` is called, from outside or from a handler -/
  | call (r : ℤ)
  /-- the loop reads the tail again -/
  | reload
  /-- the loop takes the next entry -/
  | walk
  /-- the handler returns -/
  | ret
  /-- the handler throws out of `wait_for_events` -/
  | throw
  /-- the loop has reached the tail -/
  | exit
deriving DecidableEq, Repr

variable {m : Fin 32}

/-- What each action does, if it is possible in `s`. -/
def drainStep (s : DrainState m) : DrainAction → Option (DrainState m)
  | .post userData res =>
    if s.ring.hasRoom then
      let cqe := ⟨userData, res, s.posted.length⟩
      some { s with ring := s.ring.push cqe, posted := s.posted ++ [cqe] }
    else none
  | .call r =>
    -- a call that is not the first comes from a handler of the one before
    if s.frames.head?.all Frame.inHandler then some (s.waitForEvents r) else none
  | .reload =>
    match s.frames with
    | f :: fs =>
      if f.inHandler = false then
        some { s with frames := { f with tail := s.ring.tail, seen := s.posted.length } :: fs }
      else none
    | [] => none
  | .walk =>
    match s.frames with
    | f :: fs =>
      if f.inHandler = false ∧ f.head ≠ f.tail then some (s.walk f fs) else none
    | [] => none
  | .ret =>
    match s.frames with
    | f :: fs => if f.inHandler = true then some { s with frames := f.next :: fs } else none
    | [] => none
  | .throw =>
    match s.frames with
    -- `cq_advance` is skipped
    | f :: fs => if f.inHandler = true then some { s with frames := fs } else none
    | [] => none
  | .exit =>
    match s.frames with
    | f :: fs =>
      if f.inHandler = false ∧ f.head = f.tail then some (s.leave f fs) else none
    | [] => none

/-- The completion queue of `2 ^ m` entries, the kernel and the calls that drain it. -/
def drain (m : Fin 32) : Lib.System (DrainState m) DrainAction := ⟨DrainState.start, drainStep⟩

end Zsl.Iouring
