import Zsl.Lib.Ownership
import Zsl.Lib.Runs
import Mathlib.Data.Int.Basic

/-!
# Sockets and their descriptors

The life of `socket_t` and `tcp_socket_t` objects, and of the `expected` results an
`accept()` moves them through.

* `Socket.moveConstruct`, `Socket.moveAssign`, `Socket.close`: the members of `socket_t`;
* `World`: the live objects by their place, the descriptors the OS has open, and the calls
  made on the rings and on the OS;
* `sockets`: the operations on them as a system;
* `onAcceptActions`, `awaitResumeActions`: what the two users of `std::exchange` do to them.
-/

namespace Zsl.Iouring

abbrev RingId : Type := ℕ

/-- Where an object lives. -/
abbrev Place : Type := ℕ

/-- `invalid_socket_fd`. -/
def invalidSocketFd : ℤ := -1

/-- `socket_t`. -/
structure Socket where
  ring : RingId
  fd : ℤ
deriving DecidableEq, Repr

/-- The calls a socket makes. -/
inductive Call where
  /-- `ring_->prepare(ce, &io_uring_prep_cancel_fd, fd, IORING_ASYNC_CANCEL_ALL)` -/
  | prepareCancel (ring : RingId) (fd : ℤ)
  /-- `ring_->submit()` -/
  | submit (ring : RingId)
  /-- `::close(fd)` -/
  | osClose (fd : ℤ)
deriving DecidableEq, Repr

namespace Socket

/-- `socket_t(socket_t && rhs)`: the new socket, and `rhs`. -/
def moveConstruct (rhs : Socket) : Socket × Socket :=
  (⟨rhs.ring, rhs.fd⟩, { rhs with fd := invalidSocketFd })

/-- `operator = (socket_t && rhs)` of another socket: this socket, and `rhs`. The rings stay
where they are. -/
def moveAssign (self rhs : Socket) : Socket × Socket :=
  ({ self with fd := rhs.fd }, { rhs with fd := self.fd })

/-- What `close` does: the socket after it, its calls, and what it returns or throws. -/
structure Closed where
  self : Socket
  calls : List Call
  result : Except ℤ Bool

/-- `socket_t::close`, where `io_uring_submit` answers `r` and `::close` answers `c`. -/
def close (self : Socket) (r c : ℤ) : Closed :=
  if self.fd = invalidSocketFd then ⟨self, [], .ok false⟩
  else if r ≤ 0 then ⟨self, [.prepareCancel self.ring self.fd, .submit self.ring], .error r⟩
  else
    ⟨{ self with fd := invalidSocketFd },
      [.prepareCancel self.ring self.fd, .submit self.ring, .osClose self.fd], .ok (c ≠ 0)⟩

/-- The descriptor a socket holds. -/
def held (s : Socket) : Option ℤ := if s.fd = invalidSocketFd then none else some s.fd

end Socket

/-- An object: a socket, or an `expected < tcp_socket_t, int32_t >`. -/
inductive Obj where
  | socket (s : Socket)
  | expected (r : Except ℤ Socket)
deriving DecidableEq

namespace Obj

/-- The socket that an object is or contains. -/
def socket? : Obj → Option Socket
  | .socket s => some s
  | .expected (.ok s) => some s
  | .expected (.error _) => none

/-- The object with its socket written. -/
def withSocket (o : Obj) (s : Socket) : Obj :=
  match o with
  | .socket _ => .socket s
  | .expected _ => .expected (.ok s)

end Obj

structure World where
  objs : Place → Option Obj
  /-- the open descriptors that were given to sockets -/
  descriptors : List ℤ
  /-- every descriptor given to a socket so far -/
  opened : List ℤ
  calls : List Call
  /-- an exception left a destructor -/
  terminated : Bool

namespace World

protected def start : World := ⟨fun _ => none, [], [], [], false⟩

def setObj (w : World) (l : Place) (o : Option Obj) : World :=
  { w with objs := Function.update w.objs l o }

/-- The live socket at `l`. -/
def socketAt (w : World) (l : Place) : Option Socket := (w.objs l).bind Obj.socket?

/-- The descriptor held at `l`. -/
def held (w : World) (l : Place) : Option ℤ := (w.socketAt l).bind Socket.held

def setSocket (w : World) (l : Place) (s : Socket) : World :=
  w.setObj l ((w.objs l).map fun o => o.withSocket s)

/-- `socket_t(ring, fd)` at `l`: a descriptor that is not invalid has just been opened. -/
def construct (w : World) (l : Place) (ring : RingId) (fd : ℤ) : World :=
  let w' := w.setObj l (some (.socket ⟨ring, fd⟩))
  if fd = invalidSocketFd then w'
  else { w' with descriptors := fd :: w.descriptors, opened := fd :: w.opened }

/-- A move construction of `o s` at `dst` from the socket `s` at `src`. -/
def moveConstruct (w : World) (dst src : Place) (s : Socket) (o : Socket → Obj) : World :=
  (w.setSocket src s.moveConstruct.2).setObj dst (some (o s.moveConstruct.1))

/-- A move assignment; `this != &rhs` is checked first. -/
def moveAssign (w : World) (dst src : Place) (self rhs : Socket) : World :=
  if dst = src then w
  else (w.setSocket dst (self.moveAssign rhs).1).setSocket src (self.moveAssign rhs).2

/-- `close()` of the socket at `l`. -/
def close (w : World) (l : Place) (s : Socket) (r c : ℤ) : World :=
  let k := s.close r c
  { w.setSocket l k.self with
    descriptors := w.descriptors.filter fun fd => .osClose fd ∉ k.calls
    calls := w.calls ++ k.calls }

/-- `~socket_t()` of the socket at `l`, which leaves `o` there. -/
def destruct (w : World) (l : Place) (s : Socket) (r c : ℤ) (o : Option Obj) : World :=
  match (s.close r c).result with
  | .error _ => { w.close l s r c with terminated := true }
  | .ok _ => (w.close l s r c).setObj l o

end World

/-! ## Operations -/

inductive SocketAction where
  /-- a socket is constructed from `socket()` or from an accepted descriptor -/
  | construct (l : Place) (ring : RingId) (fd : ℤ)
  /-- a socket is move-constructed from a socket, or from the value of an `expected` -/
  | moveConstruct (dst src : Place)
  | moveAssign (dst src : Place)
  | close (l : Place) (r c : ℤ)
  | destroy (l : Place) (r c : ℤ)
  /-- an `expected` is constructed from `std::unexpected(e)` -/
  | unexpected (l : Place) (e : ℤ)
  /-- an `expected` is constructed from a moved socket -/
  | expected (dst src : Place)
  /-- an `expected` is move-constructed -/
  | moveExpected (dst src : Place)
  /-- an `expected` is move-assigned; a socket that it destroys is closed -/
  | assignExpected (dst src : Place) (r c : ℤ)
  /-- `std::unexpected(e)` is assigned to an `expected` -/
  | assignUnexpected (dst : Place) (e : ℤ) (r c : ℤ)
deriving DecidableEq, Repr

/-- What each operation does, if its objects are there. The OS never hands out a descriptor
that is open. -/
def socketStep (w : World) (act : SocketAction) : Option World :=
  if w.terminated then none else
  match act with
  | .construct l ring fd =>
    -- `socket()` may fail, with the invalid descriptor
    if w.objs l = none ∧ (fd = invalidSocketFd ∨ fd ∉ w.descriptors) then
      some (w.construct l ring fd)
    else none
  | .moveConstruct dst src =>
    match w.objs dst, w.socketAt src with
    | none, some s => some (w.moveConstruct dst src s .socket)
    | _, _ => none
  | .moveAssign dst src =>
    match w.socketAt dst, w.socketAt src with
    | some self, some rhs => some (w.moveAssign dst src self rhs)
    | _, _ => none
  | .close l r c => (w.socketAt l).map fun s => w.close l s r c
  | .destroy l r c =>
    match w.objs l, w.socketAt l with
    | some _, some s => some (w.destruct l s r c none)
    | some _, none => some (w.setObj l none)
    | none, _ => none
  | .unexpected l e =>
    match w.objs l with
    | none => some (w.setObj l (some (.expected (.error e))))
    | some _ => none
  | .expected dst src =>
    match w.objs dst, w.objs src with
    | none, some (.socket s) => some (w.moveConstruct dst src s fun s => .expected (.ok s))
    | _, _ => none
  | .moveExpected dst src =>
    match w.objs dst, w.objs src with
    | none, some (.expected (.ok s)) =>
      some (w.moveConstruct dst src s fun s => .expected (.ok s))
    | none, some (.expected (.error e)) => some (w.setObj dst (some (.expected (.error e))))
    | _, _ => none
  | .assignExpected dst src r c =>
    match w.objs dst, w.objs src with
    | some (.expected (.ok self)), some (.expected (.ok rhs)) =>
      some (w.moveAssign dst src self rhs)
    | some (.expected (.ok self)), some (.expected (.error e)) =>
      some (w.destruct dst self r c (some (.expected (.error e))))
    | some (.expected (.error _)), some (.expected (.ok rhs)) =>
      some (w.moveConstruct dst src rhs fun s => .expected (.ok s))
    | some (.expected (.error _)), some (.expected (.error e)) =>
      some (w.setObj dst (some (.expected (.error e))))
    | _, _ => none
  | .assignUnexpected dst e r c =>
    match w.objs dst with
    | some (.expected (.ok self)) => some (w.destruct dst self r c (some (.expected (.error e))))
    | some (.expected (.error _)) => some (w.setObj dst (some (.expected (.error e))))
    | _ => none

/-- The sockets of a program. -/
def sockets : Lib.System World SocketAction := ⟨World.start, socketStep⟩

/-- The socket an operation may close. -/
def SocketAction.closes : SocketAction → Option Place
  | .close l _ _ => some l
  | .destroy l _ _ => some l
  | .assignExpected dst _ _ _ => some dst
  | .assignUnexpected dst _ _ _ => some dst
  | _ => none

/-- The sockets an operation may move-assign: the left and the right side. -/
def SocketAction.assigns : SocketAction → Option (Place × Place)
  | .moveAssign dst src => some (dst, src)
  | .assignExpected dst src _ _ => some (dst, src)
  | _ => none

/-! ## The accept path -/

/-- `on_accept` for the descriptor `fd`, up to the end of its block: the socket `cs`, the
temporary `tmp` made of it, and the value `old` that `std::exchange` returns. -/
def onAcceptActions (ring : RingId) (fd : ℤ) (result cs tmp old : Place) (r c : ℤ) :
    List SocketAction :=
  [.construct cs ring fd, .expected tmp cs, .moveExpected old result,
    .assignExpected result tmp r c, .destroy old r c, .destroy tmp r c, .destroy cs r c]

/-- `await_resume`: the result is exchanged for `std::unexpected(-1)` and returned at `v`. -/
def awaitResumeActions (result v : Place) (r c : ℤ) : List SocketAction :=
  [.moveExpected v result, .assignUnexpected result (-1) r c]

end Zsl.Iouring
