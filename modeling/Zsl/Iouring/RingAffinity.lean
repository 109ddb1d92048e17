import Zsl.Iouring.Socket

/-!
# Sockets on several rings

The sockets of a program with the rings they use: which ring each descriptor was opened or
accepted on, the acceptors and awaitables that refer to a socket, and the operations in
flight on its descriptor.

* `Acceptor`, `RingAwaitable`, `Operation`: each with the ring it keeps;
* `RingWorld`, `rings`: the program as a system;
* `AffinityKept`: what a step is to keep of the pairing of descriptors and rings;
* `AssignsOnOneRing`: the move assignments that keep it.
-/

namespace Zsl.Iouring

/-- `acceptor_t`: the ring of its socket when it was made, and the socket it refers to. -/
structure Acceptor where
  ring : RingId
  ss : Place
deriving DecidableEq, Repr

/-- An awaitable of `send`, `recv`, `connect` or `accept`: `ring()` of the socket when it was
made, the socket it refers to, and for an accept the ring of its acceptor. -/
structure RingAwaitable where
  ring : RingId
  self : Place
  acceptor : Option RingId
deriving DecidableEq, Repr

/-- An operation in flight: the ring it was prepared on, its descriptor, and for an accept the
ring of its acceptor. -/
structure Operation where
  ring : RingId
  fd : ℤ
  acceptor : Option RingId
deriving DecidableEq, Repr

structure RingWorld where
  world : World
  /-- the ring a descriptor was opened or accepted on -/
  origin : ℤ → RingId
  acceptors : List Acceptor
  awaitables : List RingAwaitable
  /-- the operations in flight on the open descriptors -/
  pending : List Operation

namespace RingWorld

protected def start : RingWorld := ⟨World.start, fun _ => 0, [], [], []⟩

/-- After an operation on sockets, references to sockets that are gone are not used any more,
and the operations on a closed descriptor are no longer operations on it. -/
def after (w : RingWorld) (t : World) (origin : ℤ → RingId) : RingWorld where
  world := t
  origin := origin
  acceptors := w.acceptors.filter fun a => (t.socketAt a.ss).isSome
  awaitables := w.awaitables.filter fun x => (t.socketAt x.self).isSome
  pending := w.pending.filter fun p => p.fd ∈ t.descriptors

/-- The ring of a descriptor after an operation: `socket()` opens it on the given one. -/
def originAfter (w : RingWorld) : SocketAction → ℤ → RingId
  | .construct _ ring fd => Function.update w.origin fd ring
  | _ => w.origin

/-- `submit()` of an awaitable, for the descriptor its socket has then. The kernel refuses an
operation on the invalid descriptor. -/
def submit (w : RingWorld) (x : RingAwaitable) (self : Socket) : RingWorld :=
  { w with
    awaitables := w.awaitables.erase x
    pending :=
      if self.fd = invalidSocketFd then w.pending
      else ⟨x.ring, self.fd, x.acceptor⟩ :: w.pending }

end RingWorld

/-! ## Operations -/

inductive RingAction where
  /-- a construction with `socket()`, a move, an assignment, a close or a destruction -/
  | socket (act : SocketAction)
  /-- `acceptor()` -/
  | acceptor (l : Place)
  /-- `send()`, `recv()` or `connect()` -/
  | operation (l : Place)
  /-- `accept()` -/
  | accept (a : Acceptor)
  /-- `co_await` of an awaitable -/
  | submit (x : RingAwaitable)
  /-- the last completion of an operation -/
  | complete (p : Operation)
  /-- `on_accept` for the descriptor `fd`, which constructs a socket at `l` -/
  | accepted (p : Operation) (l : Place) (fd : ℤ)
deriving DecidableEq, Repr

def ringStep (w : RingWorld) (act : RingAction) : Option RingWorld :=
  if w.world.terminated then none else
  match act with
  | .socket act => (socketStep w.world act).map fun t => w.after t (w.originAfter act)
  | .acceptor l =>
    (w.world.socketAt l).map fun s => { w with acceptors := ⟨s.ring, l⟩ :: w.acceptors }
  | .operation l =>
    (w.world.socketAt l).map fun s => { w with awaitables := ⟨s.ring, l, none⟩ :: w.awaitables }
  | .accept a =>
    -- the awaitable gets the ring of the socket, and the acceptor keeps its own
    if a ∈ w.acceptors then
      (w.world.socketAt a.ss).map fun s =>
        { w with awaitables := ⟨s.ring, a.ss, some a.ring⟩ :: w.awaitables }
    else none
  | .submit x =>
    if x ∈ w.awaitables then (w.world.socketAt x.self).map fun s => w.submit x s else none
  | .complete p =>
    if p ∈ w.pending then some { w with pending := w.pending.erase p } else none
  | .accepted p l fd =>
    match p.acceptor with
    | some ring =>
      -- the socket gets the ring of the acceptor, the descriptor is accepted on that of the request
      if p ∈ w.pending ∧ 0 < fd then
        (socketStep w.world (.construct l ring fd)).map fun t =>
          w.after t (Function.update w.origin fd p.ring)
      else none
    | none => none

/-- The sockets of a program on its rings. -/
def rings : Lib.System RingWorld RingAction := ⟨RingWorld.start, ringStep⟩

/-! ## Ring affinity -/

/-- Descriptors stay with the ring they were opened or accepted on. -/
structure AffinityKept (w : RingWorld) (act : RingAction) (t : RingWorld) : Prop where
  /-- a socket with a descriptor points to the ring of the descriptor -/
  sockets : ∀ l s, t.world.socketAt l = some s → s.fd ≠ invalidSocketFd → s.ring = t.origin s.fd
  /-- an operation on a descriptor is prepared on that ring -/
  prepared : ∀ x s, act = .submit x → w.world.socketAt x.self = some s →
    s.fd ≠ invalidSocketFd → x.ring = w.origin s.fd
  /-- the operations of a descriptor that is closed are cancelled, before `::close`, on the
  ring they are in flight on -/
  cancelled : ∃ calls, t.world.calls = w.world.calls ++ calls ∧ (calls = [] ∨ ∃ fd,
    calls <+: [.prepareCancel (w.origin fd) fd, .submit (w.origin fd), .osClose fd] ∧
      ∀ p ∈ w.pending, p.fd = fd → p.ring = w.origin fd)

/-- A move assignment of a socket to another one: both are on the same ring, or neither has a
descriptor. -/
def AssignsOnOneRing (w : RingWorld) (act : RingAction) (_ : RingWorld) : Prop :=
  ∀ act' dst src self rhs, act = .socket act' → act'.assigns = some (dst, src) → dst ≠ src →
    w.world.socketAt dst = some self → w.world.socketAt src = some rhs →
      self.ring = rhs.ring ∨ self.fd = invalidSocketFd ∧ rhs.fd = invalidSocketFd

end Zsl.Iouring
