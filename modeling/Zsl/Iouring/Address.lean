import Zsl.Iouring.Event
import Zsl.Iouring.Socket
import Zsl.Types.EstringOrder

/-!
# Addresses

`bind` and `connect` take an `ipaddressv4_t`, whose text libc parses to a native address. The
parser and what it leaves behind on failure are a parameter `Libc`.

* `toNativeAddr`, `toNativePort`, `toSockaddr`: the conversion, which does not look at the
  result of `inet_aton`;
* `Socket.bind`, `coAwaitConnect`: the calls made with it, and their results;
* `cString_eq`: the text that libc sees, up to the first NUL;
* `address_iff`: the calls are faithful to the text, or not made, exactly when it parses.
-/

namespace Zsl.Iouring
open Zsl.Types Zsl.Lib.Bytes

/-- What the conversion uses of libc. -/
structure Libc where
  /-- `inet_aton`: the address a text is parsed to, `none` where it returns 0 -/
  inetAton : List UInt8 → Option UInt32
  /-- what is in its output where it returns 0 -/
  unspecified : List UInt8 → UInt32

/-- The bounds of `ipaddressv4_t`, 7 and `INET_ADDRSTRLEN - 1`. -/
def ipaddressv4 : Bounds := ⟨7, 15, by decide, by decide⟩

/-- The text at `c_str()`, up to the terminator. -/
def cString {p : Bounds} (e : Estring p) : List UInt8 := e.cStr.takeWhile fun b => b != 0

/-- `htons` on a little-endian host. -/
def htons (port : UInt16) : UInt16 := ⟨byteswap 2 port.toBitVec⟩

/-- `AF_INET`. -/
def afInet : ℕ := 2

/-- `sockaddr_in`. -/
structure SockaddrIn where
  sinFamily : ℕ
  sinPort : UInt16
  sinAddr : UInt32
  sinZero : List UInt8
deriving DecidableEq, Repr

/-- `sizeof(sockaddr_in)`. -/
def sizeofSockaddrIn : ℕ := 16

/-- `to_native` of an address. -/
def toNativeAddr (libc : Libc) (ip : Estring ipaddressv4) : UInt32 :=
  match libc.inetAton (cString ip) with
  | some x => x
  | none => libc.unspecified (cString ip)

/-- `to_native` of a port. -/
def toNativePort (port : UInt16) : UInt16 := htons port

/-- `to_sockaddr`. -/
def toSockaddr (libc : Libc) (ip : Estring ipaddressv4) (port : UInt16) : SockaddrIn where
  sinFamily := afInet
  sinPort := toNativePort port
  sinAddr := toNativeAddr libc ip
  sinZero := List.replicate 8 0

/-- The calls that use an address. -/
inductive AddressCall where
  /-- `::bind` -/
  | bind (fd : ℤ) (sa : SockaddrIn) (len : ℕ)
  /-- `prepare` with `io_uring_prep_connect`, and `submit` -/
  | connect (ring : RingId) (fd : ℤ) (sa : SockaddrIn) (len : ℕ)
deriving DecidableEq, Repr

/-- `socket_t::bind`, where `::bind` answers `r`: the calls, and the result. -/
def Socket.bind (libc : Libc) (self : Socket) (ip : Estring ipaddressv4) (port : UInt16)
    (r : ℤ) : List AddressCall × Bool :=
  ([.bind self.fd (toSockaddr libc ip port) sizeofSockaddrIn], decide (r = 0))

/-- `connect_awaitable_t`: the ring, and the request of the event. -/
structure ConnectAwaitable where
  ring : RingId
  ip : Estring ipaddressv4
  port : UInt16

/-- `socket_t::connect`. -/
def Socket.connect (self : Socket) (ip : Estring ipaddressv4) (port : UInt16) :
    ConnectAwaitable :=
  ⟨self.ring, ip, port⟩

/-- `submit`, for the socket as it is then. -/
def ConnectAwaitable.submit (libc : Libc) (a : ConnectAwaitable) (self : Socket) :
    List AddressCall :=
  [.connect a.ring self.fd (toSockaddr libc a.ip a.port) sizeofSockaddrIn]

/-- What `co_await` of a connect returns, where the request completes with `res`. -/
def connectResult (res : ℤ) : Option (Except ℤ Value) :=
  (awaitResume (onConnect res (Event.mk' .onConnect)).1).1

/-- `co_await connect(ip, port)`, where the request completes with `res`: the calls, and the
result. -/
def coAwaitConnect (libc : Libc) (self self' : Socket) (ip : Estring ipaddressv4)
    (port : UInt16) (res : ℤ) : List AddressCall × Option (Except ℤ Value) :=
  ((self.connect ip port).submit libc self', connectResult res)

/-! ## The text and the port -/

lemma takeWhile_append_zero (s bs : List UInt8) :
    (s ++ 0 :: bs).takeWhile (fun b => b != 0) = s.takeWhile fun b => b != 0 := by
  induction s with
  | nil => rfl
  | cons b s ih =>
    rw [List.cons_append, List.takeWhile_cons, List.takeWhile_cons, ih]

/-- libc sees the held string up to its first NUL: behind the string there is one. -/
theorem cString_eq {p : Bounds} (e : Estring p) :
    cString e = e.toStringView.takeWhile fun b => b != 0 := by
  obtain ⟨s, hs⟩ := e.exists_ofStringView
  have hle := (Estring.admits_of_ok hs).2
  rw [Estring.toStringView_eq hs]
  unfold cString Estring.cStr
  rw [Estring.toList_v hs, pad, List.append_assoc]
  rcases Nat.eq_or_lt_of_le hle with hfull | hlt
  · -- the string fills the capacity, and the capacity byte is 0
    rw [hfull, Nat.sub_self, List.replicate_zero, List.nil_append]
    exact takeWhile_append_zero _ _
  · obtain ⟨d, hd⟩ : ∃ d, p.maxLen - s.length = d + 1 := ⟨p.maxLen - s.length - 1, by omega⟩
    rw [hd, List.replicate_succ, List.cons_append]
    exact takeWhile_append_zero _ _

/-- The bytes of `htons`, as they lie in memory, are those of the port in network order. -/
lemma toLE_htons (port : UInt16) :
    toLE 2 (htons port).toNat = (toLE 2 port.toNat).reverse :=
  toLE_byteswap 2 port.toBitVec

/-! ## Faithful addresses -/

/-- A `sockaddr` for the address `x` and the port, in network byte order. -/
structure SockaddrIn.Holds (sa : SockaddrIn) (x : UInt32) (port : UInt16) : Prop where
  family : sa.sinFamily = afInet
  addr : sa.sinAddr = x
  port : toLE 2 sa.sinPort.toNat = (toLE 2 port.toNat).reverse

/-- `bind` and `connect` use the address that the text stands for; for a text that stands for
none they fail without a call. -/
structure AddressFaithful (libc : Libc) (ip : Estring ipaddressv4) (port : UInt16) : Prop where
  parsed : ∀ x, libc.inetAton (ip.toStringView.takeWhile fun b => b != 0) = some x →
    ∀ (self self' : Socket) (r res : ℤ), ∃ sa : SockaddrIn, sa.Holds x port ∧
      self.bind libc ip port r = ([AddressCall.bind self.fd sa sizeofSockaddrIn], decide (r = 0)) ∧
      coAwaitConnect libc self self' ip port res =
        ([AddressCall.connect self.ring self'.fd sa sizeofSockaddrIn], connectResult res)
  rejected : libc.inetAton (ip.toStringView.takeWhile fun b => b != 0) = none →
    ∀ (self self' : Socket) (r res : ℤ), self.bind libc ip port r = ([], false) ∧
      (coAwaitConnect libc self self' ip port res).1 = [] ∧
      (coAwaitConnect libc self self' ip port res).2 ≠ some (.ok (.status true))

/-- The address of a text that parses. -/
lemma holds_toSockaddr {libc : Libc} {ip : Estring ipaddressv4} {x : UInt32}
    (h : libc.inetAton (ip.toStringView.takeWhile fun b => b != 0) = some x) (port : UInt16) :
    (toSockaddr libc ip port).Holds x port := by
  refine ⟨rfl, ?_, toLE_htons port⟩
  show toNativeAddr libc ip = x
  unfold toNativeAddr
  rw [cString_eq, h]

/-- **Address conversion.** `bind` and `connect` are faithful to the text of the address, or
fail without a call, exactly when `inet_aton` parses it. -/
theorem address_iff (libc : Libc) (ip : Estring ipaddressv4) (port : UInt16) :
    AddressFaithful libc ip port ↔
      libc.inetAton (ip.toStringView.takeWhile fun b => b != 0) ≠ none := by
  constructor
  · intro h hnone
    -- a rejected text is bound to whatever `inet_aton` left in its output
    have hbind := (h.rejected hnone ⟨0, 0⟩ ⟨0, 0⟩ 0 0).1
    exact absurd (congrArg Prod.fst hbind) (List.cons_ne_nil _ _)
  · intro h
    constructor
    · intro x hx self self' r res
      exact ⟨toSockaddr libc ip port, holds_toSockaddr hx port, rfl, rfl⟩
    · intro hnone
      exact absurd hnone h

/-- A libc that knows one address, and leaves 0 for all other texts. -/
def localhostOnly : Libc where
  inetAton s := if s = [49, 50, 55, 46, 48, 46, 48, 46, 49] then some 0x0100007f else none
  unspecified _ := 0

/-- `"localhost"` is bound and connected to as 0.0.0.0. -/
theorem bind_of_rejected :
    ∃ ip : Estring ipaddressv4, ip.toStringView = [108, 111, 99, 97, 108, 104, 111, 115, 116] ∧
      ¬ AddressFaithful localhostOnly ip 80 ∧
      (Socket.bind localhostOnly ⟨0, 5⟩ ip 80 0).2 = true ∧
      (coAwaitConnect localhostOnly ⟨0, 5⟩ ⟨0, 5⟩ ip 80 0).2 = some (.ok (.status true)) := by
  obtain ⟨ip, hip⟩ := Estring.exists_of_admits (p := ipaddressv4)
    (s := [108, 111, 99, 97, 108, 104, 111, 115, 116]) ⟨by decide, by decide⟩
  have htext := Estring.toStringView_eq hip
  refine ⟨ip, htext, fun h => ?_, rfl, rfl⟩
  have hnone : localhostOnly.inetAton (ip.toStringView.takeWhile fun b => b != 0) = none := by
    rw [htext]
    decide
  have hbind := (h.rejected hnone ⟨0, 5⟩ ⟨0, 5⟩ 0 0).1
  exact absurd (congrArg Prod.fst hbind) (List.cons_ne_nil _ _)

end Zsl.Iouring
