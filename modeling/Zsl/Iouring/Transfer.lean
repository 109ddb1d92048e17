import Zsl.Iouring.Socket
import Zsl.Lib.Memory

/-!
# Sending and receiving a buffer

`send` and `recv` take a span of bytes, or a contiguous sized range of standard-layout
elements, which they turn into a span of bytes.

* `Socket.send`, `Socket.recv`: the overloads for a span, and `submit` of what they return;
* `Socket.sendBuffer`, `Socket.recvBuffer`: the `SizedBuffer` overloads, which pass on the
  number of elements as the number of bytes;
* `transfer_iff`: the requests cover the whole range, and a range sent is reproduced where it
  is received, exactly for elements of one byte and for empty ranges.
-/

namespace Zsl.Iouring
open Zsl.Lib

/-- `std::span < uint8_t >`. -/
structure Span where
  data : ℕ
  size : ℕ
deriving DecidableEq, Repr

/-- A standard-layout element type, by its size in bytes. -/
structure StandardLayout where
  sizeof : ℕ
  sizeof_pos : 1 ≤ sizeof

/-- `SizedBuffer`: the data pointer of a range, and its number of elements. -/
structure SizedBuffer (T : StandardLayout) where
  data : ℕ
  size : ℕ

/-- The bytes of the elements of a range. -/
def SizedBuffer.bytes {T : StandardLayout} (buf : SizedBuffer T) : Span :=
  ⟨buf.data, buf.size * T.sizeof⟩

/-- The prep functions. -/
inductive TransferOp where
  /-- `io_uring_prep_send` -/
  | send
  /-- `io_uring_prep_recv` -/
  | recv
deriving DecidableEq, Repr

/-- A request handed to the ring: `prepare` with a prep function and its arguments. -/
structure TransferRequest where
  ring : RingId
  prep : TransferOp
  fd : ℤ
  addr : ℕ
  len : ℕ
  flags : ℤ
deriving DecidableEq, Repr

/-- `send_awaitable_t`, `recv_awaitable_t`: the ring, and the request of the event. -/
structure TransferAwaitable where
  ring : RingId
  prep : TransferOp
  buf : Span
deriving DecidableEq, Repr

/-- `submit`, for the socket as it is then. -/
def TransferAwaitable.submit (a : TransferAwaitable) (self : Socket) : TransferRequest :=
  ⟨a.ring, a.prep, self.fd, a.buf.data, a.buf.size, 0⟩

namespace Socket
variable {T : StandardLayout}

/-- `socket_t::send` of a span. -/
def send (self : Socket) (buf : Span) : TransferAwaitable := ⟨self.ring, .send, buf⟩

/-- `socket_t::recv` into a span. -/
def recv (self : Socket) (buf : Span) : TransferAwaitable := ⟨self.ring, .recv, buf⟩

/-- `socket_t::send` of a `SizedBuffer`: `std::span(data(buf), size(buf))` of bytes. -/
def sendBuffer (self : Socket) (buf : SizedBuffer T) : TransferAwaitable :=
  self.send ⟨buf.data, buf.size⟩

/-- `socket_t::recv` into a `SizedBuffer`. -/
def recvBuffer (self : Socket) (buf : SizedBuffer T) : TransferAwaitable :=
  self.recv ⟨buf.data, buf.size⟩

end Socket

/-- The memory of the receiver after the stream has delivered the whole request `s`, read
from the sender's memory `m`, to the request `r`. -/
def deliver (m m' : ℕ → UInt8) (s r : TransferRequest) : ℕ → UInt8 :=
  Memory.write m' r.addr ((Memory.read m s.addr s.len).take r.len)

/-! ## Whole buffers -/

/-- The request is for the bytes of the span. -/
def TransferRequest.Covers (r : TransferRequest) (b : Span) : Prop :=
  r.addr = b.data ∧ r.len = b.size

/-- `send` of a range of `n` elements asks for all of their bytes. -/
def SendCovers (T : StandardLayout) (n : ℕ) : Prop :=
  ∀ (self self' : Socket) (p : ℕ),
    ((self.sendBuffer (⟨p, n⟩ : SizedBuffer T)).submit self').Covers
      (⟨p, n⟩ : SizedBuffer T).bytes

/-- So does `recv`. -/
def RecvCovers (T : StandardLayout) (n : ℕ) : Prop :=
  ∀ (self self' : Socket) (p : ℕ),
    ((self.recvBuffer (⟨p, n⟩ : SizedBuffer T)).submit self').Covers
      (⟨p, n⟩ : SizedBuffer T).bytes

/-- A range of `n` elements that is sent is reproduced, byte for byte, in a range that it is
received into. -/
def Reproduced (T : StandardLayout) (n : ℕ) : Prop :=
  ∀ (s s' r r' : Socket) (p q : ℕ) (m m' : ℕ → UInt8),
    Memory.read
      (deliver m m' ((s.sendBuffer (⟨p, n⟩ : SizedBuffer T)).submit s')
        ((r.recvBuffer (⟨q, n⟩ : SizedBuffer T)).submit r'))
      q (n * T.sizeof) = Memory.read m p (n * T.sizeof)

/-- A whole request is reproduced over its own length. -/
lemma read_deliver (m m' : ℕ → UInt8) {s r : TransferRequest} (hlen : r.len = s.len) :
    Memory.read (deliver m m' s r) r.addr s.len = Memory.read m s.addr s.len := by
  have htake : (Memory.read m s.addr s.len).take r.len = Memory.read m s.addr s.len := by
    apply List.take_of_length_le
    rw [Memory.length_read, hlen]
  have hback := Memory.read_write m' r.addr (Memory.read m s.addr s.len)
  rw [Memory.length_read] at hback
  unfold deliver
  rw [htake, hback]

/-- Behind the request nothing is written. -/
lemma deliver_apply_of_le (m m' : ℕ → UInt8) {s r : TransferRequest} {x : ℕ}
    (hx : r.addr + s.len ≤ x) : deliver m m' s r x = m' x := by
  apply Memory.write_apply_of_not
  rw [List.length_take, Memory.length_read]
  omega

/-- **Whole-buffer transfer.** The requests of `send` and `recv` for a range of `n` elements
cover its bytes, and the range is reproduced, exactly for elements of one byte and for empty
ranges. -/
theorem transfer_iff (T : StandardLayout) (n : ℕ) :
    (SendCovers T n ↔ T.sizeof = 1 ∨ n = 0) ∧ (RecvCovers T n ↔ T.sizeof = 1 ∨ n = 0) ∧
      (Reproduced T n ↔ T.sizeof = 1 ∨ n = 0) := by
  have hpos := T.sizeof_pos
  -- the number of elements is the number of bytes
  have hunits : n = n * T.sizeof ↔ T.sizeof = 1 ∨ n = 0 := by
    constructor
    · intro heq
      rcases Nat.eq_zero_or_pos n with h0 | hn
      · exact Or.inr h0
      · exact Or.inl (Nat.eq_of_mul_eq_mul_left hn (by omega))
    · rintro (h1 | h0)
      · rw [h1, Nat.mul_one]
      · rw [h0, Nat.zero_mul]
  refine ⟨⟨fun h => ?_, fun h self self' p => ?_⟩, ⟨fun h => ?_, fun h self self' p => ?_⟩,
    ⟨fun h => ?_, fun h s s' r r' p q m m' => ?_⟩⟩
  · exact hunits.mp (h ⟨0, 0⟩ ⟨0, 0⟩ 0).2
  · exact ⟨rfl, hunits.mpr h⟩
  · exact hunits.mp (h ⟨0, 0⟩ ⟨0, 0⟩ 0).2
  · exact ⟨rfl, hunits.mpr h⟩
  · by_contra hne
    have hlt : n < n * T.sizeof := by
      have hle : n * 1 ≤ n * T.sizeof := Nat.mul_le_mul_left n hpos
      have hneq : ¬ n = n * T.sizeof := fun heq => hne (hunits.mp heq)
      omega
    -- the byte behind the first `n` bytes keeps its old value
    have hread := h ⟨0, 0⟩ ⟨0, 0⟩ ⟨0, 0⟩ ⟨0, 0⟩ 0 0 (fun _ => 1) (fun _ => 0)
    have hbyte := Memory.read_eq_read_iff.mp hread n hlt
    rw [deliver_apply_of_le] at hbyte
    · exact absurd hbyte (by decide)
    · show 0 + n ≤ 0 + n
      omega
  · rw [← hunits.mpr h]
    apply read_deliver m m'
    rfl

/-- Of two elements of two bytes, `send` asks for two bytes. -/
theorem transfer_truncates :
    ¬ SendCovers ⟨2, by decide⟩ 2 ∧ ¬ RecvCovers ⟨2, by decide⟩ 2 ∧
      ¬ Reproduced ⟨2, by decide⟩ 2 := by
  refine ⟨fun h => ?_, fun h => ?_, fun h => ?_⟩
  · exact absurd (h ⟨0, 0⟩ ⟨0, 0⟩ 0).2 (by decide)
  · exact absurd (h ⟨0, 0⟩ ⟨0, 0⟩ 0).2 (by decide)
  · have hread := h ⟨0, 0⟩ ⟨0, 0⟩ ⟨0, 0⟩ ⟨0, 0⟩ 0 0 (fun _ => 1) (fun _ => 0)
    revert hread
    decide

end Zsl.Iouring
