import Zsl.Iouring.Event
import Zsl.Lib.Runs

/-!
# The echo client and the echo server

The two programs at the ends of a connection: `handle_server` of the client sends its messages
one by one and waits for the echo of each, `handle_client` of the server sends back what it
receives. The two streams between them pass bytes on in order, in pieces of any size.

* `logc`: the check of a format string against its arguments, which both programs run into
  after every await;
* `coAwait`: what a `co_await` of a send or a receive returns, by way of its handler;
* `ClientPhase`, `ServerPhase`: where the two coroutines are;
* `echo`: the two programs and the kernel that completes their requests, as a system. No submit
  of theirs fails.
-/

namespace Zsl.Iouring

/-! ## The log -/

/-- The `std::format_error` of a field that has no argument. -/
inductive FormatError where
  | argumentNotFound
deriving DecidableEq, Repr

/-- The fields of a format string. Those of the two programs have no index and no options. -/
def fields : List Char → ℕ
  | '{' :: '}' :: str => fields str + 1
  | _ :: str => fields str
  | [] => 0

/-- `logc(ctx, fmt, args...)`, but for the line it writes. Its `std::runtime_format` is checked when
it runs: an argument too many is left out, and one too few is an exception. -/
def logc (fmt : String) (args : ℕ) : Except FormatError Unit :=
  if fields fmt.toList ≤ args then .ok () else .error .argumentNotFound

example : logc "Client closed" 1 = .ok () := rfl

/-! ## The awaits -/

/-- What a `co_await` returns when its request completes with `res`: the result its handler
leaves in the event, `none` while the handler does not resume. -/
def coAwait (h : Handler) (res : ℤ) : Option (Except ℤ Value) :=
  if (h.call res (Event.mk' h)).2 then (awaitResume (h.call res (Event.mk' h)).1).1 else none

lemma coAwait_onSend_of_pos {res : ℤ} (h : 0 < res) :
    coAwait .onSend res = some (.ok (.bytes res)) := by
  simp [coAwait, Handler.call, onSend, awaitResume, Event.mk', h]

lemma coAwait_onSend_of_not {res : ℤ} (h : ¬ 0 < res) : coAwait .onSend res = none := by
  simp [coAwait, Handler.call, onSend, h]

lemma coAwait_onRecv_of_pos {res : ℤ} (h : 0 < res) :
    coAwait .onRecv res = some (.ok (.bytes res)) := by
  simp [coAwait, Handler.call, onRecv, awaitResume, Event.mk', h]

lemma coAwait_onRecv_of_not {res : ℤ} (h : ¬ 0 < res) :
    coAwait .onRecv res = some (.error res) := by
  by_cases h0 : res = 0
  · simp [coAwait, Handler.call, onRecv, awaitResume, Event.mk', h0]
  · simp [coAwait, Handler.call, onRecv, awaitResume, Event.mk', h, h0]

/-- The number in a `send_result_t` or a `recv_result_t`. -/
def Value.size : Value → ℕ
  | .bytes n => n.toNat
  | _ => 0

section
variable {P : Type}

/-- `unhandled_exception` does nothing: a coroutine whose body throws has ended. -/
def unhandledException (stopped : P) : Except FormatError P → P
  | .ok phase => phase
  | .error _ => stopped

/-- A coroutine after its `co_await`, with the rest of its loop up to the next one. -/
def resume (hung stopped : P) (body : Except ℤ Value → Except FormatError P) :
    Option (Except ℤ Value) → P
  | none => hung
  | some result => unhandledException stopped (body result)

end

abbrev Message : Type := List UInt8

/-! ## The programs -/

/-- Where `handle_server` is. -/
inductive ClientPhase where
  /-- suspended in the `send` of the first message, with the others to come -/
  | sending (sent : Message) (rest : List Message)
  /-- suspended in the `recv` of its echo -/
  | receiving (sent : Message) (rest : List Message)
  /-- suspended in a request whose completion its handler has dropped -/
  | hung
  /-- out of its loop, with the socket destroyed -/
  | stopped
deriving DecidableEq, Repr

/-- The head of the loop over the messages, and what is behind the loop. -/
def ClientPhase.loop : List Message → Except FormatError ClientPhase
  | sent :: rest => return .sending sent rest
  | [] => do
    logc "<<<<<<<client>>>>>>> Stopping..." 0
    return .stopped

/-- The loop after `co_await ss.send(sent)`. -/
def ClientPhase.sent (sent : Message) (rest : List Message) :
    Except ℤ Value → Except FormatError ClientPhase
  | .error _ => do
    logc "<<<<<<<client>>>>>>> Send failed on...  {}" 1
    loop []
  | .ok _ => do
    logc "<<<<<<<client>>>>>>> Sent...  {} bytes containing {}" 2
    logc "<<<<<<<client>>>>>>> Waiting for server to echo it" 0
    return .receiving sent rest

/-- The loop after `co_await ss.recv(buffer)`. -/
def ClientPhase.received (sent : Message) (rest : List Message) (buffer : Message)
    (rr : Except ℤ Value) : Except FormatError ClientPhase := do
  -- no argument here
  logc "<<<<<<<client>>>>>>> Received something...  {}" 0
  match rr with
  | .error _ =>
    logc "<<<<<<<client>>>>>>> Receive failed when expecting...  {}" 1
    loop []
  | .ok rr =>
    let received := buffer.take rr.size
    logc "<<<<<<<client>>>>>>> Received...  {}" 1
    if sent ≠ received then loop [] else loop rest

/-- Where `handle_client` is. -/
inductive ServerPhase where
  | receiving
  /-- suspended in the `send` of what it has received -/
  | sending (data : Message)
  | hung
  | stopped
deriving DecidableEq, Repr

/-- The head of the loop. -/
def ServerPhase.loop : Except FormatError ServerPhase := do
  logc "<<<<<<<server>>>>>>> Waiting for client to send something on... {}" 1
  return .receiving

/-- The loop after `co_await cs.recv(buf)`. -/
def ServerPhase.received (buf : Message) : Except ℤ Value → Except FormatError ServerPhase
  | .error _ => do
    logc "<<<<<<<server>>>>>>> Client closed" 1
    return .stopped
  | .ok rr => do
    let data := buf.take rr.size
    logc "<<<<<<<server>>>>>>> Received... {} bytes containing {}" 2
    return .sending data

/-- The loop after `co_await cs.send(data)`. -/
def ServerPhase.sent : Except ℤ Value → Except FormatError ServerPhase
  | .error _ => do
    logc "<<<<<<<server>>>>>>> Client closed" 1
    return .stopped
  | .ok _ => do
    logc "<<<<<<<server>>>>>>> Sent... {} bytes containing {}" 2
    loop

/-! ## The connection -/

/-- The size of the buffer of `handle_server`. -/
def clientBufferSize : ℕ := 4096

structure EchoState where
  client : ClientPhase
  server : ServerPhase
  /-- the bytes on the way to the server -/
  toServer : Message
  toClient : Message
  /-- what the client has handed to the stream, and got from it, so far -/
  sentBytes : Message
  receivedBytes : Message

namespace EchoState

protected def start (messages : List Message) : EchoState where
  client := unhandledException .stopped (ClientPhase.loop messages)
  server := unhandledException .stopped ServerPhase.loop
  toServer := []
  toClient := []
  sentBytes := []
  receivedBytes := []

/-- The send of the client completes with `res`: so many bytes are in the stream. -/
def clientSend (s : EchoState) (sent : Message) (rest : List Message) (res : ℤ) : EchoState :=
  { s with
    client := resume .hung .stopped (ClientPhase.sent sent rest) (coAwait .onSend res)
    toServer := s.toServer ++ sent.take res.toNat
    sentBytes := s.sentBytes ++ sent.take res.toNat }

/-- The receive of the client completes with `res`: so many bytes are in the buffer. -/
def clientRecv (s : EchoState) (sent : Message) (rest : List Message) (res : ℤ) : EchoState :=
  let buffer := s.toClient.take res.toNat
  { s with
    client := resume .hung .stopped (ClientPhase.received sent rest buffer) (coAwait .onRecv res)
    toClient := s.toClient.drop res.toNat
    receivedBytes := s.receivedBytes ++ buffer }

def serverRecv (s : EchoState) (res : ℤ) : EchoState :=
  let buf := s.toServer.take res.toNat
  { s with
    server := resume .hung .stopped (ServerPhase.received buf) (coAwait .onRecv res)
    toServer := s.toServer.drop res.toNat }

def serverSend (s : EchoState) (data : Message) (res : ℤ) : EchoState :=
  { s with
    server := resume .hung .stopped ServerPhase.sent (coAwait .onSend res)
    toClient := s.toClient ++ data.take res.toNat }

end EchoState

/-- The codes with which a receive can complete: an error, the end of a stream that is closed
and has no bytes left, or a number of bytes that are there and fit. -/
def RecvCompletes (size : ℕ) (stream : Message) (closed : Prop) (res : ℤ) : Prop :=
  res < 0 ∨ res = 0 ∧ stream = [] ∧ closed ∨
    0 < res ∧ res ≤ size ∧ res ≤ stream.length

instance (size : ℕ) (stream : Message) (closed : Prop) [Decidable closed] (res : ℤ) :
    Decidable (RecvCompletes size stream closed res) :=
  inferInstanceAs (Decidable (_ ∨ _))

/-- The completions, with their result codes. -/
inductive EchoAction where
  | clientSend (res : ℤ)
  | clientRecv (res : ℤ)
  | serverRecv (res : ℤ)
  | serverSend (res : ℤ)
deriving DecidableEq, Repr

/-- What each completion does, if its request is pending. A send completes with an error, or
with a number of the bytes it was given. -/
def echoStep (serverBufferSize : ℕ) (s : EchoState) : EchoAction → Option EchoState
  | .clientSend res =>
    match s.client with
    | .sending sent rest =>
      if res ≤ sent.length then some (s.clientSend sent rest res) else none
    | _ => none
  | .clientRecv res =>
    match s.client with
    | .receiving sent rest =>
      if RecvCompletes clientBufferSize s.toClient (s.server = .stopped) res then
        some (s.clientRecv sent rest res)
      else none
    | _ => none
  | .serverRecv res =>
    match s.server with
    | .receiving =>
      if RecvCompletes serverBufferSize s.toServer (s.client = .stopped) res then
        some (s.serverRecv res)
      else none
    | _ => none
  | .serverSend res =>
    match s.server with
    | .sending data => if res ≤ data.length then some (s.serverSend data res) else none
    | _ => none

/-- A client with messages to send, and a server with a buffer of that size. -/
def echo (serverBufferSize : ℕ) (messages : List Message) : Lib.System EchoState EchoAction :=
  ⟨EchoState.start messages, echoStep serverBufferSize⟩

end Zsl.Iouring
