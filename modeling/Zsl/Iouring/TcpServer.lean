import Zsl.Iouring.Address

/-!
# The listening socket of a server

`tcp_server` makes a socket, binds it, again and again until the OS lets it, and listens.

* `ServerOs`: what the OS answers;
* `bindLoop`, `tcpServer`: the calls and the outcome, as far as `fuel` rounds of the loop go;
* `tcp_server_iff`: which outcome a server has, if it has one.
-/

namespace Zsl.Iouring
open Zsl.Types

/-- What the OS answers to a server. -/
structure ServerOs where
  /-- `::socket(AF_INET, SOCK_STREAM, IPPROTO_TCP)` -/
  socket : ℤ
  /-- `::bind`, at each try -/
  bind : ℕ → ℤ
  listen : ℤ
  /-- `io_uring_submit` and `::close`, in the destructor of the socket -/
  submit : ℤ
  close : ℤ

/-- The calls of a server, in order. -/
inductive ServerCall where
  | address (c : AddressCall)
  /-- `std::this_thread::sleep_for` -/
  | sleep (secs : ℕ)
  /-- `::listen` -/
  | listen (fd : ℤ) (backlog : ℕ)
  /-- a call of `~socket_t` -/
  | closing (c : Call)
deriving DecidableEq, Repr

inductive ServerOutcome where
  | returned (s : Socket)
  /-- `std::runtime_error` is thrown, with the socket destroyed -/
  | threw (what : String)
  /-- the destructor throws as the stack is unwound -/
  | terminated
deriving DecidableEq, Repr

section
-- `libc n` is what the `n`-th try meets: what a rejected text leaves behind can change
variable (libc : ℕ → Libc) (os : ServerOs) (ip : Estring ipaddressv4) (port : UInt16)

/-- `while (!s.bind(ip, port))` from the `n`-th try on, `none` while the loop goes on. -/
def bindLoop (s : Socket) : ℕ → ℕ → Option (List ServerCall)
  | 0, _ => none
  | fuel + 1, n =>
    let b := s.bind (libc n) ip port (os.bind n)
    if b.2 then some (b.1.map .address)
    else (bindLoop s fuel (n + 1)).map fun calls => b.1.map .address ++ .sleep 5 :: calls

/-- `s.listen()`, and what follows it. -/
def listenOrThrow (s : Socket) : List ServerCall × ServerOutcome :=
  if os.listen = 0 then ([.listen s.fd 8], .returned s)
  else
    let k := s.close os.submit os.close
    (.listen s.fd 8 :: k.calls.map .closing,
      match k.result with
      | .error _ => .terminated
      | .ok _ => .threw "Can't listen")

/-- `tcp_server`. -/
def tcpServer (ring : RingId) (fuel : ℕ) : Option (List ServerCall × ServerOutcome) :=
  let s : Socket := ⟨ring, os.socket⟩
  (bindLoop libc os ip port s fuel 0).map fun calls =>
    (calls ++ (listenOrThrow os s).1, (listenOrThrow os s).2)

/-! ## The loop -/

/-- The `n`-th try. -/
def bindCall (s : Socket) (n : ℕ) : ServerCall :=
  .address (.bind s.fd (toSockaddr (libc n) ip port) sizeofSockaddrIn)

/-- From the `n`-th try on, `d` tries that fail and one that does not. -/
def bindCalls (s : Socket) (n : ℕ) : ℕ → List ServerCall
  | 0 => [bindCall libc ip port s n]
  | d + 1 => bindCall libc ip port s n :: .sleep 5 :: bindCalls s (n + 1) d

/-- The first try from the `n`-th on that the OS grants is the `d`-th after it. -/
def Granted (n d : ℕ) : Prop := os.bind (n + d) = 0 ∧ ∀ k < d, os.bind (n + k) ≠ 0

variable {os}

lemma granted_zero {n : ℕ} : Granted os n 0 ↔ os.bind n = 0 := by
  unfold Granted
  simp

lemma granted_succ {n d : ℕ} : Granted os n (d + 1) ↔ os.bind n ≠ 0 ∧ Granted os (n + 1) d := by
  unfold Granted
  have hadd (k : ℕ) : n + 1 + k = n + (k + 1) := by omega
  simp only [hadd]
  refine ⟨fun ⟨hzero, hne⟩ => ⟨hne 0 (by omega), hzero, fun k hk => hne (k + 1) (by omega)⟩, ?_⟩
  rintro ⟨hn, hzero, hne⟩
  refine ⟨hzero, fun k hk => ?_⟩
  cases k with
  | zero => exact hn
  | succ k => exact hne k (by omega)

lemma Granted.unique {n d e : ℕ} (hd : Granted os n d) (he : Granted os n e) : d = e := by
  have hde : ¬ d < e := fun hlt => he.2 d hlt hd.1
  have hed : ¬ e < d := fun hlt => hd.2 e hlt he.1
  omega

/-- The loop ends at the first try that is granted, given a round for it. -/
lemma bindLoop_eq_some_iff {s : Socket} {fuel n : ℕ} {calls : List ServerCall} :
    bindLoop libc os ip port s fuel n = some calls ↔
      ∃ d < fuel, Granted os n d ∧ calls = bindCalls libc ip port s n d := by
  induction fuel generalizing n calls with
  | zero => simp [bindLoop]
  | succ fuel ih =>
    unfold bindLoop Socket.bind
    by_cases hn : os.bind n = 0
    · simp only [hn, decide_true, if_true]
      constructor
      · intro h
        exact ⟨0, by omega, granted_zero.mpr hn, (Option.some.inj h).symm⟩
      · rintro ⟨d, -, hd, rfl⟩
        obtain rfl := hd.unique (granted_zero.mpr hn)
        rfl
    · simp only [hn, decide_false, Bool.false_eq_true, if_false, Option.map_eq_some_iff]
      constructor
      · rintro ⟨rest, hrest, rfl⟩
        obtain ⟨d, hd, hgranted, rfl⟩ := ih.mp hrest
        exact ⟨d + 1, by omega, granted_succ.mpr ⟨hn, hgranted⟩, rfl⟩
      · rintro ⟨d, hd, hgranted, rfl⟩
        cases d with
        | zero => exact absurd (granted_zero.mp hgranted) hn
        | succ d =>
          have hrest := (granted_succ.mp hgranted).2
          exact ⟨_, ih.mpr ⟨d, by omega, hrest, rfl⟩, rfl⟩

/-- What follows the loop, for a socket that is open. -/
lemma listenOrThrow_eq_iff {s : Socket} (hs : s.fd ≠ invalidSocketFd) {calls : List ServerCall}
    {out : ServerOutcome} :
    listenOrThrow os s = (calls, out) ↔ ∃ rest, calls = .listen s.fd 8 :: rest ∧
      ((os.listen = 0 ∧ rest = [] ∧ out = .returned s) ∨
        (os.listen ≠ 0 ∧ 0 < os.submit ∧ out = .threw "Can't listen" ∧
          rest = [.closing (.prepareCancel s.ring s.fd), .closing (.submit s.ring),
            .closing (.osClose s.fd)]) ∨
        (os.listen ≠ 0 ∧ os.submit ≤ 0 ∧ out = .terminated ∧
          rest = [.closing (.prepareCancel s.ring s.fd), .closing (.submit s.ring)])) := by
  unfold listenOrThrow Socket.close
  rw [if_neg hs]
  by_cases hl : os.listen = 0
  · simp [hl, eq_comm]
  · by_cases hr : os.submit ≤ 0
    · have hr' : ¬ 0 < os.submit := by omega
      simp [hl, hr, hr', eq_comm, and_comm]
    · have hr' : 0 < os.submit := by omega
      simp [hl, hr, hr', eq_comm, and_comm]

end

/-- A server binds once for each try up to the first that the OS grants, five seconds apart, then
listens, and without such a try, as on an invalid descriptor, has no outcome. The socket it
returns is open, and the one it throws over is closed. -/
theorem tcp_server_iff (libc : ℕ → Libc) (os : ServerOs)
    (hbind : os.socket = invalidSocketFd → ∀ n, os.bind n ≠ 0) (ip : Estring ipaddressv4)
    (port : UInt16) (ring : RingId) (calls : List ServerCall) (out : ServerOutcome) :
    (∃ fuel, tcpServer libc os ip port ring fuel = some (calls, out)) ↔
      ∃ n rest, Granted os 0 n ∧ os.socket ≠ invalidSocketFd ∧
        calls = bindCalls libc ip port ⟨ring, os.socket⟩ 0 n ++ .listen os.socket 8 :: rest ∧
        ((os.listen = 0 ∧ rest = [] ∧ out = .returned ⟨ring, os.socket⟩) ∨
          (os.listen ≠ 0 ∧ 0 < os.submit ∧ out = .threw "Can't listen" ∧
            rest = [.closing (.prepareCancel ring os.socket), .closing (.submit ring),
              .closing (.osClose os.socket)]) ∨
          (os.listen ≠ 0 ∧ os.submit ≤ 0 ∧ out = .terminated ∧
            rest = [.closing (.prepareCancel ring os.socket), .closing (.submit ring)])) := by
  unfold tcpServer
  simp only [Option.map_eq_some_iff, bindLoop_eq_some_iff, Prod.mk.injEq]
  generalize hlisten : listenOrThrow os ⟨ring, os.socket⟩ = after
  obtain ⟨last, res⟩ := after
  constructor
  · rintro ⟨fuel, binds, ⟨n, -, hn, rfl⟩, rfl, rfl⟩
    have hfd : os.socket ≠ invalidSocketFd := fun h => hbind h _ hn.1
    obtain ⟨rest, rfl, hcases⟩ := (listenOrThrow_eq_iff hfd).mp hlisten
    exact ⟨n, rest, hn, hfd, rfl, hcases⟩
  · rintro ⟨n, rest, hn, hfd, rfl, hcases⟩
    obtain ⟨rfl, rfl⟩ :=
      Prod.mk.inj (hlisten.symm.trans ((listenOrThrow_eq_iff hfd).mpr ⟨rest, rfl, hcases⟩))
    exact ⟨n + 1, _, ⟨n, Nat.lt_succ_self n, hn, rfl⟩, rfl, rfl⟩

/-- An OS that refuses two tries. -/
def busyTwice : ServerOs where
  socket := 3
  bind n := if n < 2 then -1 else 0
  listen := 0
  submit := 1
  close := 0

/-- A server that is let in at its third try, at 127.0.0.1. -/
theorem tcp_server_iff_busy :
    ∃ ip : Estring ipaddressv4, ip.toStringView = [49, 50, 55, 46, 48, 46, 48, 46, 49] ∧
      ∃ fuel, tcpServer (fun _ => localhostOnly) busyTwice ip 80 0 fuel = some
        ([.address (.bind 3 (toSockaddr localhostOnly ip 80) 16), .sleep 5,
          .address (.bind 3 (toSockaddr localhostOnly ip 80) 16), .sleep 5,
          .address (.bind 3 (toSockaddr localhostOnly ip 80) 16), .listen 3 8],
          .returned ⟨0, 3⟩) := by
  obtain ⟨ip, hip⟩ := Estring.exists_of_admits (p := ipaddressv4)
    (s := [49, 50, 55, 46, 48, 46, 48, 46, 49]) ⟨by decide, by decide⟩
  refine ⟨ip, Estring.toStringView_eq hip, ?_⟩
  have hsocket : busyTwice.socket ≠ invalidSocketFd := by decide
  apply (tcp_server_iff (fun _ => localhostOnly) busyTwice (fun h => absurd h hsocket) ip 80 0
    _ _).mpr
  exact ⟨2, [], ⟨rfl, by decide⟩, hsocket, rfl, .inl ⟨rfl, rfl, rfl⟩⟩

end Zsl.Iouring
