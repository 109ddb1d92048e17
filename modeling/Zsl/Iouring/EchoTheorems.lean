import Mathlib.Data.List.Infix
import Zsl.Iouring.Echo

/-!
# What the echo protocol keeps

The line that `handle_server` logs after its receive has a field and no argument, so the client
ends with its first receive, whatever that returns.

* `EchoMove`: what a completion can do;
* `EchoInv`: the bytes between the two programs;
* `echo_one_round`, `echo_conserves_iff`: what this says of every run.
-/

namespace Zsl.Iouring

/-! ## The loops -/

lemma logc_eq_ok {fmt : String} {args : ℕ} (h : fields fmt.toList ≤ args) :
    logc fmt args = .ok () := if_pos h

lemma logc_eq_error {fmt : String} {args : ℕ} (h : args < fields fmt.toList) :
    logc fmt args = .error .argumentNotFound := if_neg (Nat.not_le.mpr h)

section
variable {sent buffer : Message} {rest : List Message}

lemma ClientPhase.loop_nil : ClientPhase.loop [] = .ok .stopped := by
  unfold ClientPhase.loop
  rw [logc_eq_ok (by decide)]
  rfl

/-- The client goes on from its send to its receive. -/
lemma ClientPhase.sent_ok (v : Value) :
    ClientPhase.sent sent rest (.ok v) = .ok (.receiving sent rest) := by
  unfold ClientPhase.sent
  rw [logc_eq_ok (by decide), logc_eq_ok (by decide)]
  rfl

/-- It never goes on from there. -/
lemma ClientPhase.received_eq (rr : Except ℤ Value) :
    ClientPhase.received sent rest buffer rr = .error .argumentNotFound := by
  unfold ClientPhase.received
  rw [logc_eq_error (by decide)]
  rfl

lemma ServerPhase.loop_eq : ServerPhase.loop = .ok .receiving := by
  unfold ServerPhase.loop
  rw [logc_eq_ok (by decide)]
  rfl

lemma ServerPhase.received_ok (v : Value) :
    ServerPhase.received buffer (.ok v) = .ok (.sending (buffer.take v.size)) := by
  unfold ServerPhase.received
  rw [logc_eq_ok (by decide)]
  rfl

lemma ServerPhase.received_error (res : ℤ) :
    ServerPhase.received buffer (.error res) = .ok .stopped := by
  unfold ServerPhase.received
  rw [logc_eq_ok (by decide)]
  rfl

lemma ServerPhase.sent_ok (v : Value) : ServerPhase.sent (.ok v) = .ok .receiving := by
  unfold ServerPhase.sent
  rw [logc_eq_ok (by decide), ServerPhase.loop_eq]
  rfl

namespace EchoState

lemma start_client_nil : (EchoState.start []).client = .stopped := by
  rw [EchoState.start, ClientPhase.loop_nil]
  rfl

lemma start_client_cons : (EchoState.start (sent :: rest)).client = .sending sent rest := rfl

lemma start_server (messages : List Message) : (EchoState.start messages).server = .receiving := by
  rw [EchoState.start, ServerPhase.loop_eq]
  rfl

end EchoState

end

/-! ## The branches of a completion -/

/-- What a completion can do. -/
inductive EchoMove (s : EchoState) : EchoAction → EchoState → Prop
  | clientSent {sent : Message} {rest : List Message} {k : ℕ}
      (hc : s.client = .sending sent rest) (hk : 0 < k) (hle : k ≤ sent.length) :
      EchoMove s (.clientSend k) { s with
        client := .receiving sent rest
        toServer := s.toServer ++ sent.take k
        sentBytes := s.sentBytes ++ sent.take k }
  | clientDropped {sent : Message} {rest : List Message} {res : ℤ}
      (hc : s.client = .sending sent rest) (hres : res ≤ 0) :
      EchoMove s (.clientSend res) { s with client := .hung }
  | clientThrew {sent : Message} {rest : List Message} {res : ℤ}
      (hc : s.client = .receiving sent rest) (hle : res.toNat ≤ s.toClient.length) :
      EchoMove s (.clientRecv res) { s with
        client := .stopped
        toClient := s.toClient.drop res.toNat
        receivedBytes := s.receivedBytes ++ s.toClient.take res.toNat }
  | serverReceived {k : ℕ} (hs : s.server = .receiving) (hk : 0 < k) (hle : k ≤ s.toServer.length) :
      EchoMove s (.serverRecv k) { s with
        server := .sending (s.toServer.take k)
        toServer := s.toServer.drop k }
  | serverFailed {res : ℤ} (hs : s.server = .receiving) (hres : res ≤ 0) :
      EchoMove s (.serverRecv res) { s with server := .stopped }
  | serverSent {data : Message} {k : ℕ} (hs : s.server = .sending data) (hk : 0 < k)
      (hle : k ≤ data.length) :
      EchoMove s (.serverSend k) { s with
        server := .receiving
        toClient := s.toClient ++ data.take k }
  | serverDropped {data : Message} {res : ℤ} (hs : s.server = .sending data) (hres : res ≤ 0) :
      EchoMove s (.serverSend res) { s with server := .hung }

/-- A code is a number of bytes or none. -/
lemma code_cases (res : ℤ) : (∃ k : ℕ, 0 < k ∧ res = k) ∨ res ≤ 0 := by
  by_cases h : 0 < res
  · exact .inl ⟨res.toNat, by omega, by omega⟩
  · exact .inr (by omega)

lemma RecvCompletes.le_length {size : ℕ} {stream : Message} {closed : Prop} {res : ℤ}
    (h : RecvCompletes size stream closed res) : res.toNat ≤ stream.length := by
  unfold RecvCompletes at h
  omega

lemma echoMove_clientSend {s : EchoState} {sent : Message} {rest : List Message}
    {res : ℤ} (hc : s.client = .sending sent rest) (hle : res ≤ sent.length) :
    EchoMove s (.clientSend res) (s.clientSend sent rest res) := by
  unfold EchoState.clientSend
  rcases code_cases res with ⟨k, hk, rfl⟩ | hres
  · rw [coAwait_onSend_of_pos (by omega), resume, ClientPhase.sent_ok]
    exact .clientSent hc hk (by omega)
  · rw [coAwait_onSend_of_not (by omega), Int.toNat_of_nonpos hres, List.take_zero,
      List.append_nil, List.append_nil]
    exact .clientDropped hc hres

/-- A receive of the client returns in any case, and what follows throws in any case. -/
lemma resume_received (sent : Message) (rest : List Message) (buffer : Message) (res : ℤ) :
    resume .hung .stopped (ClientPhase.received sent rest buffer) (coAwait .onRecv res) =
      .stopped := by
  by_cases hpos : 0 < res
  · rw [coAwait_onRecv_of_pos hpos, resume, ClientPhase.received_eq]
    rfl
  · rw [coAwait_onRecv_of_not hpos, resume, ClientPhase.received_eq]
    rfl

lemma echoMove_clientRecv {s : EchoState} {sent : Message} {rest : List Message}
    {res : ℤ} (hc : s.client = .receiving sent rest) {closed : Prop}
    (hr : RecvCompletes clientBufferSize s.toClient closed res) :
    EchoMove s (.clientRecv res) (s.clientRecv sent rest res) := by
  dsimp only [EchoState.clientRecv]
  rw [resume_received]
  exact .clientThrew hc hr.le_length

/-- A whole buffer is read. -/
lemma take_size (bytes : Message) (k : ℕ) :
    (bytes.take k).take (Value.bytes (k : ℤ)).size = bytes.take k := by
  show (bytes.take k).take k = _
  rw [List.take_take, Nat.min_self]

lemma echoMove_serverRecv {s : EchoState} {res : ℤ} (hs : s.server = .receiving)
    {size : ℕ} {closed : Prop} (hr : RecvCompletes size s.toServer closed res) :
    EchoMove s (.serverRecv res) (s.serverRecv res) := by
  dsimp only [EchoState.serverRecv]
  rcases code_cases res with ⟨k, hk, rfl⟩ | hres
  · rw [coAwait_onRecv_of_pos (by omega), resume, ServerPhase.received_ok, Int.toNat_natCast,
      take_size]
    exact .serverReceived hs hk hr.le_length
  · rw [coAwait_onRecv_of_not (by omega), resume, ServerPhase.received_error,
      Int.toNat_of_nonpos hres, List.drop_zero]
    exact .serverFailed hs hres

lemma echoMove_serverSend {s : EchoState} {data : Message} {res : ℤ}
    (hs : s.server = .sending data) (hle : res ≤ data.length) :
    EchoMove s (.serverSend res) (s.serverSend data res) := by
  unfold EchoState.serverSend
  rcases code_cases res with ⟨k, hk, rfl⟩ | hres
  · rw [coAwait_onSend_of_pos (by omega), resume, ServerPhase.sent_ok]
    exact .serverSent hs hk (by omega)
  · rw [coAwait_onSend_of_not (by omega), Int.toNat_of_nonpos hres, List.take_zero,
      List.append_nil]
    exact .serverDropped hs hres

/-- Every completion is one of the branches. -/
theorem echoStep_move {n : ℕ} {s t : EchoState} {act : EchoAction}
    (h : echoStep n s act = some t) : EchoMove s act t := by
  unfold echoStep at h
  split at h
  · split at h
    · next hc =>
      obtain ⟨hle, heq⟩ := Option.ite_none_right_eq_some.mp h
      exact Option.some.inj heq ▸ echoMove_clientSend hc hle
    · cases h
  · split at h
    · next hc =>
      obtain ⟨hr, heq⟩ := Option.ite_none_right_eq_some.mp h
      exact Option.some.inj heq ▸ echoMove_clientRecv hc hr
    · cases h
  · split at h
    · next hs =>
      obtain ⟨hr, heq⟩ := Option.ite_none_right_eq_some.mp h
      exact Option.some.inj heq ▸ echoMove_serverRecv hs hr
    · cases h
  · split at h
    · next hs =>
      obtain ⟨hle, heq⟩ := Option.ite_none_right_eq_some.mp h
      exact Option.some.inj heq ▸ echoMove_serverSend hs hle
    · cases h

/-! ## The bytes between the programs -/

/-- What the server has received and not yet sent. -/
def ServerPhase.hand : ServerPhase → Message
  | .sending data => data
  | _ => []

namespace EchoState

/-- The bytes between the send of the client and its receive, the nearest to it first. -/
def transit (s : EchoState) : Message := s.toClient ++ s.server.hand ++ s.toServer

/-- What the client has received, and what is on the way to it. -/
def heard (s : EchoState) : Message := s.receivedBytes ++ s.transit

lemma transit_eq_nil {s : EchoState} :
    s.transit = [] ↔ s.toClient = [] ∧ s.server.hand = [] ∧ s.toServer = [] := by
  simp [transit]

end EchoState

/-- A send of the server takes all it is given. -/
def WholeSend (s : EchoState) (act : EchoAction) : Prop :=
  ∀ data res, act = .serverSend res → s.server = .sending data → res = data.length

/-- What a completion does to the bytes heard: they follow those sent, or the server drops
some of them. -/
inductive HeardMove (s : EchoState) (act : EchoAction) (t : EchoState) : Prop
  | grows (bytes : Message) (hw : WholeSend s act) (hs : t.sentBytes = s.sentBytes ++ bytes)
      (hh : t.heard = s.heard ++ bytes)
  | drops (hw : ¬ WholeSend s act) (hs : t.sentBytes = s.sentBytes)
      (hh : t.heard.Sublist s.heard) (hlt : t.heard.length < s.heard.length)

/-- A completion that is not of a send of the server. -/
lemma HeardMove.of_eq {s t : EchoState} {act : EchoAction}
    (hact : ∀ res, act ≠ .serverSend res) (hs : t.sentBytes = s.sentBytes)
    (hh : t.heard = s.heard) : HeardMove s act t := by
  apply HeardMove.grows []
  · intro data res h
    exact absurd h (hact res)
  · rw [hs, List.append_nil]
  · rw [hh, List.append_nil]

/-- A send of the server keeps a part of its data. -/
lemma HeardMove.of_send {s t : EchoState} {data : Message} {res : ℤ}
    (hs : s.server = .sending data) (hdata : data ≠ []) (hsent : t.sentBytes = s.sentBytes)
    (hle : res ≤ data.length)
    (hh : t.heard = s.receivedBytes ++ (s.toClient ++ data.take res.toNat ++ s.toServer)) :
    HeardMove s (.serverSend res) t := by
  have hheard : s.heard = s.receivedBytes ++ (s.toClient ++ data ++ s.toServer) := by
    rw [EchoState.heard, EchoState.transit, hs]
    rfl
  by_cases hw : res = data.length
  · apply HeardMove.grows []
    · intro data' res' hact hs'
      cases hact
      obtain rfl := ServerPhase.sending.inj (hs.symm.trans hs')
      exact hw
    · rw [hsent, List.append_nil]
    · rw [hh, hheard, hw, Int.toNat_natCast, List.take_length, List.append_nil]
  · have hpos := List.length_pos_iff.mpr hdata
    apply HeardMove.drops _ hsent
    · rw [hh, hheard]
      exact ((((data.take_sublist res.toNat).append_left _).append_right _).append_left _)
    · rw [hh, hheard]
      simp only [List.length_append, List.length_take]
      omega
    · intro h
      exact hw (h data res rfl hs)

/-- What the client takes off the stream it has heard before. -/
lemma heard_take_drop {s : EchoState} (k : ℕ) :
    s.receivedBytes ++ s.toClient.take k ++ (s.toClient.drop k ++ s.server.hand ++ s.toServer) =
      s.heard := by
  rw [EchoState.heard, EchoState.transit, List.append_assoc (s.toClient.drop k),
    List.append_assoc s.receivedBytes, ← List.append_assoc (s.toClient.take k),
    List.take_append_drop, ← List.append_assoc s.toClient]

lemma EchoMove.heardMove {s t : EchoState} {act : EchoAction} (hm : EchoMove s act t)
    (hdata : ∀ data, s.server = .sending data → data ≠ []) : HeardMove s act t := by
  cases hm with
  | @clientSent sent rest k hc hk hle =>
    apply HeardMove.grows (sent.take k) _ rfl
    · simp [EchoState.heard, EchoState.transit]
    · intro data res h
      cases h
  | clientDropped hc hres => exact .of_eq (by simp) rfl rfl
  | @clientThrew sent rest res hc hle =>
    refine .of_eq (by simp) rfl ?_
    exact heard_take_drop res.toNat
  | serverReceived hs hk hle =>
    refine .of_eq (by simp) rfl ?_
    simp [EchoState.heard, EchoState.transit, hs, ServerPhase.hand]
  | serverFailed hs hres =>
    refine .of_eq (by simp) rfl ?_
    simp [EchoState.heard, EchoState.transit, hs, ServerPhase.hand]
  | @serverSent data k hs hk hle =>
    refine .of_send hs (hdata data hs) rfl (by omega) ?_
    simp [EchoState.heard, EchoState.transit, ServerPhase.hand]
  | @serverDropped data res hs hres =>
    have hnil : data.take res.toNat = [] := by
      rw [Int.toNat_of_nonpos hres, List.take_zero]
    refine .of_send hs (hdata data hs) rfl (by omega) ?_
    rw [hnil]
    simp [EchoState.heard, EchoState.transit, ServerPhase.hand]

/-- What holds in every state. The client sends or waits for the first message only. -/
structure EchoInv (messages : List Message) (s : EchoState) : Prop where
  data : ∀ data, s.server = .sending data → data ≠ []
  heard : s.heard.Sublist s.sentBytes
  sent : s.sentBytes <+: messages.headD []
  sending : ∀ sent rest, s.client = .sending sent rest → sent :: rest = messages ∧ s.sentBytes = []
  receiving : ∀ sent rest, s.client = .receiving sent rest →
    sent :: rest = messages ∧ (s.server = .receiving → s.transit ≠ [])

namespace EchoInv
variable {messages : List Message} {n : ℕ} {s t : EchoState} {act : EchoAction}

protected lemma start (messages : List Message) : EchoInv messages (.start messages) where
  data data h := by
    rw [EchoState.start_server] at h
    cases h
  heard := by
    rw [EchoState.heard, EchoState.transit, EchoState.start_server]
    exact List.Sublist.refl []
  sent := List.nil_prefix
  sending sent rest h := by
    cases messages with
    | nil =>
      rw [EchoState.start_client_nil] at h
      cases h
    | cons message messages =>
      rw [EchoState.start_client_cons] at h
      obtain ⟨rfl, rfl⟩ := ClientPhase.sending.inj h
      exact ⟨rfl, rfl⟩
  receiving sent rest h := by
    cases messages with
    | nil =>
      rw [EchoState.start_client_nil] at h
      cases h
    | cons => cases h

lemma step_data (hm : EchoMove s act t) (hi : EchoInv messages s) :
    ∀ data, t.server = .sending data → data ≠ [] := by
  intro data h
  cases hm with
  | @serverReceived k hs hk hle =>
    obtain rfl := ServerPhase.sending.inj h
    rw [← List.length_pos_iff, List.length_take]
    omega
  | serverFailed => cases h
  | serverSent => cases h
  | serverDropped => cases h
  | _ => exact hi.data data h

lemma step_heard (hm : EchoMove s act t) (hi : EchoInv messages s) :
    t.heard.Sublist t.sentBytes := by
  cases hm.heardMove hi.data with
  | grows bytes hw hs hh =>
    rw [hs, hh]
    exact hi.heard.append_right bytes
  | drops hw hs hh hlt =>
    rw [hs]
    exact hh.trans hi.heard

lemma step_sent (hm : EchoMove s act t) (hi : EchoInv messages s) :
    t.sentBytes <+: messages.headD [] := by
  cases hm with
  | @clientSent sent rest k hc hk hle =>
    obtain ⟨hmessages, hnone⟩ := hi.sending sent rest hc
    rw [← hmessages, hnone]
    exact sent.take_prefix k
  | _ => exact hi.sent

lemma step_sending (hm : EchoMove s act t) (hi : EchoInv messages s) :
    ∀ sent rest, t.client = .sending sent rest →
      sent :: rest = messages ∧ t.sentBytes = [] := by
  intro sent rest h
  -- no completion leads back to a send of the client
  cases hm with
  | clientSent => cases h
  | clientDropped => cases h
  | clientThrew => cases h
  | _ => exact hi.sending sent rest h

lemma step_receiving (hm : EchoMove s act t) (hi : EchoInv messages s) :
    ∀ sent rest, t.client = .receiving sent rest →
      sent :: rest = messages ∧ (t.server = .receiving → t.transit ≠ []) := by
  intro sent rest h
  cases hm with
  | @clientSent sent' rest' k hc hk hle =>
    obtain ⟨rfl, rfl⟩ := ClientPhase.receiving.inj h
    refine ⟨(hi.sending sent' rest' hc).1, fun hs hnil => ?_⟩
    have hlength := congrArg List.length (EchoState.transit_eq_nil.mp hnil).2.2
    simp only [List.length_append, List.length_take, List.length_nil] at hlength
    omega
  | clientDropped => cases h
  | clientThrew => cases h
  | @serverReceived k hs hk hle => exact ⟨(hi.receiving sent rest h).1, nofun⟩
  | serverFailed => exact ⟨(hi.receiving sent rest h).1, nofun⟩
  | @serverSent data k hs hk hle =>
    refine ⟨(hi.receiving sent rest h).1, fun _ hnil => ?_⟩
    have hlength := congrArg List.length (EchoState.transit_eq_nil.mp hnil).1
    simp only [List.length_append, List.length_take, List.length_nil] at hlength
    omega
  | serverDropped => exact ⟨(hi.receiving sent rest h).1, nofun⟩

/-- Every completion keeps the invariant. -/
theorem step (hm : EchoMove s act t) (hi : EchoInv messages s) : EchoInv messages t :=
  ⟨hi.step_data hm, hi.step_heard hm, hi.step_sent hm, hi.step_sending hm, hi.step_receiving hm⟩

end EchoInv

/-! ## The one round -/

section Runs
variable {serverBufferSize : ℕ} {messages : List Message} {s t : EchoState} {act : EchoAction}

lemma echo_step_inv (hi : EchoInv messages s)
    (h : (echo serverBufferSize messages).step s act = some t) : EchoInv messages t :=
  hi.step (echoStep_move h)

/-- The client never gets beyond its first message: it sends a part of that, in one send, and
ends when its first receive completes, with whatever code. What it has received by then it has
sent, in that order. -/
theorem echo_one_round (serverBufferSize : ℕ) (messages : List Message) (acts : List EchoAction) :
    (echo serverBufferSize messages).Steps
      (fun s act t =>
        (∀ res, act = .clientSend res → s.sentBytes = []) ∧
        (∀ res, act = .clientRecv res → t.client = .stopped) ∧
        (∀ sent rest, t.client = .sending sent rest ∨ t.client = .receiving sent rest →
          sent :: rest = messages) ∧
        t.sentBytes <+: messages.headD [] ∧ t.receivedBytes.Sublist t.sentBytes)
      (echo serverBufferSize messages).start acts := by
  apply Lib.System.steps_of_inductive (EchoInv messages) _ (.start messages)
  intro s act t hi h
  have hi' := echo_step_inv hi h
  have hm : EchoMove s act t := echoStep_move h
  refine ⟨⟨fun res hact => ?_, fun res hact => ?_, fun sent rest hc => ?_, hi'.sent, ?_⟩, hi'⟩
  · subst hact
    cases hm with
    | clientSent hc => exact (hi.sending _ _ hc).2
    | clientDropped hc => exact (hi.sending _ _ hc).2
  · subst hact
    cases hm
    rfl
  · rcases hc with hc | hc
    · exact (hi'.sending sent rest hc).1
    · exact (hi'.receiving sent rest hc).1
  · exact (List.sublist_append_left t.receivedBytes t.transit).trans hi'.heard

/-- Between the two programs no byte is lost, doubled or moved as long as, and only as long as,
each send of the server takes all it is given. -/
theorem echo_conserves_iff (serverBufferSize : ℕ) (messages : List Message)
    (acts : List EchoAction) :
    (echo serverBufferSize messages).Steps (fun s act _ => WholeSend s act)
        (echo serverBufferSize messages).start acts ↔
      (echo serverBufferSize messages).Steps (fun _ _ t => t.heard = t.sentBytes)
        (echo serverBufferSize messages).start acts := by
  apply Lib.System.steps_iff (fun s => EchoInv messages s ∧ s.heard = s.sentBytes) _
    ⟨.start messages, ?_⟩
  · rintro s act t ⟨hi, heq⟩ h
    have hi' := echo_step_inv hi h
    cases (echoStep_move h).heardMove hi.data with
    | grows bytes hw hs hh =>
      have heq' : t.heard = t.sentBytes := by rw [hh, hs, heq]
      exact ⟨iff_of_true hw heq', fun _ => ⟨hi', heq'⟩⟩
    | drops hw hs hh hlt =>
      have hne : t.heard ≠ t.sentBytes := by
        intro heq'
        rw [heq', hs, heq] at hlt
        exact absurd hlt (Nat.lt_irrefl _)
      exact ⟨iff_of_false hw hne, fun h => absurd h hw⟩
  · exact List.eq_nil_of_sublist_nil (EchoInv.start messages).heard

end Runs

end Zsl.Iouring
