import Zsl.Iouring.EchoTheorems
import Zsl.Lib.Reachability

/-!
# How the echo protocol ends

* `echo_length_le`: it does, after so many completions;
* `echo_stuck`: where it can end while the sends deliver something;
* `echo_complete`, `echo_completes`: what it has done by then if it is undisturbed.
-/

namespace Zsl.Iouring
variable {serverBufferSize : ℕ} {messages : List Message} {s t : EchoState} {act : EchoAction}

/-! ## What is left to do -/

/-- The completions the client still waits for, and two of the server for each byte to send. -/
def ClientPhase.toDo : ClientPhase → ℕ
  | .sending sent _ => 2 * sent.length + 2
  | .receiving _ _ => 1
  | _ => 0

/-- Those the server waits for, but for the bytes it has yet to receive. -/
def ServerPhase.toDo : ServerPhase → ℕ
  | .receiving => 1
  | .sending _ => 2
  | _ => 0

/-- What is left to do: each byte takes the server a receive and a send. -/
def EchoState.toDo (s : EchoState) : ℕ :=
  s.client.toDo + 2 * s.toServer.length + s.server.toDo

/-- Every completion leaves less to do. -/
lemma EchoMove.toDo_lt (hm : EchoMove s act t) : t.toDo < s.toDo := by
  cases hm with
  | clientSent hc hk hle =>
    simp only [EchoState.toDo, ClientPhase.toDo, hc, List.length_append, List.length_take]
    omega
  | clientDropped hc hres =>
    simp only [EchoState.toDo, ClientPhase.toDo, hc]
    omega
  | clientThrew hc hle =>
    simp only [EchoState.toDo, ClientPhase.toDo, hc]
    omega
  | serverReceived hs hk hle =>
    simp only [EchoState.toDo, ServerPhase.toDo, hs, List.length_drop]
    omega
  | serverFailed hs hres =>
    simp only [EchoState.toDo, ServerPhase.toDo, hs]
    omega
  | serverSent hs hk hle =>
    simp only [EchoState.toDo, ServerPhase.toDo, hs]
    omega
  | serverDropped hs hres =>
    simp only [EchoState.toDo, ServerPhase.toDo, hs]
    omega

lemma toDo_start_le (messages : List Message) :
    (EchoState.start messages).toDo ≤ 2 * (messages.headD []).length + 3 := by
  rw [EchoState.toDo, EchoState.start_server]
  cases messages with
  | nil =>
    rw [EchoState.start_client_nil]
    decide
  | cons sent rest =>
    rw [EchoState.start_client_cons]
    exact Nat.le_refl _

/-- No run is longer than two completions for each byte of the first message, and three. -/
theorem echo_length_le (serverBufferSize : ℕ) (messages : List Message) (acts : List EchoAction)
    (t : EchoState)
    (h : (echo serverBufferSize messages).run (echo serverBufferSize messages).start acts =
      some t) :
    acts.length ≤ 2 * (messages.headD []).length + 3 := by
  have hle := Lib.System.length_add_measure_le (fun _ => True) EchoState.toDo
    (fun s act t _ h => ⟨trivial, (echoStep_move h).toDo_lt⟩) trivial h
  exact le_trans (le_trans (Nat.le_add_right _ _) hle) (toDo_start_le messages)

/-- A run of that length: the server gets its bytes one by one. -/
theorem echo_length_le_run :
    (∃ t, (echo 1 [[1, 2], [3]]).run (echo 1 [[1, 2], [3]]).start
        [.clientSend 2, .serverRecv 1, .serverSend 1, .serverRecv 1, .serverSend 1, .clientRecv 2,
          .serverRecv 0] = some t) ∧
      [EchoAction.clientSend 2, .serverRecv 1, .serverSend 1, .serverRecv 1, .serverSend 1,
        .clientRecv 2, .serverRecv 0].length ≤ 2 * ([[(1 : UInt8), 2], [3]].headD []).length + 3 :=
  ⟨⟨_, rfl⟩, echo_length_le 1 [[1, 2], [3]] _ _ rfl⟩

/-! ## Where nothing more can happen -/

namespace EchoAction

/-- The result code of the completion. -/
def code : EchoAction → ℤ
  | clientSend res => res
  | clientRecv res => res
  | serverRecv res => res
  | serverSend res => res

/-- A send that completes has put something into the stream. -/
def Delivers : EchoAction → Prop
  | clientSend res => 0 < res
  | serverSend res => 0 < res
  | _ => True

instance : DecidablePred Delivers := fun act => by
  cases act <;> unfold Delivers <;> infer_instance

end EchoAction

section Possible
variable {sent data : Message} {rest : List Message} {k : ℕ}

lemma clientSend_possible (hc : s.client = .sending sent rest) (hle : k ≤ sent.length) :
    echoStep serverBufferSize s (.clientSend k) ≠ none := by
  simp [echoStep, hc, hle]

lemma clientRecv_possible (hc : s.client = .receiving sent rest)
    (hr : RecvCompletes clientBufferSize s.toClient (s.server = .stopped) k) :
    echoStep serverBufferSize s (.clientRecv k) ≠ none := by
  simp [echoStep, hc, hr]

lemma serverRecv_possible (hs : s.server = .receiving)
    (hr : RecvCompletes serverBufferSize s.toServer (s.client = .stopped) k) :
    echoStep serverBufferSize s (.serverRecv k) ≠ none := by
  simp [echoStep, hs, hr]

lemma serverSend_possible (hs : s.server = .sending data) (hle : k ≤ data.length) :
    echoStep serverBufferSize s (.serverSend k) ≠ none := by
  simp [echoStep, hs, hle]

/-- A receive can take what fits, if there is anything. -/
lemma recvCompletes_min {size : ℕ} {stream : Message} {closed : Prop} (hsize : 0 < size)
    (hne : stream ≠ []) : RecvCompletes size stream closed (min size stream.length : ℕ) := by
  have hpos := List.length_pos_iff.mpr hne
  unfold RecvCompletes
  omega

lemma recvCompletes_closed {size : ℕ} {closed : Prop} (h : closed) :
    RecvCompletes size [] closed (0 : ℕ) :=
  .inr (.inl ⟨rfl, rfl, h⟩)

end Possible

/-- Neither program is suspended for good. -/
def EchoState.Awake (s : EchoState) : Prop := s.client ≠ .hung ∧ s.server ≠ .hung

lemma EchoState.Awake.start (messages : List Message) : (EchoState.start messages).Awake := by
  constructor
  · cases messages with
    | nil =>
      rw [EchoState.start_client_nil]
      nofun
    | cons => nofun
  · rw [EchoState.start_server]
    nofun

lemma EchoMove.awake (hm : EchoMove s act t) (hd : act.Delivers) (h : s.Awake) : t.Awake := by
  cases hm with
  | clientSent => exact ⟨nofun, h.2⟩
  | @clientDropped sent rest res hc hres => exact absurd (show 0 < res from hd) (by omega)
  | clientThrew => exact ⟨nofun, h.2⟩
  | serverReceived => exact ⟨h.1, nofun⟩
  | serverFailed => exact ⟨h.1, nofun⟩
  | serverSent => exact ⟨h.1, nofun⟩
  | @serverDropped data res hs hres => exact absurd (show 0 < res from hd) (by omega)

/-- As long as each send delivers something, the programs never wait for each other: when no
completion is possible but with an error, both have ended. -/
theorem echo_stuck (serverBufferSize : ℕ) (hsize : 0 < serverBufferSize) (messages : List Message)
    (acts : List EchoAction) (t : EchoState)
    (h : ((echo serverBufferSize messages).restrict fun _ act => act.Delivers).run
      (echo serverBufferSize messages).start acts = some t)
    (hstuck : ∀ act : EchoAction, 0 ≤ act.code → echoStep serverBufferSize t act = none) :
    t.client = .stopped ∧ t.server = .stopped := by
  have hinv : EchoInv messages t ∧ t.Awake := by
    apply Lib.System.invariant_of_run (fun s => EchoInv messages s ∧ s.Awake) _ _ h
    · intro s act t hi h
      obtain ⟨hd, h⟩ := Lib.System.restrict_step.mp h
      exact ⟨echo_step_inv hi.1 h, (echoStep_move h).awake hd hi.2⟩
    · exact ⟨.start messages, .start messages⟩
  obtain ⟨hi, hclient, hserver⟩ := hinv
  have hno (act : EchoAction) (hcode : 0 ≤ act.code)
      (h : echoStep serverBufferSize t act ≠ none) : False := h (hstuck act hcode)
  have hsending (data : Message) : t.server ≠ .sending data := fun hs =>
    hno (.serverSend data.length) (Int.natCast_nonneg _) (serverSend_possible hs le_rfl)
  have hempty (hs : t.server = .receiving) : t.toServer = [] := by
    by_contra hne
    exact hno (.serverRecv _) (Int.natCast_nonneg _)
      (serverRecv_possible hs (recvCompletes_min hsize hne))
  have hstopped : t.client = .stopped := by
    cases hc : t.client with
    | stopped => rfl
    | hung => exact absurd hc hclient
    | sending sent rest =>
      exact (hno (.clientSend sent.length) (Int.natCast_nonneg _)
        (clientSend_possible hc le_rfl)).elim
    | receiving sent rest =>
      exfalso
      have hnil : t.toClient = [] := by
        by_contra hne
        exact hno (.clientRecv _) (Int.natCast_nonneg _)
          (clientRecv_possible hc (recvCompletes_min (by decide) hne))
      cases hs : t.server with
      | hung => exact hserver hs
      | sending data => exact hsending data hs
      | receiving =>
        apply (hi.receiving sent rest hc).2 hs
        rw [EchoState.transit_eq_nil, hs]
        exact ⟨hnil, rfl, hempty hs⟩
      | stopped =>
        refine hno (.clientRecv (0 : ℕ)) (Int.natCast_nonneg _) (clientRecv_possible hc ?_)
        rw [hnil]
        exact recvCompletes_closed hs
  refine ⟨hstopped, ?_⟩
  cases hs : t.server with
  | stopped => rfl
  | hung => exact absurd hs hserver
  | sending data => exact absurd hs (hsending data)
  | receiving =>
    refine (hno (.serverRecv (0 : ℕ)) (Int.natCast_nonneg _) (serverRecv_possible hs ?_)).elim
    rw [hempty hs]
    exact recvCompletes_closed hstopped

theorem echo_stuck_run :
    (((echo 8 [[1]]).restrict fun _ act => act.Delivers).run (echo 8 [[1]]).start
        [.clientSend 1, .serverRecv 1, .serverSend 1, .clientRecv 1, .serverRecv 0]).isSome ∧
      ∃ t : EchoState, t.client = .stopped ∧ t.server = .stopped :=
  ⟨rfl, _, echo_stuck 8 (by decide) [[1]]
    [.clientSend 1, .serverRecv 1, .serverSend 1, .clientRecv 1, .serverRecv 0] _ rfl
    fun act _ => by cases act <;> rfl⟩

/-! ## The undisturbed run -/

/-- What the client is sending. -/
def ClientPhase.hand : ClientPhase → Message
  | .sending sent _ => sent
  | _ => []

/-- A send takes all it is given, a receive of the client gets something, and so does one of the
server until there is nothing more to come. -/
def Undisturbed (s : EchoState) : EchoAction → Prop
  | .clientSend res => res = s.client.hand.length
  | .clientRecv res => 0 < res
  | .serverRecv res => 0 < res ∨ s.client = .stopped ∧ s.toServer = []
  | .serverSend res => res = s.server.hand.length

instance (s : EchoState) : DecidablePred (Undisturbed s) := fun act => by
  cases act <;> unfold Undisturbed <;> infer_instance

/-- The first message was sent and echoed, and both programs have ended: the client has received
some of the echo, and the rest of it waits in the stream. -/
structure Complete (first : Message) (t : EchoState) : Prop where
  client : t.client = .stopped
  server : t.server = .stopped
  sentBytes : t.sentBytes = first
  receivedBytes : t.receivedBytes ≠ []
  echo : t.receivedBytes ++ t.toClient = first

/-- What holds in every state of an undisturbed run. -/
structure SmoothInv (first : Message) (rest : List Message) (s : EchoState) : Prop where
  inv : EchoInv (first :: rest) s
  awake : s.Awake
  /-- nothing is lost -/
  heard : s.heard = s.sentBytes
  /-- the message is sent whole -/
  whole : s.client = .sending first rest ∨ s.sentBytes = first
  client : s.client = .stopped → s.receivedBytes ≠ []
  server : s.server = .stopped → s.client = .stopped ∧ s.toServer = []

namespace SmoothInv
variable {first : Message} {rest : List Message}

protected lemma start (first : Message) (rest : List Message) :
    SmoothInv first rest (.start (first :: rest)) where
  inv := .start _
  awake := .start _
  heard := List.eq_nil_of_sublist_nil (EchoInv.start _).heard
  whole := .inl EchoState.start_client_cons
  client h := by cases h
  server h := by
    rw [EchoState.start_server] at h
    cases h

/-- A completion that reports nothing would disturb the run. -/
lemma delivers (hfirst : first ≠ []) (hi : SmoothInv first rest s) (hm : EchoMove s act t)
    (hu : Undisturbed s act) : act.Delivers := by
  cases hm with
  | @clientSent sent rest k hc hk => exact Int.natCast_pos.mpr hk
  | @clientDropped sent rest res hc hres =>
    obtain ⟨rfl, -⟩ := List.cons.inj (hi.inv.sending _ _ hc).1
    have hu : res = s.client.hand.length := hu
    rw [hc] at hu
    show 0 < res
    rw [hu]
    exact Int.natCast_pos.mpr (List.length_pos_iff.mpr hfirst)
  | @serverSent data k hs hk => exact Int.natCast_pos.mpr hk
  | @serverDropped data res hs hres =>
    have hu : res = s.server.hand.length := hu
    rw [hs] at hu
    show 0 < res
    rw [hu]
    exact Int.natCast_pos.mpr (List.length_pos_iff.mpr (hi.inv.data data hs))
  | _ => trivial

lemma wholeSend (hu : Undisturbed s act) : WholeSend s act := by
  intro data res hact hs
  subst hact
  have hu : res = s.server.hand.length := hu
  rw [hu, hs]
  rfl

lemma step_heard (hi : SmoothInv first rest s) (hm : EchoMove s act t) (hu : Undisturbed s act) :
    t.heard = t.sentBytes := by
  cases hm.heardMove hi.inv.data with
  | grows bytes hw hs hh => rw [hs, hh, hi.heard]
  | drops hw => exact absurd (wholeSend hu) hw

lemma step_whole (hi : SmoothInv first rest s) (hm : EchoMove s act t) (hd : act.Delivers)
    (hu : Undisturbed s act) : t.client = .sending first rest ∨ t.sentBytes = first := by
  cases hm with
  | @clientSent sent rest' k hc hk hle =>
    obtain ⟨hmessages, hnone⟩ := hi.inv.sending _ _ hc
    obtain ⟨rfl, -⟩ := List.cons.inj hmessages
    have hu : (k : ℤ) = s.client.hand.length := hu
    rw [hc] at hu
    right
    show s.sentBytes ++ sent.take k = sent
    rw [hnone, Int.natCast_inj.mp hu]
    exact List.take_length
  | @clientDropped sent rest' res hc hres => exact absurd (show 0 < res from hd) (by omega)
  | clientThrew hc => exact .inr (hi.whole.resolve_left (by rw [hc]; nofun))
  | _ => exact hi.whole

lemma step_client (hi : SmoothInv first rest s) (hm : EchoMove s act t) (hu : Undisturbed s act) :
    t.client = .stopped → t.receivedBytes ≠ [] := by
  intro h
  cases hm with
  | clientSent => cases h
  | clientDropped => cases h
  | @clientThrew sent rest' res hc hle =>
    have hpos : 0 < res := hu
    intro hnil
    have hlength := congrArg List.length (List.append_eq_nil_iff.mp hnil).2
    rw [List.length_take, List.length_nil] at hlength
    omega
  | _ => exact hi.client h

lemma step_server (hi : SmoothInv first rest s) (hm : EchoMove s act t) (hu : Undisturbed s act) :
    t.server = .stopped → t.client = .stopped ∧ t.toServer = [] := by
  intro h
  cases hm with
  | clientSent hc => exact absurd (hi.server h).1 (by rw [hc]; nofun)
  | clientDropped hc => exact absurd (hi.server h).1 (by rw [hc]; nofun)
  | clientThrew => exact ⟨rfl, (hi.server h).2⟩
  | serverReceived => cases h
  | @serverFailed res hs hres =>
    have hu : 0 < res ∨ s.client = .stopped ∧ s.toServer = [] := hu
    exact hu.resolve_left (by omega)
  | serverSent => cases h
  | serverDropped => cases h

theorem step (hfirst : first ≠ []) (hm : EchoMove s act t) (hu : Undisturbed s act)
    (hi : SmoothInv first rest s) : SmoothInv first rest t where
  inv := hi.inv.step hm
  awake := hm.awake (hi.delivers hfirst hm hu) hi.awake
  heard := hi.step_heard hm hu
  whole := hi.step_whole hm (hi.delivers hfirst hm hu) hu
  client := hi.step_client hm hu
  server := hi.step_server hm hu

/-- What an undisturbed run has done when it cannot go on. -/
theorem of_stuck (hsize : 0 < serverBufferSize) (hi : SmoothInv first rest t)
    (hstuck : ∀ act : EchoAction,
      ((echo serverBufferSize (first :: rest)).restrict Undisturbed).step t act = none) :
    Complete first t := by
  have hno (act : EchoAction) (hu : Undisturbed t act)
      (h : echoStep serverBufferSize t act ≠ none) : False :=
    h ((if_pos hu).symm.trans (hstuck act))
  have hsending (data : Message) : t.server ≠ .sending data := fun hs =>
    hno (.serverSend data.length) (by rw [Undisturbed, hs]; rfl) (serverSend_possible hs le_rfl)
  have hempty (hs : t.server = .receiving) : t.toServer = [] := by
    by_contra hne
    refine hno (.serverRecv _) (.inl ?_) (serverRecv_possible hs (recvCompletes_min hsize hne))
    exact Int.natCast_pos.mpr (lt_min hsize (List.length_pos_iff.mpr hne))
  have hclient : t.client = .stopped := by
    cases hc : t.client with
    | stopped => rfl
    | hung => exact absurd hc hi.awake.1
    | sending sent rest =>
      exact (hno (.clientSend sent.length) (by rw [Undisturbed, hc]; rfl)
        (clientSend_possible hc le_rfl)).elim
    | receiving sent rest =>
      exfalso
      have hnil : t.toClient = [] := by
        by_contra hne
        refine hno (.clientRecv _) ?_ (clientRecv_possible hc (recvCompletes_min (by decide) hne))
        exact Int.natCast_pos.mpr (lt_min (by decide) (List.length_pos_iff.mpr hne))
      cases hs : t.server with
      | hung => exact hi.awake.2 hs
      | sending data => exact hsending data hs
      | receiving =>
        apply (hi.inv.receiving sent rest hc).2 hs
        rw [EchoState.transit_eq_nil, hs]
        exact ⟨hnil, rfl, hempty hs⟩
      | stopped =>
        have hstopped := (hi.server hs).1
        rw [hc] at hstopped
        cases hstopped
  have hserver : t.server = .stopped := by
    cases hs : t.server with
    | stopped => rfl
    | hung => exact absurd hs hi.awake.2
    | sending data => exact absurd hs (hsending data)
    | receiving =>
      refine (hno (.serverRecv (0 : ℕ)) (.inr ⟨hclient, hempty hs⟩)
        (serverRecv_possible hs ?_)).elim
      rw [hempty hs]
      exact recvCompletes_closed hclient
  have hwhole : t.sentBytes = first := hi.whole.resolve_left (by rw [hclient]; nofun)
  refine ⟨hclient, hserver, hwhole, hi.client hclient, ?_⟩
  have hhand : t.server.hand = [] := by rw [hserver]; rfl
  have hheard := hi.heard
  rwa [EchoState.heard, EchoState.transit, hhand, (hi.server hserver).2, hwhole,
    List.append_nil, List.append_nil] at hheard

end SmoothInv

section
variable {first : Message} {rest : List Message}

lemma undisturbed_step (hfirst : first ≠ []) (hi : SmoothInv first rest s)
    (h : ((echo serverBufferSize (first :: rest)).restrict Undisturbed).step s act = some t) :
    SmoothInv first rest t := by
  obtain ⟨hu, h⟩ := Lib.System.restrict_step.mp h
  exact hi.step hfirst (echoStep_move h) hu

lemma undisturbed_run (hfirst : first ≠ []) {acts : List EchoAction}
    (h : ((echo serverBufferSize (first :: rest)).restrict Undisturbed).run
      (echo serverBufferSize (first :: rest)).start acts = some t) : SmoothInv first rest t :=
  Lib.System.invariant_of_run (SmoothInv first rest)
    (fun _ _ _ hi h => undisturbed_step hfirst hi h) (.start first rest) h

end

/-- An undisturbed run cannot get stuck before it is complete; no message but the first was sent by
then. -/
theorem echo_complete (serverBufferSize : ℕ) (hsize : 0 < serverBufferSize) (first : Message)
    (hfirst : first ≠ []) (rest : List Message) (acts : List EchoAction) (t : EchoState)
    (h : ((echo serverBufferSize (first :: rest)).restrict Undisturbed).run
      (echo serverBufferSize (first :: rest)).start acts = some t)
    (hstuck : ∀ act : EchoAction,
      ((echo serverBufferSize (first :: rest)).restrict Undisturbed).step t act = none) :
    Complete first t :=
  (undisturbed_run hfirst h).of_stuck hsize hstuck

theorem echo_complete_run :
    ∃ t : EchoState, Complete [1, 2] t :=
  ⟨_, echo_complete 1 (by decide) [1, 2] (by decide) [[3]]
    [.clientSend 2, .serverRecv 1, .serverSend 1, .clientRecv 1, .serverRecv 1, .serverSend 1,
      .serverRecv 0] _ rfl
    fun act => by cases act <;> exact ite_self none⟩

/-- Every undisturbed run can be continued to that end. -/
theorem echo_completes (serverBufferSize : ℕ) (hsize : 0 < serverBufferSize) (first : Message)
    (hfirst : first ≠ []) (rest : List Message) (acts : List EchoAction) (s : EchoState)
    (h : ((echo serverBufferSize (first :: rest)).restrict Undisturbed).run
      (echo serverBufferSize (first :: rest)).start acts = some s) :
    ∃ acts' t, ((echo serverBufferSize (first :: rest)).restrict Undisturbed).run s acts' = some t ∧
      Complete first t := by
  have hless (s : EchoState) (act : EchoAction) (t : EchoState)
      (h : ((echo serverBufferSize (first :: rest)).restrict Undisturbed).step s act = some t) :
      t.toDo < s.toDo := by
    obtain ⟨-, h⟩ := Lib.System.restrict_step.mp h
    exact (echoStep_move h).toDo_lt
  obtain ⟨acts', t, ht, hstuck⟩ := Lib.System.exists_stuck EchoState.toDo hless s
  have hi : SmoothInv first rest t := Lib.System.invariant_of_run (SmoothInv first rest)
    (fun _ _ _ hi h => undisturbed_step hfirst hi h) (undisturbed_run hfirst h) ht
  exact ⟨acts', t, ht, hi.of_stuck hsize hstuck⟩

/-- Once the server holds the first of two bytes. -/
theorem echo_completes_run :
    ∃ s, ((echo 1 [[1, 2], [3]]).restrict Undisturbed).run (echo 1 [[1, 2], [3]]).start
        [.clientSend 2, .serverRecv 1] = some s ∧
      ∃ acts t, ((echo 1 [[1, 2], [3]]).restrict Undisturbed).run s acts = some t ∧
        Complete [1, 2] t :=
  ⟨_, rfl, echo_completes 1 (by decide) [1, 2] (by decide) [[3]]
    [.clientSend 2, .serverRecv 1] _ rfl⟩

end Zsl.Iouring
