import Zsl.Iouring.Socket

/-!
# Who owns a descriptor

* `SocketInv`: the open descriptors and the live sockets that hold one are one to one, and
  every descriptor opened is open or was closed, as often as it was opened;
* `descriptor_ownership`: every operation keeps this, only a socket with a descriptor makes
  calls, and a `close` that throws changes no owner.
-/

namespace Zsl.Iouring

namespace World

lemma socketAt_setObj (w : World) (l : Place) (o : Option Obj) :
    (w.setObj l o).socketAt = Function.update w.socketAt l (o.bind Obj.socket?) := by
  funext k
  by_cases hk : k = l
  · subst hk
    simp [socketAt, setObj]
  · simp [socketAt, setObj, hk]

lemma socketAt_setSocket {w : World} {l : Place} {s s' : Socket} (hs : w.socketAt l = some s) :
    (w.setSocket l s').socketAt = Function.update w.socketAt l (some s') := by
  obtain ⟨o, ho, hos⟩ := Option.bind_eq_some_iff.mp hs
  have hwith : (o.withSocket s').socket? = some s' := by
    cases o <;> rfl
  rw [setSocket, socketAt_setObj, ho]
  simp [hwith]

/-- What is held changes with the socket. -/
lemma held_of_socketAt_update {w t : World} {l : Place} {s : Option Socket}
    (h : t.socketAt = Function.update w.socketAt l s) :
    t.held = Function.update w.held l (s.bind Socket.held) := by
  funext k
  by_cases hk : k = l
  · subst hk
    simp [held, h]
  · simp [held, h, hk]

lemma held_setObj (w : World) (l : Place) (o : Option Obj) :
    (w.setObj l o).held =
      Function.update w.held l ((o.bind Obj.socket?).bind Socket.held) :=
  held_of_socketAt_update (socketAt_setObj w l o)

lemma held_setSocket {w : World} {l : Place} {s s' : Socket} (hs : w.socketAt l = some s) :
    (w.setSocket l s').held = Function.update w.held l s'.held :=
  held_of_socketAt_update (socketAt_setSocket hs)

lemma socketAt_setSocket_of_ne (w : World) {l k : Place} (s : Socket) (hk : k ≠ l) :
    (w.setSocket l s).socketAt k = w.socketAt k := by
  rw [setSocket, socketAt_setObj, Function.update_of_ne hk]

lemma held_of_socketAt {w : World} {l : Place} {s : Socket} (hs : w.socketAt l = some s) :
    w.held l = s.held := by
  rw [held, hs, Option.bind_some]

lemma held_close {w : World} {l : Place} {s : Socket} {r c : ℤ} (hs : w.socketAt l = some s) :
    (w.close l s r c).held = Function.update w.held l (s.close r c).self.held :=
  held_setSocket hs

lemma socketAt_eq {w : World} {l : Place} {o : Obj} (hl : w.objs l = some o) :
    w.socketAt l = o.socket? := by
  rw [socketAt, hl, Option.bind_some]

lemma socketAt_of_objs {w : World} {l : Place} (hl : w.objs l = none) : w.socketAt l = none := by
  rw [socketAt, hl]
  rfl

lemma held_eq_none {w : World} {l : Place} (hl : w.socketAt l = none) : w.held l = none := by
  rw [held, hl]
  rfl

end World

/-! ## What `close` does -/

namespace Socket

/-- The outcomes of `close`: no descriptor, a submit that throws, or a descriptor closed. -/
lemma close_cases (s : Socket) (r c : ℤ) :
    (s.held = none ∧ s.close r c = ⟨s, [], .ok false⟩) ∨
    (s.held = some s.fd ∧ s.fd ≠ invalidSocketFd ∧
      s.close r c = ⟨s, [.prepareCancel s.ring s.fd, .submit s.ring], .error r⟩) ∨
    (s.held = some s.fd ∧ s.fd ≠ invalidSocketFd ∧
      s.close r c = ⟨{ s with fd := invalidSocketFd },
        [.prepareCancel s.ring s.fd, .submit s.ring, .osClose s.fd], .ok (c ≠ 0)⟩) := by
  by_cases hfd : s.fd = invalidSocketFd
  · simp [held, close, hfd]
  · by_cases hr : r ≤ 0
    · simp [held, close, hfd, hr]
    · simp [held, close, hfd, hr]

end Socket

/-! ## The branches of a step -/

/-- What an operation can do to the objects: none builds one over a live socket, and only the
two assignments assign one. -/
inductive SocketMove (w : World) : SocketAction → World → Prop
  | construct {l : Place} {ring : RingId} {fd : ℤ} (hl : w.objs l = none)
      (hfd : fd = invalidSocketFd ∨ fd ∉ w.descriptors) :
      SocketMove w (.construct l ring fd) (w.construct l ring fd)
  | move {act : SocketAction} {dst src : Place} {s : Socket} {o : Socket → Obj}
      (hdst : w.socketAt dst = none) (hne : dst ≠ src) (hs : w.socketAt src = some s)
      (ho : ∀ s, (o s).socket? = some s) : SocketMove w act (w.moveConstruct dst src s o)
  | assign {act : SocketAction} {dst src : Place} {self rhs : Socket}
      (hact : act.assigns = some (dst, src)) (hd : w.socketAt dst = some self)
      (hs : w.socketAt src = some rhs) : SocketMove w act (w.moveAssign dst src self rhs)
  | close {l : Place} {s : Socket} {r c : ℤ} (hs : w.socketAt l = some s) :
      SocketMove w (.close l r c) (w.close l s r c)
  | destruct {act : SocketAction} {l : Place} {s : Socket} {r c : ℤ} {o : Option Obj}
      (hact : act.closes = some l) (hs : w.socketAt l = some s)
      (ho : o.bind Obj.socket? = none) : SocketMove w act (w.destruct l s r c o)
  | place {act : SocketAction} {l : Place} {o : Option Obj} (hl : w.socketAt l = none)
      (ho : o.bind Obj.socket? = none) : SocketMove w act (w.setObj l o)

/-- Every operation is one of the branches. -/
theorem socketStep_move {w t : World} {act : SocketAction} (h : socketStep w act = some t) :
    SocketMove w act t := by
  unfold socketStep at h
  split at h
  · cases h
  · cases act with
    | construct l ring fd =>
      dsimp only at h
      split at h
      · next hg =>
        obtain rfl := Option.some.inj h
        exact .construct hg.1 hg.2
      · cases h
    | moveConstruct dst src =>
      dsimp only at h
      split at h
      · next s hd hs =>
        obtain rfl := Option.some.inj h
        have hne : dst ≠ src := ne_of_apply_ne w.socketAt (by rw [hs, World.socketAt, hd]; simp)
        exact .move (World.socketAt_of_objs hd) hne hs fun _ => rfl
      · cases h
    | moveAssign dst src =>
      dsimp only at h
      split at h
      · next self rhs hd hs =>
        obtain rfl := Option.some.inj h
        exact .assign rfl hd hs
      · cases h
    | close l r c =>
      obtain ⟨s, hs, rfl⟩ := Option.map_eq_some_iff.mp h
      exact .close hs
    | destroy l r c =>
      dsimp only at h
      split at h
      · next o s ho hs =>
        obtain rfl := Option.some.inj h
        exact .destruct rfl hs rfl
      · next o ho hs =>
        obtain rfl := Option.some.inj h
        exact .place hs rfl
      · cases h
    | unexpected l e =>
      dsimp only at h
      split at h
      · next hl =>
        obtain rfl := Option.some.inj h
        exact .place (World.socketAt_of_objs hl) rfl
      · cases h
    | expected dst src =>
      dsimp only at h
      split at h
      · next s hd hs =>
        obtain rfl := Option.some.inj h
        have hne : dst ≠ src := ne_of_apply_ne w.objs (by simp [hd, hs])
        exact .move (World.socketAt_of_objs hd) hne (World.socketAt_eq hs) fun _ => rfl
      · cases h
    | moveExpected dst src =>
      dsimp only at h
      split at h
      · next s hd hs =>
        obtain rfl := Option.some.inj h
        have hne : dst ≠ src := ne_of_apply_ne w.objs (by simp [hd, hs])
        exact .move (World.socketAt_of_objs hd) hne (World.socketAt_eq hs) fun _ => rfl
      · next e hd hs =>
        obtain rfl := Option.some.inj h
        exact .place (World.socketAt_of_objs hd) rfl
      · cases h
    | assignExpected dst src r c =>
      dsimp only at h
      split at h
      · next self rhs hd hs =>
        -- both hold a socket: the sockets are assigned
        obtain rfl := Option.some.inj h
        exact .assign rfl (World.socketAt_eq hd) (World.socketAt_eq hs)
      · next self e hd hs =>
        -- the socket is destroyed to make place for the error
        obtain rfl := Option.some.inj h
        exact .destruct rfl (World.socketAt_eq hd) rfl
      · next e rhs hd hs =>
        -- a socket is constructed in place of the error
        obtain rfl := Option.some.inj h
        have hne : dst ≠ src := ne_of_apply_ne w.objs (by simp [hd, hs])
        exact .move (World.socketAt_eq hd) hne (World.socketAt_eq hs) fun _ => rfl
      · next e e' hd hs =>
        obtain rfl := Option.some.inj h
        exact .place (World.socketAt_eq hd) rfl
      · cases h
    | assignUnexpected dst e r c =>
      dsimp only at h
      split at h
      · next self hd =>
        obtain rfl := Option.some.inj h
        exact .destruct rfl (World.socketAt_eq hd) rfl
      · next e' hd =>
        obtain rfl := Option.some.inj h
        exact .place (World.socketAt_eq hd) rfl
      · cases h

/-! ## The invariant -/

/-- Descriptors and their owners. -/
structure SocketInv (w : World) : Prop where
  owned : Lib.Owned w.held {fd | fd ∈ w.descriptors}
  counted : ∀ fd, w.opened.count fd =
    w.calls.count (.osClose fd) + if fd ∈ w.descriptors then 1 else 0

namespace SocketInv
variable {w : World}

protected lemma start : SocketInv World.start where
  owned := by
    have hlive : {fd : ℤ | fd ∈ World.start.descriptors} = ∅ := by
      simp [World.start]
    rw [hlive]
    exact Lib.Owned.none
  counted fd := rfl

lemma setObj (h : SocketInv w) {l : Place} {o : Option Obj} (hl : w.held l = none)
    (ho : o.bind Obj.socket? = none) : SocketInv (w.setObj l o) := by
  refine ⟨?_, h.counted⟩
  rw [World.held_setObj, ho, Option.bind_none, ← hl, Function.update_eq_self]
  exact h.owned

lemma construct (h : SocketInv w) {l : Place} (ring : RingId) {fd : ℤ} (hl : w.held l = none)
    (hfd : fd = invalidSocketFd ∨ fd ∉ w.descriptors) : SocketInv (w.construct l ring fd) := by
  have hheld (hne : fd ≠ invalidSocketFd) : (w.setObj l (some (.socket ⟨ring, fd⟩))).held =
      Function.update w.held l (some fd) := by
    rw [World.held_setObj]
    simp [Obj.socket?, Socket.held, hne]
  unfold World.construct
  dsimp only
  split
  · next heq =>
    subst heq
    refine ⟨?_, h.counted⟩
    have hsame : (w.setObj l (some (.socket ⟨ring, invalidSocketFd⟩))).held = w.held := by
      rw [World.held_setObj]
      exact Function.update_eq_self_iff.mpr hl.symm
    rw [hsame]
    exact h.owned
  · next hne =>
    have hnew : fd ∉ w.descriptors := hfd.resolve_left hne
    refine ⟨?_, fun x => ?_⟩
    · -- the OS has just opened `fd`, so no socket holds it yet
      have hlive : {x | x ∈ fd :: w.descriptors} = insert fd {x | x ∈ w.descriptors} := by
        ext x
        simp
      have hown := h.owned.acquire hl (x := fd) hnew
      rw [← hheld hne, ← hlive] at hown
      exact hown
    · have hcount := h.counted x
      by_cases hx : x = fd
      · subst hx
        simp only [World.setObj, List.count_cons_self, List.mem_cons_self, if_true]
        simp [hnew] at hcount
        omega
      · simp [World.setObj, List.count_cons_of_ne (Ne.symm hx), hx, hcount]

lemma moveConstruct (h : SocketInv w) {dst src : Place} {s : Socket} {o : Socket → Obj}
    (hdst : w.held dst = none) (hne : dst ≠ src) (hs : w.socketAt src = some s)
    (ho : ∀ s, (o s).socket? = some s) : SocketInv (w.moveConstruct dst src s o) := by
  refine ⟨?_, h.counted⟩
  -- the source is left without a descriptor
  have hheld : (w.moveConstruct dst src s o).held =
      Function.update (Function.update w.held dst (w.held src)) src none := by
    rw [World.moveConstruct, World.held_setObj, World.held_setSocket hs, Option.bind_some, ho,
      Option.bind_some, Function.update_comm hne.symm, World.held_of_socketAt hs]
    rfl
  rw [hheld]
  exact h.owned.move hdst src

lemma moveAssign (h : SocketInv w) {dst src : Place} {self rhs : Socket}
    (hd : w.socketAt dst = some self) (hs : w.socketAt src = some rhs) :
    SocketInv (w.moveAssign dst src self rhs) := by
  unfold World.moveAssign
  split
  · exact h
  · next hne =>
    refine ⟨?_, h.counted⟩
    -- the two sockets exchange their descriptors
    have hs' : (w.setSocket dst (self.moveAssign rhs).1).socketAt src = some rhs := by
      rw [World.socketAt_setSocket_of_ne w _ (Ne.symm hne), hs]
    rw [World.held_setSocket hs', World.held_setSocket hd]
    have hown := h.owned.update_update dst src
    rw [World.held_of_socketAt hd, World.held_of_socketAt hs] at hown
    exact hown

/-- An operation that changes no owner and closes nothing. -/
lemma of_same (h : SocketInv w) {t : World} (hheld : t.held = w.held)
    (hdesc : t.descriptors = w.descriptors) (hopened : t.opened = w.opened)
    (hcount : ∀ fd, t.calls.count (.osClose fd) = w.calls.count (.osClose fd)) :
    SocketInv t := by
  refine ⟨?_, fun fd => ?_⟩
  · rw [hheld, hdesc]
    exact h.owned
  · rw [hdesc, hopened, hcount]
    exact h.counted fd

/-- A `close` that closes the descriptor of its socket. -/
lemma close_released (h : SocketInv w) {l : Place} {s : Socket} {r c : ℤ}
    (hs : w.socketAt l = some s) (hsome : s.held = some s.fd)
    (heq : s.close r c = ⟨{ s with fd := invalidSocketFd },
      [.prepareCancel s.ring s.fd, .submit s.ring, .osClose s.fd], .ok (c ≠ 0)⟩) :
    SocketInv (w.close l s r c) ∧ (w.close l s r c).held l = none := by
  have hself : w.held l = some s.fd := (World.held_of_socketAt hs).trans hsome
  have hheld : (w.close l s r c).held = Function.update w.held l none := by
    rw [World.held_close hs, heq]
    rfl
  have hmem (fd : ℤ) : fd ∈ (w.close l s r c).descriptors ↔ fd ∈ w.descriptors ∧ fd ≠ s.fd := by
    simp [World.close, heq]
  have hcalls : (w.close l s r c).calls = w.calls ++
      [.prepareCancel s.ring s.fd, .submit s.ring, .osClose s.fd] := by
    simp [World.close, heq]
  have hopened : (w.close l s r c).opened = w.opened := rfl
  have hopen : s.fd ∈ w.descriptors := h.owned.live_of_held l s.fd hself
  refine ⟨⟨?_, fun fd => ?_⟩, by rw [hheld, Function.update_self]⟩
  · have hlive : {fd | fd ∈ (w.close l s r c).descriptors} =
        {fd | fd ∈ w.descriptors} \ {s.fd} := by
      ext fd
      simp [hmem]
    rw [hheld, hlive]
    exact h.owned.release hself
  · -- the descriptor leaves the open ones and joins the closed ones
    rw [hcalls, hopened, h.counted fd, List.count_append]
    by_cases hfd : fd = s.fd
    · subst hfd
      simp [hmem, hopen]
    · simp [hmem, hfd, Ne.symm hfd]

/-- A `close` keeps the owners, and one that returns leaves no descriptor in its socket. -/
lemma close (h : SocketInv w) {l : Place} {s : Socket} (hs : w.socketAt l = some s)
    (r c : ℤ) : SocketInv (w.close l s r c) ∧
      (∀ b, (s.close r c).result = .ok b → (w.close l s r c).held l = none) ∧
      ((s.close r c).result = .error r → (w.close l s r c).held = w.held ∧
        (w.close l s r c).descriptors = w.descriptors) := by
  have hsame (hself : (s.close r c).self = s) : (w.close l s r c).held = w.held := by
    rw [World.held_close hs, hself, ← World.held_of_socketAt hs, Function.update_eq_self]
  rcases s.close_cases r c with ⟨hnone, heq⟩ | ⟨hsome, hne, heq⟩ | ⟨hsome, hne, heq⟩
  · have hheld := hsame (by rw [heq])
    have hdesc : (w.close l s r c).descriptors = w.descriptors := by simp [World.close, heq]
    have hcalls : (w.close l s r c).calls = w.calls := by simp [World.close, heq]
    refine ⟨h.of_same hheld hdesc rfl (by simp [hcalls]), fun b hb => ?_, fun _ => ⟨hheld, hdesc⟩⟩
    rw [hheld, World.held_of_socketAt hs, hnone]
  · have hheld := hsame (by rw [heq])
    have hdesc : (w.close l s r c).descriptors = w.descriptors := by simp [World.close, heq]
    have hcalls : (w.close l s r c).calls =
        w.calls ++ [.prepareCancel s.ring s.fd, .submit s.ring] := by simp [World.close, heq]
    refine ⟨h.of_same hheld hdesc rfl (by simp [hcalls]), fun b hb => ?_, fun _ => ⟨hheld, hdesc⟩⟩
    rw [heq] at hb
    cases hb
  · obtain ⟨hinv, hnone⟩ := h.close_released hs hsome heq
    refine ⟨hinv, fun _ _ => hnone, fun hb => ?_⟩
    rw [heq] at hb
    cases hb

lemma destruct (h : SocketInv w) {l : Place} {s : Socket} {o : Option Obj}
    (hs : w.socketAt l = some s) (r c : ℤ) (ho : o.bind Obj.socket? = none) :
    SocketInv (w.destruct l s r c o) := by
  obtain ⟨hinv, hok, -⟩ := h.close hs r c
  unfold World.destruct
  -- a destructor that throws ends the program with the socket as it was
  split
  · exact { hinv with }
  · next b hb => exact hinv.setObj (hok b hb) ho

/-- Every operation keeps the owners. -/
theorem step (h : SocketInv w) {act : SocketAction} {t : World} (hm : SocketMove w act t) :
    SocketInv t := by
  cases hm with
  | construct hl hfd =>
    exact h.construct _ (World.held_eq_none (World.socketAt_of_objs hl)) hfd
  | move hdst hne hs ho => exact h.moveConstruct (World.held_eq_none hdst) hne hs ho
  | assign hact hd hs => exact h.moveAssign hd hs
  | close hs => exact (h.close hs _ _).1
  | destruct hact hs ho => exact h.destruct hs _ _ ho
  | place hl ho => exact h.setObj (World.held_eq_none hl) ho

end SocketInv

/-! ## Calls -/

/-- The calls of an operation are those of the `close` of one socket that has a descriptor. -/
def CallsOf (w : World) (act : SocketAction) (calls : List Call) : Prop :=
  calls = [] ∨ ∃ l s, act.closes = some l ∧ w.socketAt l = some s ∧ s.fd ≠ invalidSocketFd ∧
    calls <+: [.prepareCancel s.ring s.fd, .submit s.ring, .osClose s.fd]

lemma callsOf_close {w : World} {act : SocketAction} {l : Place} {s : Socket} {r c : ℤ}
    (hact : act.closes = some l) (hs : w.socketAt l = some s) :
    CallsOf w act (s.close r c).calls := by
  rcases s.close_cases r c with ⟨-, heq⟩ | ⟨-, hne, heq⟩ | ⟨-, hne, heq⟩
  · exact .inl (by rw [heq])
  · refine .inr ⟨l, s, hact, hs, hne, ?_⟩
    rw [heq]
    exact ⟨[.osClose s.fd], rfl⟩
  · refine .inr ⟨l, s, hact, hs, hne, [], ?_⟩
    rw [List.append_nil, heq]

lemma SocketMove.calls {w t : World} {act : SocketAction} (hm : SocketMove w act t) :
    ∃ calls, t.calls = w.calls ++ calls ∧ CallsOf w act calls := by
  have hnone : w.calls = w.calls ++ [] := (List.append_nil _).symm
  cases hm with
  | construct hl hfd =>
    refine ⟨[], ?_, .inl rfl⟩
    unfold World.construct
    dsimp only
    split <;> exact hnone
  | move hdst hne hs ho => exact ⟨[], hnone, .inl rfl⟩
  | assign hact hd hs =>
    refine ⟨[], ?_, .inl rfl⟩
    unfold World.moveAssign
    split <;> exact hnone
  | @close l s r c hs => exact ⟨(s.close r c).calls, rfl, callsOf_close rfl hs⟩
  | @destruct act l s r c o hact hs ho =>
    refine ⟨(s.close r c).calls, ?_, callsOf_close hact hs⟩
    unfold World.destruct
    split <;> rfl
  | place hl ho => exact ⟨[], hnone, .inl rfl⟩

/-! ## Ownership -/

/-- Descriptor ownership at a step. -/
structure OwnershipSafe (w : World) (act : SocketAction) (t : World) : Prop where
  /-- each open descriptor is held by exactly one live socket -/
  exclusive : ∀ fd ∈ t.descriptors, ∃! l, t.held l = some fd
  /-- no live socket holds a closed one -/
  open_of_held : ∀ l fd, t.held l = some fd → fd ∈ t.descriptors
  /-- a descriptor is closed as often as it was opened, once less while it is open -/
  accounted : ∀ fd, t.opened.count fd =
    t.calls.count (.osClose fd) + if fd ∈ t.descriptors then 1 else 0
  /-- only a socket with a descriptor makes calls, and on its own descriptor -/
  calls : ∃ calls, t.calls = w.calls ++ calls ∧ CallsOf w act calls
  /-- a `close` that throws leaves the descriptor where it is -/
  throws : ∀ l r c s, act = .close l r c → w.socketAt l = some s →
    (s.close r c).result = .error r → t.held = w.held ∧ t.descriptors = w.descriptors

/-- Every operation on sockets keeps every open descriptor with exactly one of them until it
is closed, once. -/
theorem descriptor_ownership (acts : List SocketAction) :
    sockets.Steps OwnershipSafe sockets.start acts := by
  refine Lib.System.steps_of_inductive SocketInv ?_ SocketInv.start acts
  intro w act t hw hst
  have hm := socketStep_move hst
  have ht := hw.step hm
  refine ⟨⟨fun fd hfd => ht.owned.existsUnique hfd, ht.owned.live_of_held, ht.counted, hm.calls,
    fun l r c s hact hs hres => ?_⟩, ht⟩
  subst hact
  have heq : w.close l s r c = t := by
    have hstep : socketStep w (.close l r c) = some t := hst
    unfold socketStep at hstep
    split at hstep
    · cases hstep
    · simpa [hs] using hstep
  exact heq ▸ (hw.close hs r c).2.2 hres

/-! ## The accept path -/

/-- `on_accept` leaves the accepted socket in the result of its event, and calls nothing. -/
theorem onAccept_result {w : World} {ring : RingId} {fd e : ℤ} {result cs tmp old : Place}
    (hw : w.terminated = false) (hfd : fd ≠ invalidSocketFd) (hnew : fd ∉ w.descriptors)
    (hres : w.objs result = some (.expected (.error e))) (hcs : w.objs cs = none)
    (htmp : w.objs tmp = none) (hold : w.objs old = none)
    (hdist : [result, cs, tmp, old].Nodup) (r c : ℤ) :
    sockets.run w (onAcceptActions ring fd result cs tmp old r c) = some
      { w.setObj result (some (.expected (.ok ⟨ring, fd⟩))) with
        descriptors := fd :: w.descriptors
        opened := fd :: w.opened } := by
  simp only [List.nodup_cons, List.mem_cons, List.not_mem_nil, or_false, not_or] at hdist
  obtain ⟨⟨h₁, h₂, h₃⟩, ⟨h₄, h₅⟩, h₆, -⟩ := hdist
  -- `cs`, `tmp` and `old` end without a descriptor, so their destructors close nothing
  simp [onAcceptActions, Lib.System.run, sockets, socketStep, World.construct, World.setObj,
    World.moveConstruct, World.setSocket, World.socketAt, World.destruct, World.close,
    Obj.socket?, Obj.withSocket, Socket.moveConstruct, Socket.close, hw, hcs, hnew, hfd, htmp,
    hold, hres, h₁, h₂, h₃, h₄, h₅, h₆, Ne.symm h₁, Ne.symm h₂, Ne.symm h₃, Ne.symm h₄,
    Ne.symm h₅, Ne.symm h₆]
  funext k
  simp only [Function.update_apply]
  grind

/-- `await_resume` hands that socket to the coroutine. -/
theorem awaitResume_result {w : World} {result v : Place} {s : Socket}
    (hw : w.terminated = false) (hres : w.objs result = some (.expected (.ok s)))
    (hv : w.objs v = none) (r c : ℤ) :
    sockets.run w (awaitResumeActions result v r c) = some
      ((w.setObj result (some (.expected (.error (-1))))).setObj v
        (some (.expected (.ok s)))) := by
  have hne : v ≠ result := by
    intro heq
    rw [← heq, hv] at hres
    cases hres
  obtain ⟨ring, fd⟩ := s
  simp [awaitResumeActions, Lib.System.run, sockets, socketStep, World.setObj,
    World.moveConstruct, World.setSocket, World.destruct, World.close, Obj.withSocket,
    Socket.moveConstruct, Socket.close, hw, hres, hv, Ne.symm hne]
  funext k
  simp only [Function.update_apply]
  grind

end Zsl.Iouring
