import Zsl.Iouring.RingAffinity
import Zsl.Iouring.SocketTheorems

/-!
# Which ring a descriptor is used on

* `SocketFrom`: where a socket has its ring and its descriptor from, after any operation;
* `Affine`: sockets, acceptors, awaitables and operations in flight agree on the rings;
* `ring_affinity_iff`: descriptors stay with their rings exactly along the runs whose move
  assignments are on one ring. The move constructor takes the ring along with the descriptor,
  the move assignment leaves it behind.
-/

namespace Zsl.Iouring

namespace World

lemma socketAt_construct (w : World) (l : Place) (ring : RingId) (fd : ℤ) :
    (w.construct l ring fd).socketAt = Function.update w.socketAt l (some ⟨ring, fd⟩) := by
  have hobj := w.socketAt_setObj l (some (.socket ⟨ring, fd⟩))
  unfold construct
  dsimp only
  split <;> exact hobj

lemma socketAt_moveConstruct {w : World} {dst src : Place} {s : Socket} {o : Socket → Obj}
    (hs : w.socketAt src = some s) (ho : ∀ s, (o s).socket? = some s) :
    (w.moveConstruct dst src s o).socketAt =
      Function.update (Function.update w.socketAt src (some s.moveConstruct.2)) dst (some s) := by
  unfold moveConstruct
  rw [socketAt_setObj, socketAt_setSocket hs, Option.bind_some, ho]
  rfl

lemma socketAt_moveAssign {w : World} {dst src : Place} {self rhs : Socket} (hne : dst ≠ src)
    (hd : w.socketAt dst = some self) (hs : w.socketAt src = some rhs) :
    (w.moveAssign dst src self rhs).socketAt =
      Function.update (Function.update w.socketAt dst (some { self with fd := rhs.fd })) src
        (some { rhs with fd := self.fd }) := by
  have hs' : (w.setSocket dst (self.moveAssign rhs).1).socketAt src = some rhs := by
    rw [socketAt_setSocket_of_ne w _ (Ne.symm hne), hs]
  unfold moveAssign
  rw [if_neg hne, socketAt_setSocket hs', socketAt_setSocket hd]
  rfl

lemma socketAt_close {w : World} {l : Place} {s : Socket} (hs : w.socketAt l = some s)
    (r c : ℤ) : (w.close l s r c).socketAt =
      Function.update w.socketAt l (some (s.close r c).self) :=
  socketAt_setSocket hs

end World

/-! ## Where a socket comes from -/

/-- How the socket `s` at `l` came about in an operation. -/
inductive SocketFrom (w : World) (act : SocketAction) (l : Place) (s : Socket) : Prop
  | kept (h : w.socketAt l = some s)
  | emptied {s₀ : Socket} (h : w.socketAt l = some s₀) (hring : s.ring = s₀.ring)
      (hfd : s.fd = invalidSocketFd)
  | opened (h : w.socketAt l = none) (hact : act = .construct l s.ring s.fd)
  | moved {k : Place} (h : w.socketAt l = none) (hk : w.socketAt k = some s)
  | assigned {k : Place} {s₀ s₁ : Socket}
      (hact : act.assigns = some (l, k) ∨ act.assigns = some (k, l)) (hne : l ≠ k)
      (h : w.socketAt l = some s₀) (hk : w.socketAt k = some s₁)
      (hring : s.ring = s₀.ring) (hfd : s.fd = s₁.fd)

/-- A `close` leaves its socket as it is, or without a descriptor. -/
lemma socketFrom_close {w : World} {act : SocketAction} {l k : Place} {s₀ s : Socket} {r c : ℤ}
    (hl : w.socketAt l = some s₀) (h : (w.close l s₀ r c).socketAt k = some s) :
    SocketFrom w act k s := by
  rw [World.socketAt_close hl] at h
  rcases Lib.update_eq_some h with ⟨rfl, heq⟩ | ⟨-, hk⟩
  · obtain rfl := Option.some.inj heq
    rcases s₀.close_cases r c with ⟨-, heq⟩ | ⟨-, -, heq⟩ | ⟨-, -, heq⟩
    · exact .kept (by rw [heq, hl])
    · exact .kept (by rw [heq, hl])
    · exact .emptied hl (by rw [heq]) (by rw [heq])
  · exact .kept hk

theorem SocketMove.socketFrom {w t : World} {act : SocketAction} (hb : SocketMove w act t)
    {k : Place} {s : Socket} (h : t.socketAt k = some s) : SocketFrom w act k s := by
  cases hb with
  | construct hl hfd =>
    rw [World.socketAt_construct] at h
    rcases Lib.update_eq_some h with ⟨rfl, heq⟩ | ⟨-, hk⟩
    · obtain rfl := Option.some.inj heq
      exact .opened (World.socketAt_of_objs hl) rfl
    · exact .kept hk
  | move hdst hne hs ho =>
    rw [World.socketAt_moveConstruct hs ho] at h
    rcases Lib.update_eq_some h with ⟨rfl, heq⟩ | ⟨-, h⟩
    · obtain rfl := Option.some.inj heq
      exact .moved hdst hs
    · rcases Lib.update_eq_some h with ⟨rfl, heq⟩ | ⟨-, hk⟩
      · obtain rfl := Option.some.inj heq
        exact .emptied hs rfl rfl
      · exact .kept hk
  | @assign _ dst src _ _ hact hd hs =>
    by_cases hne : dst = src
    · rw [World.moveAssign, if_pos hne] at h
      exact .kept h
    · rw [World.socketAt_moveAssign hne hd hs] at h
      rcases Lib.update_eq_some h with ⟨rfl, heq⟩ | ⟨-, h⟩
      · obtain rfl := Option.some.inj heq
        exact .assigned (Or.inr hact) (Ne.symm hne) hs hd rfl rfl
      · rcases Lib.update_eq_some h with ⟨rfl, heq⟩ | ⟨-, hk⟩
        · obtain rfl := Option.some.inj heq
          exact .assigned (Or.inl hact) hne hd hs rfl rfl
        · exact .kept hk
  | close hs => exact socketFrom_close hs h
  | destruct hact hs ho =>
    unfold World.destruct at h
    split at h
    · exact socketFrom_close hs h
    · -- nothing is left at the place of a destroyed socket
      rw [World.socketAt_setObj, ho] at h
      rcases Lib.update_eq_some h with ⟨-, hnone⟩ | ⟨-, hk⟩
      · cases hnone
      · exact socketFrom_close hs hk
  | place hl ho =>
    rw [World.socketAt_setObj, ho] at h
    rcases Lib.update_eq_some h with ⟨-, hnone⟩ | ⟨-, hk⟩
    · cases hnone
    · exact .kept hk

/-- No operation changes the ring of a live socket. -/
theorem SocketMove.ring_eq {w t : World} {act : SocketAction} (hb : SocketMove w act t)
    {l : Place} {s s' : Socket} (h : w.socketAt l = some s) (h' : t.socketAt l = some s') :
    s'.ring = s.ring := by
  have hsame {s₀ : Socket} (h₀ : w.socketAt l = some s₀) : s₀ = s :=
    Option.some.inj (h₀.symm.trans h)
  cases hb.socketFrom h' with
  | kept h₀ => rw [hsame h₀]
  | emptied h₀ hring _ => rw [hring, hsame h₀]
  | opened h₀ _ => rw [h₀] at h; cases h
  | moved h₀ _ => rw [h₀] at h; cases h
  | assigned _ _ h₀ _ hring _ => rw [hring, hsame h₀]

/-- An assignment of one live socket to another exchanges their descriptors. -/
lemma socketStep_assign {w t : World} {act : SocketAction} {dst src : Place} {self rhs : Socket}
    (h : socketStep w act = some t) (hact : act.assigns = some (dst, src))
    (hd : w.socketAt dst = some self) (hs : w.socketAt src = some rhs) :
    t = w.moveAssign dst src self rhs := by
  have hterm : w.terminated = false := by
    by_contra hterm
    simp [socketStep, hterm] at h
  unfold socketStep at h
  rw [hterm, if_neg Bool.false_ne_true] at h
  cases act with
  | moveAssign d k =>
    obtain ⟨rfl, rfl⟩ := Prod.mk.inj (Option.some.inj hact)
    simp only [hd, hs] at h
    exact (Option.some.inj h).symm
  | assignExpected d k r c =>
    obtain ⟨rfl, rfl⟩ := Prod.mk.inj (Option.some.inj hact)
    -- an `expected` with an error has no socket, so both have a value
    dsimp only at h
    split at h
    · next self' rhs' hd' hs' =>
      rw [World.socketAt_eq hd'] at hd
      rw [World.socketAt_eq hs'] at hs
      obtain rfl := Option.some.inj hd
      obtain rfl := Option.some.inj hs
      exact (Option.some.inj h).symm
    · next self' e hd' hs' =>
      rw [World.socketAt_eq hs'] at hs
      cases hs
    · next e rhs' hd' hs' =>
      rw [World.socketAt_eq hd'] at hd
      cases hd
    · next e e' hd' hs' =>
      rw [World.socketAt_eq hd'] at hd
      cases hd
    · cases h
  | _ => cases hact

lemma SocketInv.mem_descriptors {w : World} (h : SocketInv w) {l : Place} {s : Socket}
    (hs : w.socketAt l = some s) (hfd : s.fd ≠ invalidSocketFd) : s.fd ∈ w.descriptors := by
  have hheld : w.held l = some s.fd := by
    rw [World.held_of_socketAt hs, Socket.held, if_neg hfd]
  exact h.owned.live_of_held l s.fd hheld

lemma SocketInv.invalid_not_mem {w : World} (h : SocketInv w) :
    invalidSocketFd ∉ w.descriptors := by
  intro hmem
  obtain ⟨l, hl⟩ := h.owned.holder invalidSocketFd hmem
  obtain ⟨s, -, hheld⟩ := Option.bind_eq_some_iff.mp hl
  unfold Socket.held at hheld
  split at hheld
  · cases hheld
  · next hfd => exact hfd (Option.some.inj hheld)

/-- The OS never hands out a descriptor that is open. -/
lemma SocketInv.not_mem_of_construct {w t : World} (h : SocketInv w) {l : Place} {ring : RingId}
    {fd : ℤ} (hst : socketStep w (.construct l ring fd) = some t) : fd ∉ w.descriptors := by
  unfold socketStep at hst
  split at hst
  · cases hst
  · dsimp only at hst
    split at hst
    · next hg =>
      rcases hg.2 with rfl | hnew
      · exact h.invalid_not_mem
      · exact hnew
    · cases hst

/-! ## The invariant -/

/-- All that refers to a descriptor agrees on its ring. -/
structure Affine (w : RingWorld) : Prop where
  inv : SocketInv w.world
  sockets : ∀ l s, w.world.socketAt l = some s → s.fd ≠ invalidSocketFd → s.ring = w.origin s.fd
  acceptors : ∀ a ∈ w.acceptors, ∃ s, w.world.socketAt a.ss = some s ∧ s.ring = a.ring
  awaitables : ∀ x ∈ w.awaitables, (∃ s, w.world.socketAt x.self = some s ∧ s.ring = x.ring) ∧
    ∀ r, x.acceptor = some r → r = x.ring
  pending : ∀ p ∈ w.pending, p.fd ∈ w.world.descriptors ∧ p.ring = w.origin p.fd ∧
    ∀ r, p.acceptor = some r → r = p.ring

namespace Affine
variable {w : RingWorld}

protected lemma start : Affine RingWorld.start where
  inv := SocketInv.start
  sockets l s hs := by cases hs
  acceptors a ha := by cases ha
  awaitables x hx := by cases hx
  pending p hp := by cases hp

/-- What refers to a socket that is still there refers to the same ring. -/
lemma after (h : Affine w) {act : SocketAction} {t : World} {origin : ℤ → RingId}
    (hb : SocketMove w.world act t)
    (horigin : ∀ fd ∈ w.world.descriptors, origin fd = w.origin fd)
    (hsockets : ∀ l s, t.socketAt l = some s → s.fd ≠ invalidSocketFd → s.ring = origin s.fd) :
    Affine (w.after t origin) where
  inv := h.inv.step hb
  sockets := hsockets
  acceptors a ha := by
    obtain ⟨hmem, hsome⟩ := List.mem_filter.mp ha
    obtain ⟨s, hs, hring⟩ := h.acceptors a hmem
    obtain ⟨s', hs'⟩ := Option.isSome_iff_exists.mp hsome
    exact ⟨s', hs', (hb.ring_eq hs hs').trans hring⟩
  awaitables x hx := by
    obtain ⟨hmem, hsome⟩ := List.mem_filter.mp hx
    obtain ⟨⟨s, hs, hring⟩, hacceptor⟩ := h.awaitables x hmem
    obtain ⟨s', hs'⟩ := Option.isSome_iff_exists.mp hsome
    exact ⟨⟨s', hs', (hb.ring_eq hs hs').trans hring⟩, hacceptor⟩
  pending p hp := by
    obtain ⟨hmem, hopen⟩ := List.mem_filter.mp hp
    obtain ⟨hwas, hring, hacceptor⟩ := h.pending p hmem
    exact ⟨of_decide_eq_true hopen, by rw [hring]; exact (horigin p.fd hwas).symm, hacceptor⟩

/-- A socket that an acceptor refers to is on the ring of the acceptor. -/
lemma ring_of_acceptor (h : Affine w) {a : Acceptor} {s : Socket} (ha : a ∈ w.acceptors)
    (hs : w.world.socketAt a.ss = some s) : s.ring = a.ring := by
  obtain ⟨s', hs', hring⟩ := h.acceptors a ha
  rw [← hring, Option.some.inj (hs.symm.trans hs')]

/-- An awaitable prepares its operation on the ring of the descriptor. -/
lemma ring_of_awaitable (h : Affine w) {x : RingAwaitable} {s : Socket} (hx : x ∈ w.awaitables)
    (hs : w.world.socketAt x.self = some s) (hfd : s.fd ≠ invalidSocketFd) :
    x.ring = w.origin s.fd := by
  obtain ⟨⟨s', hs', hring⟩, -⟩ := h.awaitables x hx
  rw [← hring, ← Option.some.inj (hs.symm.trans hs')]
  exact h.sockets x.self s hs hfd

/-- Sockets keep to the ring of their descriptor when assignments do. -/
lemma sockets_of_assigns (h : Affine w) {act : SocketAction} {t : World} {origin : ℤ → RingId}
    (hb : SocketMove w.world act t)
    (horigin : ∀ fd ∈ w.world.descriptors, origin fd = w.origin fd)
    (hopened : ∀ l ring fd, act = .construct l ring fd → origin fd = ring)
    (hassigns : ∀ dst src self rhs, act.assigns = some (dst, src) → dst ≠ src →
      w.world.socketAt dst = some self → w.world.socketAt src = some rhs →
        self.ring = rhs.ring ∨ self.fd = invalidSocketFd ∧ rhs.fd = invalidSocketFd)
    {l : Place} {s : Socket} (hs : t.socketAt l = some s) (hfd : s.fd ≠ invalidSocketFd) :
    s.ring = origin s.fd := by
  -- a socket that had the descriptor before was on its ring
  have hold {k : Place} {s₁ : Socket} (hk : w.world.socketAt k = some s₁)
      (heq : s.fd = s₁.fd) : s₁.ring = origin s.fd := by
    rw [heq] at hfd ⊢
    rw [horigin s₁.fd (h.inv.mem_descriptors hk hfd)]
    exact h.sockets k s₁ hk hfd
  cases hb.socketFrom hs with
  | kept hl => exact hold hl rfl
  | emptied _ _ hempty => exact absurd hempty hfd
  | opened _ hact => exact (hopened l s.ring s.fd hact).symm
  | moved _ hk => exact hold hk rfl
  | @assigned k s₀ s₁ hact hne hl hk hring heq =>
    rw [hring, ← hold hk heq]
    rw [heq] at hfd
    rcases hact with hact | hact
    · rcases hassigns l k s₀ s₁ hact hne hl hk with hsame | ⟨-, hempty⟩
      · exact hsame
      · exact absurd hempty hfd
    · rcases hassigns k l s₁ s₀ hact (Ne.symm hne) hk hl with hsame | ⟨hempty, -⟩
      · exact hsame.symm
      · exact absurd hempty hfd

/-- An assignment after which the sockets are on the rings of their descriptors is on one
ring. -/
lemma assigns_of_sockets (h : Affine w) {act : SocketAction} {t : World}
    (hst : socketStep w.world act = some t)
    (hsockets : ∀ l s, t.socketAt l = some s → s.fd ≠ invalidSocketFd → s.ring = w.origin s.fd)
    {dst src : Place} {self rhs : Socket} (hact : act.assigns = some (dst, src))
    (hne : dst ≠ src) (hd : w.world.socketAt dst = some self)
    (hs : w.world.socketAt src = some rhs) :
    self.ring = rhs.ring ∨ self.fd = invalidSocketFd ∧ rhs.fd = invalidSocketFd := by
  have ht := World.socketAt_moveAssign hne hd hs
  rw [← socketStep_assign hst hact hd hs] at ht
  by_cases hrhs : rhs.fd = invalidSocketFd
  · by_cases hself : self.fd = invalidSocketFd
    · exact .inr ⟨hself, hrhs⟩
    · -- `rhs` has the descriptor of `self` now
      have hnow : t.socketAt src = some { rhs with fd := self.fd } := by
        rw [ht, Function.update_self]
      exact .inl ((h.sockets dst self hd hself).trans (hsockets src _ hnow hself).symm)
  · have hnow : t.socketAt dst = some { self with fd := rhs.fd } := by
      rw [ht, Function.update_of_ne hne, Function.update_self]
    exact .inl ((hsockets dst _ hnow hrhs).trans (h.sockets src rhs hs hrhs).symm)

/-- A socket cancels and closes its descriptor where the operations on it are. -/
lemma cancelled (h : Affine w) {act : SocketAction} {calls : List Call}
    (hcalls : CallsOf w.world act calls) : calls = [] ∨ ∃ fd,
      calls <+: [.prepareCancel (w.origin fd) fd, .submit (w.origin fd), .osClose fd] ∧
        ∀ p ∈ w.pending, p.fd = fd → p.ring = w.origin fd := by
  rcases hcalls with hnil | ⟨l, s, -, hs, hfd, hprefix⟩
  · exact .inl hnil
  · right
    rw [h.sockets l s hs hfd] at hprefix
    refine ⟨s.fd, hprefix, fun p hp hpfd => ?_⟩
    rw [← hpfd]
    exact (h.pending p hp).2.1

end Affine

/-! ## The branches of a step -/

/-- What an operation can do to the program. -/
inductive RingMove (w : RingWorld) : RingAction → RingWorld → Prop
  | socket {act : SocketAction} {t : World} (hst : socketStep w.world act = some t) :
      RingMove w (.socket act) (w.after t (w.originAfter act))
  | acceptor {l : Place} {s : Socket} (hs : w.world.socketAt l = some s) :
      RingMove w (.acceptor l) { w with acceptors := ⟨s.ring, l⟩ :: w.acceptors }
  | operation {l : Place} {s : Socket} (hs : w.world.socketAt l = some s) :
      RingMove w (.operation l) { w with awaitables := ⟨s.ring, l, none⟩ :: w.awaitables }
  | accept {a : Acceptor} {s : Socket} (ha : a ∈ w.acceptors)
      (hs : w.world.socketAt a.ss = some s) : RingMove w (.accept a)
        { w with awaitables := ⟨s.ring, a.ss, some a.ring⟩ :: w.awaitables }
  | submit {x : RingAwaitable} {s : Socket} (hx : x ∈ w.awaitables)
      (hs : w.world.socketAt x.self = some s) : RingMove w (.submit x) (w.submit x s)
  | complete {p : Operation} :
      RingMove w (.complete p) { w with pending := w.pending.erase p }
  | accepted {p : Operation} {l : Place} {ring : RingId} {fd : ℤ} {t : World}
      (hp : p ∈ w.pending) (hring : p.acceptor = some ring)
      (hst : socketStep w.world (.construct l ring fd) = some t) :
      RingMove w (.accepted p l fd) (w.after t (Function.update w.origin fd p.ring))

/-- Every operation is one of the branches. -/
theorem ringStep_move {w t : RingWorld} {act : RingAction} (h : ringStep w act = some t) :
    RingMove w act t := by
  unfold ringStep at h
  split at h
  · cases h
  · cases act with
    | socket act =>
      obtain ⟨u, hu, rfl⟩ := Option.map_eq_some_iff.mp h
      exact .socket hu
    | acceptor l =>
      obtain ⟨s, hs, rfl⟩ := Option.map_eq_some_iff.mp h
      exact .acceptor hs
    | operation l =>
      obtain ⟨s, hs, rfl⟩ := Option.map_eq_some_iff.mp h
      exact .operation hs
    | accept a =>
      dsimp only at h
      split at h
      · next ha =>
        obtain ⟨s, hs, rfl⟩ := Option.map_eq_some_iff.mp h
        exact .accept ha hs
      · cases h
    | submit x =>
      dsimp only at h
      split at h
      · next hx =>
        obtain ⟨s, hs, rfl⟩ := Option.map_eq_some_iff.mp h
        exact .submit hx hs
      · cases h
    | complete p =>
      dsimp only at h
      split at h
      · obtain rfl := Option.some.inj h
        exact .complete
      · cases h
    | accepted p l fd =>
      dsimp only at h
      split at h
      · next ring hring =>
        split at h
        · next hp =>
          obtain ⟨u, hu, rfl⟩ := Option.map_eq_some_iff.mp h
          exact .accepted hp.1 hring hu
        · cases h
      · cases h

/-- Only operations on sockets make calls. -/
lemma RingMove.calls {w t : RingWorld} {act : RingAction} (hm : RingMove w act t) :
    ∃ calls act', t.world.calls = w.world.calls ++ calls ∧ CallsOf w.world act' calls := by
  have hnone : ∃ calls act', w.world.calls = w.world.calls ++ calls ∧
      CallsOf w.world act' calls := ⟨[], .close 0 0 0, (List.append_nil _).symm, .inl rfl⟩
  cases hm with
  | socket hst =>
    obtain ⟨calls, heq, hcalls⟩ := (socketStep_move hst).calls
    exact ⟨calls, _, heq, hcalls⟩
  | accepted hp hring hst =>
    obtain ⟨calls, heq, hcalls⟩ := (socketStep_move hst).calls
    exact ⟨calls, _, heq, hcalls⟩
  | acceptor _ => exact hnone
  | operation _ => exact hnone
  | accept _ _ => exact hnone
  | submit _ _ => exact hnone
  | complete => exact hnone

namespace Affine
variable {w t : RingWorld}

/-- Another descriptor keeps its ring when one is opened. -/
lemma update_origin (h : Affine w) {l : Place} {ring r : RingId} {fd : ℤ} {u : World}
    (hst : socketStep w.world (.construct l ring fd) = some u) (x : ℤ)
    (hx : x ∈ w.world.descriptors) : Function.update w.origin fd r x = w.origin x := by
  apply Function.update_of_ne
  intro hxfd
  exact h.inv.not_mem_of_construct hst (hxfd ▸ hx)

lemma originAfter_eq (h : Affine w) {act : SocketAction} {u : World}
    (hst : socketStep w.world act = some u) (x : ℤ) (hx : x ∈ w.world.descriptors) :
    w.originAfter act x = w.origin x := by
  cases act with
  | construct l ring fd => exact h.update_origin hst x hx
  | _ => rfl

/-- The ring of the acceptor is the ring of its request. -/
lemma acceptor_ring (h : Affine w) {p : Operation} {ring : RingId} (hp : p ∈ w.pending)
    (hring : p.acceptor = some ring) : ring = p.ring :=
  (h.pending p hp).2.2 ring hring

/-- The sockets of a step that meets the condition. -/
lemma sockets_step (h : Affine w) {act : RingAction} (hm : RingMove w act t)
    (hassigns : AssignsOnOneRing w act t) (l : Place) (s : Socket)
    (hs : t.world.socketAt l = some s) (hfd : s.fd ≠ invalidSocketFd) :
    s.ring = t.origin s.fd := by
  cases hm with
  | @socket act u hst =>
    apply h.sockets_of_assigns (socketStep_move hst) (h.originAfter_eq hst) ?_ ?_ hs hfd
    · intro k ring fd hact
      subst hact
      exact Function.update_self ..
    · intro dst src self rhs hact hne hd hs
      exact hassigns act dst src self rhs rfl hact hne hd hs
  | @accepted p k ring fd u hp hring hst =>
    apply h.sockets_of_assigns (socketStep_move hst) (h.update_origin hst) ?_ ?_ hs hfd
    · intro k' ring' fd' hact
      cases hact
      rw [Function.update_self]
      exact (h.acceptor_ring hp hring).symm
    · intro dst src self rhs hact
      cases hact
  | acceptor _ => exact h.sockets l s hs hfd
  | operation _ => exact h.sockets l s hs hfd
  | accept _ _ => exact h.sockets l s hs hfd
  | submit _ _ => exact h.sockets l s hs hfd
  | complete => exact h.sockets l s hs hfd

/-- A step that meets the condition keeps the invariant. -/
theorem step (h : Affine w) {act : RingAction} (hm : RingMove w act t)
    (hassigns : AssignsOnOneRing w act t) : Affine t := by
  have hsockets := h.sockets_step hm hassigns
  cases hm with
  | socket hst => exact h.after (socketStep_move hst) (h.originAfter_eq hst) hsockets
  | accepted hp hring hst =>
    exact h.after (socketStep_move hst) (h.update_origin hst) hsockets
  | @acceptor l s hs =>
    exact { h with acceptors := List.forall_mem_cons.mpr ⟨⟨s, hs, rfl⟩, h.acceptors⟩ }
  | @operation l s hs =>
    refine { h with awaitables := List.forall_mem_cons.mpr ⟨⟨⟨s, hs, rfl⟩, ?_⟩, h.awaitables⟩ }
    intro r hr
    cases hr
  | @accept a s ha hs =>
    refine { h with awaitables := List.forall_mem_cons.mpr ⟨⟨⟨s, hs, rfl⟩, ?_⟩, h.awaitables⟩ }
    -- the socket of the acceptor is still on the ring it had when the acceptor was made
    intro r hr
    rw [← Option.some.inj hr]
    exact (h.ring_of_acceptor ha hs).symm
  | @submit x s hx hs =>
    have hrest (y : RingAwaitable) (hy : y ∈ w.awaitables.erase x) : y ∈ w.awaitables :=
      List.mem_of_mem_erase hy
    refine { h with awaitables := fun y hy => h.awaitables y (hrest y hy), pending := ?_ }
    show ∀ p ∈ (w.submit x s).pending, _
    unfold RingWorld.submit
    dsimp only
    split
    · exact h.pending
    · next hfd =>
      have hring := h.ring_of_awaitable hx hs hfd
      have hopen := h.inv.mem_descriptors hs hfd
      exact List.forall_mem_cons.mpr ⟨⟨hopen, hring, (h.awaitables x hx).2⟩, h.pending⟩
  | complete => exact { h with pending := fun q hq => h.pending q (List.mem_of_mem_erase hq) }

/-- A step that meets the condition keeps descriptors on their rings. -/
theorem kept (h : Affine w) {act : RingAction} (hm : RingMove w act t)
    (hassigns : AssignsOnOneRing w act t) : AffinityKept w act t where
  sockets := h.sockets_step hm hassigns
  prepared x s hact hs hfd := by
    subst hact
    cases hm with
    | submit hx _ => exact h.ring_of_awaitable hx hs hfd
  cancelled := by
    obtain ⟨calls, act', heq, hcalls⟩ := hm.calls
    exact ⟨calls, heq, h.cancelled hcalls⟩

/-- A step that keeps descriptors on their rings meets the condition. -/
theorem assigns (h : Affine w) {act : RingAction} (hm : RingMove w act t)
    (hkept : AffinityKept w act t) : AssignsOnOneRing w act t := by
  intro act' dst src self rhs hact hassigns hne hd hs
  subst hact
  cases hm with
  | @socket _ u hst =>
    refine h.assigns_of_sockets hst (fun l s hl hfd => ?_) hassigns hne hd hs
    -- an assignment opens nothing
    have horigin : w.originAfter act' = w.origin := by
      cases act' with
      | construct l ring fd => cases hassigns
      | _ => rfl
    rw [← horigin]
    exact hkept.sockets l s hl hfd

end Affine

/-! ## Ring affinity -/

/-- Along a run, descriptors stay with the ring they were opened or accepted on exactly as long
as every move assignment is of sockets on one ring or without descriptors. -/
theorem ring_affinity_iff (acts : List RingAction) :
    rings.Steps AssignsOnOneRing rings.start acts ↔ rings.Steps AffinityKept rings.start acts := by
  refine Lib.System.steps_iff Affine ?_ Affine.start acts
  intro w act t h hst
  have hm := ringStep_move hst
  exact ⟨⟨h.kept hm, h.assigns hm⟩, h.step hm⟩

/-- Descriptor 3 is opened on ring 0 and descriptor 4 on ring 1; the assignment leaves each
of them in a socket that points to the ring of the other. -/
theorem move_assign_leaves_ring : ¬ rings.Steps AffinityKept rings.start
    [.socket (.construct 0 0 3), .socket (.construct 1 1 4), .socket (.moveAssign 0 1)] := by
  intro h
  have hlast := ((h _ rfl).2 _ rfl).2 _ rfl
  have hring : (0 : RingId) = 1 := hlast.1.sockets 0 ⟨0, 4⟩ rfl (by decide)
  exact absurd hring (by decide)

end Zsl.Iouring
