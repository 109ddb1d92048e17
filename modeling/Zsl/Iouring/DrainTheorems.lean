import Zsl.Iouring.Drain
import Zsl.Lib.Reachability
import Mathlib.Data.List.Nodup

/-!
# What the drain loop hands out

* `DrainInv`: the queue holds what is posted and not yet given back, the outermost call
  walks it in order, and a nested call has not taken an entry;
* `drain_in_order`: while no handler throws or drains, the entries handled are the first
  ones posted, each call handles all that was posted when it read the tail, and takes at
  most `2 ^ m` entries;
* `at_most_once_iff`: no entry is handled twice exactly when no handler throws out of the
  loop and no nested call takes an entry. The head moves only after the loop.
-/

namespace Zsl.Iouring

variable {m : Fin 32}

/-! ## The branches of a step -/

/-- What a step of the drain can do. -/
inductive DrainMove (s : DrainState m) : DrainAction → DrainState m → Prop
  | post {u : Option Addr} {res : ℤ} (hroom : s.ring.hasRoom = true) :
      DrainMove s (.post u res)
        { s with
          ring := s.ring.push ⟨u, res, s.posted.length⟩
          posted := s.posted ++ [⟨u, res, s.posted.length⟩] }
  | timedOut : DrainMove s (.call DrainState.eTime) s
  | failed {r : ℤ} (hr : r ≠ 0) (ht : r ≠ DrainState.eTime) :
      DrainMove s (.call r) { s with thrown := s.thrown ++ [(r, "io_uring_wait_cqes")] }
  | call (hh : ∀ f ∈ s.frames.head?, f.inHandler = true) :
      DrainMove s (.call 0)
        { s with
          frames := ⟨s.ring.head, 0, s.ring.tail, false, s.handled.length, s.posted.length⟩ ::
            s.frames }
  | reload {f : Frame} {fs : List Frame} (hf : s.frames = f :: fs) (hh : f.inHandler = false) :
      DrainMove s .reload
        { s with frames := { f with tail := s.ring.tail, seen := s.posted.length } :: fs }
  | walk {f : Frame} {fs : List Frame} (hf : s.frames = f :: fs) (hh : f.inHandler = false)
      (hne : f.head ≠ f.tail) : DrainMove s .walk (s.walk f fs)
  | ret {f : Frame} {fs : List Frame} (hf : s.frames = f :: fs) (hh : f.inHandler = true) :
      DrainMove s .ret { s with frames := f.next :: fs }
  | throw {f : Frame} {fs : List Frame} (hf : s.frames = f :: fs) (hh : f.inHandler = true) :
      DrainMove s .throw { s with frames := fs }
  | exit {f : Frame} {fs : List Frame} (hf : s.frames = f :: fs) (hh : f.inHandler = false)
      (heq : f.head = f.tail) : DrainMove s .exit (s.leave f fs)

/-- A step of the innermost call, if it meets `p`. -/
lemma innermost_eq_some {frames : List Frame} {p : Frame → Prop} [DecidablePred p]
    {g : Frame → List Frame → DrainState m} {t : DrainState m}
    (h : (match frames with
      | f :: fs => if p f then some (g f fs) else none
      | [] => none) = some t) :
    ∃ f fs, frames = f :: fs ∧ p f ∧ t = g f fs := by
  split at h
  · next f fs =>
    split at h
    · next hp => exact ⟨f, fs, rfl, hp, (Option.some.inj h).symm⟩
    · cases h
  · cases h

/-- Every step is one of the branches. -/
theorem drainStep_move {s t : DrainState m} {act : DrainAction} (h : drainStep s act = some t) :
    DrainMove s act t := by
  unfold drainStep at h
  cases act with
  | post u res =>
    dsimp only at h
    split at h
    · next hroom =>
      obtain rfl := Option.some.inj h
      exact .post hroom
    · cases h
  | call r =>
    dsimp only at h
    split at h
    · next hh =>
      obtain rfl := Option.some.inj h
      unfold DrainState.waitForEvents
      split
      · next hr =>
        split
        · next ht =>
          subst ht
          exact .timedOut
        · next ht => exact .failed hr ht
      · next hr =>
        obtain rfl : r = 0 := by omega
        apply DrainMove.call
        intro f hf
        rw [Option.mem_def] at hf
        simpa [hf] using hh
    · cases h
  | reload =>
    obtain ⟨f, fs, hf, hh, rfl⟩ := innermost_eq_some h
    exact .reload hf hh
  | walk =>
    obtain ⟨f, fs, hf, ⟨hh, hne⟩, rfl⟩ := innermost_eq_some h
    exact .walk hf hh hne
  | ret =>
    obtain ⟨f, fs, hf, hh, rfl⟩ := innermost_eq_some h
    exact .ret hf hh
  | throw =>
    obtain ⟨f, fs, hf, hh, rfl⟩ := innermost_eq_some h
    exact .throw hf hh
  | exit =>
    obtain ⟨f, fs, hf, ⟨hh, heq⟩, rfl⟩ := innermost_eq_some h
    exact .exit hf hh heq

/-! ## The invariant -/

/-- The call `f` has gone past `k` entries of the queue, and may be handling the next. -/
structure InDrain (s : DrainState m) (f : Frame) (k : ℕ) : Prop where
  head : f.head = UInt32.ofNat (f.start + k)
  completions : f.completions = UInt32.ofNat k
  handled : s.handled.length = f.start + k + if f.inHandler then 1 else 0
  tail : f.tail = UInt32.ofNat f.seen
  le_seen : s.handled.length ≤ f.seen
  seen_le : f.seen ≤ s.posted.length

/-- The entry the outermost call takes next. -/
lemma InDrain.get_head {s : DrainState m} {f : Frame} {k : ℕ}
    (hr : s.ring.Represents s.posted f.start) (hd : InDrain s f k) (hh : f.inHandler = false)
    (hne : f.head ≠ f.tail) :
    ∃ hlt : s.handled.length < s.posted.length, s.handled.length < f.seen ∧
      s.ring.get f.head = s.posted[s.handled.length] := by
  have hlen : s.handled.length = f.start + k := by simpa [hh] using hd.handled
  have hseen : s.handled.length < f.seen := by
    -- the local counters are equal only if the counts they stand for are
    refine Nat.lt_of_le_of_ne hd.le_seen fun heq => hne ?_
    rw [hd.head, hd.tail, ← hlen, heq]
  have hlt : s.handled.length < s.posted.length := Nat.lt_of_lt_of_le hseen hd.seen_le
  refine ⟨hlt, hseen, ?_⟩
  rw [hd.head, ← hlen]
  exact hr.get_ofNat (by omega) hlt

/-- The counters after an entry. -/
lemma InDrain.next {s : DrainState m} {f : Frame} {k : ℕ} (hd : InDrain s f k)
    (hlen : s.handled.length = f.start + k + 1) : InDrain s f.next (k + 1) where
  head := by
    show f.head + 1 = UInt32.ofNat (f.start + (k + 1))
    rw [hd.head]
    exact (UInt32.ofNat_add (f.start + k) 1).symm
  completions := by
    show f.completions + 1 = UInt32.ofNat (k + 1)
    rw [hd.completions]
    exact (UInt32.ofNat_add k 1).symm
  handled := hlen
  tail := hd.tail
  le_seen := hd.le_seen
  seen_le := hd.seen_le

lemma DrainState.leave_eq (s : DrainState m) (f : Frame) (fs : List Frame) :
    s.leave f fs = { s with ring := s.ring.advance f.completions, frames := fs } := by
  unfold DrainState.leave
  split
  · rfl
  · next h =>
    have hzero : f.completions = 0 := by simpa using h
    rw [hzero, Lib.RingBuffer.advance, UInt32.add_zero]

/-- The calls under way, and the part of the queue not given back. -/
inductive Calls (s : DrainState m) : Prop
  /-- no call -/
  | none (hf : s.frames = []) (hr : s.ring.Represents s.posted s.handled.length)
  /-- one call -/
  | one (f : Frame) (k : ℕ) (hf : s.frames = [f]) (hr : s.ring.Represents s.posted f.start)
      (hd : InDrain s f k)
  /-- a call `g` from a handler of the call `f`, which has not taken an entry -/
  | nested (g f : Frame) (k : ℕ) (hf : s.frames = [g, f])
      (hr : s.ring.Represents s.posted f.start) (hd : InDrain s f k)
      (hin : f.inHandler = true) (hout : g.inHandler = false) (hhead : g.head = s.ring.head)
      (hzero : g.completions = 0)

namespace Calls
variable {s : DrainState m} {f : Frame} {fs : List Frame}

/-- Between two calls the queue starts at the first entry not handled. -/
lemma of_nil (hc : Calls s) (hf : s.frames = []) :
    s.ring.Represents s.posted s.handled.length := by
  cases hc with
  | none hf' hr => exact hr
  | one f k hf' hr hin =>
    rw [hf] at hf'
    cases hf'
  | nested g f k hf' hr hin h₁ h₂ h₃ h₄ =>
    rw [hf] at hf'
    cases hf'

/-- The innermost call is the outermost one, or it has not taken an entry. -/
lemma of_cons (hc : Calls s) (hf : s.frames = f :: fs) :
    (fs = [] ∧ ∃ k, s.ring.Represents s.posted f.start ∧ InDrain s f k) ∨
      ∃ g k, fs = [g] ∧ s.ring.Represents s.posted g.start ∧ InDrain s g k ∧
        g.inHandler = true ∧ f.inHandler = false ∧ f.head = s.ring.head ∧
        f.completions = 0 := by
  cases hc with
  | none hf' hr =>
    rw [hf] at hf'
    cases hf'
  | one f' k hf' hr hin =>
    obtain ⟨rfl, rfl⟩ := List.cons.inj (hf.symm.trans hf')
    exact .inl ⟨rfl, k, hr, hin⟩
  | nested f' g k hf' hr hin h₁ h₂ h₃ h₄ =>
    obtain ⟨rfl, rfl⟩ := List.cons.inj (hf.symm.trans hf')
    exact .inr ⟨g, k, rfl, hr, hin, h₁, h₂, h₃, h₄⟩

lemma of_single (hc : Calls s) (hf : s.frames = [f]) :
    ∃ k, s.ring.Represents s.posted f.start ∧ InDrain s f k := by
  rcases hc.of_cons hf with ⟨-, hone⟩ | ⟨g, k, hnil, -⟩
  · exact hone
  · cases hnil

/-- A handler runs in the outermost call when no nested call is under way. -/
lemma of_inHandler (hc : Calls s) (hf : s.frames = f :: fs) (hh : f.inHandler = true) :
    fs = [] ∧ ∃ k, s.ring.Represents s.posted f.start ∧ InDrain s f k := by
  rcases hc.of_cons hf with hone | ⟨g, k, -, -, -, -, hout, -⟩
  · exact hone
  · rw [hout] at hh
    cases hh

end Calls

structure DrainInv (s : DrainState m) : Prop where
  numbers : s.posted.map Completion.number = List.range s.posted.length
  handled : s.handled = s.posted.take s.handled.length
  calls : Calls s

namespace DrainInv
variable {s t : DrainState m}

protected lemma start : DrainInv (DrainState.start : DrainState m) where
  numbers := rfl
  handled := rfl
  calls := .none rfl Lib.RingBuffer.Represents.empty

lemma handled_le (h : DrainInv s) : s.handled.length ≤ s.posted.length := by
  have hlen := congrArg List.length h.handled
  rw [List.length_take] at hlen
  omega

/-- No two completions posted are the same. -/
lemma posted_nodup (h : DrainInv s) : s.posted.Nodup := by
  apply List.Nodup.of_map Completion.number
  rw [h.numbers]
  exact List.nodup_range

lemma handled_nodup (h : DrainInv s) : s.handled.Nodup := by
  rw [h.handled]
  exact (List.take_sublist _ _).nodup h.posted_nodup

/-- Handling the next completion. -/
lemma take_succ (h : DrainInv s) (hlt : s.handled.length < s.posted.length) :
    s.handled ++ [s.posted[s.handled.length]] = s.posted.take (s.handled.length + 1) := by
  rw [List.take_succ_eq_append_getElem hlt, ← h.handled]

lemma post (h : DrainInv s) (u : Option Addr) (res : ℤ) (hroom : s.ring.hasRoom = true) :
    DrainInv
      { s with
        ring := s.ring.push ⟨u, res, s.posted.length⟩
        posted := s.posted ++ [⟨u, res, s.posted.length⟩] } := by
  have hle := h.handled_le
  have hd {f : Frame} {k : ℕ} (hd : InDrain s f k) :
      InDrain { s with
        ring := s.ring.push ⟨u, res, s.posted.length⟩
        posted := s.posted ++ [⟨u, res, s.posted.length⟩] } f k := by
    refine { hd with seen_le := ?_ }
    rw [List.length_append]
    exact Nat.le_add_right_of_le hd.seen_le
  refine ⟨?_, ?_, ?_⟩
  · rw [List.map_append, h.numbers, List.length_append, List.length_singleton,
      List.range_succ]
    rfl
  · rw [List.take_append_of_le_length hle]
    exact h.handled
  · cases h.calls with
    | none hf hr => exact .none hf (hr.push hroom _)
    | one f k hf hr hin => exact .one f k hf (hr.push hroom _) (hd hin)
    | nested g f k hf hr hin h₁ h₂ h₃ h₄ =>
      exact .nested g f k hf (hr.push hroom _) (hd hin) h₁ h₂ h₃ h₄

lemma call (h : DrainInv s) (hh : ∀ f ∈ s.frames.head?, f.inHandler = true) :
    DrainInv { s with
      frames := ⟨s.ring.head, 0, s.ring.tail, false, s.handled.length, s.posted.length⟩ ::
        s.frames } := by
  refine ⟨h.numbers, h.handled, ?_⟩
  -- the new call is the outermost one, or nested in a handler; a nested call has no handler
  cases h.calls with
  | none hf hr =>
    refine .one _ 0 (congrArg _ hf) hr ⟨hr.head, rfl, rfl, hr.tail, h.handled_le, le_rfl⟩
  | one f k hf hr hin =>
    exact .nested _ f k (congrArg _ hf) hr { hin with } (hh f (by simp [hf])) rfl rfl rfl
  | nested g f k hf hr hin h₁ h₂ h₃ h₄ =>
    have hg := hh g (by simp [hf])
    rw [h₂] at hg
    cases hg

lemma reload (h : DrainInv s) {f : Frame} {fs : List Frame} (hf : s.frames = f :: fs) :
    DrainInv { s with
      frames := { f with tail := s.ring.tail, seen := s.posted.length } :: fs } := by
  refine ⟨h.numbers, h.handled, ?_⟩
  rcases h.calls.of_cons hf with ⟨rfl, k, hr, hin⟩ | ⟨g, k, rfl, hr, hin, h₁, h₂, h₃, h₄⟩
  · exact .one _ k rfl hr
      { hin with tail := hr.tail, le_seen := h.handled_le, seen_le := le_rfl }
  · exact .nested _ g k rfl hr { hin with } h₁ h₂ h₃ h₄

lemma walk (h : DrainInv s) {f : Frame} (hf : s.frames = [f]) (hh : f.inHandler = false)
    (hne : f.head ≠ f.tail) : DrainInv (s.walk f []) := by
  obtain ⟨k, hr, hin⟩ := h.calls.of_single hf
  obtain ⟨hlt, hseen, hget⟩ := hin.get_head hr hh hne
  have hlen : s.handled.length = f.start + k := by simpa [hh] using hin.handled
  have hlen' : (s.walk f []).handled.length = s.handled.length + 1 := List.length_append
  have htake : (s.walk f []).handled = s.posted.take (s.handled.length + 1) := by
    rw [← h.take_succ hlt, ← hget]
    rfl
  refine ⟨h.numbers, by rw [hlen', htake]; rfl, ?_⟩
  have hpast (g : Frame) (hg : g = { f with inHandler := true }) : InDrain (s.walk f []) g k := by
    subst hg
    refine ⟨hin.head, hin.completions, by rw [hlen', hlen]; rfl, hin.tail, ?_, hin.seen_le⟩
    rw [hlen']
    exact hseen
  -- an entry without user data has no handler to wait for
  by_cases hu : (s.ring.get f.head).userData.isSome = true
  · exact .one { f with inHandler := true } k (by simp [DrainState.walk, hu]) hr (hpast _ rfl)
  · refine .one f.next (k + 1) (by simp [DrainState.walk, hu]) hr ?_
    exact (hpast _ rfl).next (by rw [hlen', hlen])

lemma ret (h : DrainInv s) {f : Frame} {fs : List Frame} (hf : s.frames = f :: fs)
    (hh : f.inHandler = true) : DrainInv { s with frames := f.next :: fs } := by
  refine ⟨h.numbers, h.handled, ?_⟩
  obtain ⟨rfl, k, hr, hin⟩ := h.calls.of_inHandler hf hh
  have hlen : s.handled.length = f.start + k + 1 := by simpa [hh] using hin.handled
  exact .one f.next (k + 1) rfl hr { hin.next hlen with }

/-- The outermost call gives back what was handled. -/
lemma leave_one (h : DrainInv s) {f : Frame} {k : ℕ}
    (hr : s.ring.Represents s.posted f.start) (hd : InDrain s f k) (hh : f.inHandler = false) :
    (s.leave f []).ring.Represents s.posted s.handled.length := by
  have hlen : s.handled.length = f.start + k := by simpa [hh] using hd.handled
  have hle := h.handled_le
  -- `cq_advance` moves the head by what the call went past
  rw [DrainState.leave_eq, hd.completions, hlen]
  exact hr.advance (by omega)

lemma exit (h : DrainInv s) {f : Frame} {fs : List Frame} (hf : s.frames = f :: fs)
    (hh : f.inHandler = false) : DrainInv (s.leave f fs) := by
  refine ⟨h.numbers, h.handled, ?_⟩
  rcases h.calls.of_cons hf with ⟨rfl, k, hr, hin⟩ | ⟨g, k, rfl, hr, hin, h₁, h₂, h₃, h₄⟩
  · exact .none rfl (h.leave_one hr hin hh)
  · -- a nested call that has taken nothing gives nothing back
    have hsame : s.leave f [g] = { s with frames := [g] } := by
      rw [DrainState.leave, if_neg (by simpa using h₄)]
    rw [hsame]
    exact .one g k rfl hr { hin with }

end DrainInv

/-! ## Runs in which no nested call takes an entry -/

/-- No handler throws out of the loop, and only an outermost call takes an entry. -/
def Unnested (s : DrainState m) (act : DrainAction) (_ : DrainState m) : Prop :=
  match act with
  | .throw => False
  | .walk => s.frames.length = 1
  | _ => True

/-- Such steps keep the invariant. -/
theorem DrainInv.step {s t : DrainState m} (h : DrainInv s) {act : DrainAction}
    (hm : DrainMove s act t) (hu : Unnested s act t) : DrainInv t := by
  cases hm with
  | post hroom => exact h.post _ _ hroom
  | timedOut => exact h
  | failed hr ht =>
    refine ⟨h.numbers, h.handled, ?_⟩
    cases h.calls with
    | none hf hr => exact .none hf hr
    | one f k hf hr hin => exact .one f k hf hr { hin with }
    | nested g f k hf hr hin h₁ h₂ h₃ h₄ =>
      exact .nested g f k hf hr { hin with } h₁ h₂ h₃ h₄
  | call hh => exact h.call hh
  | reload hf hh => exact h.reload hf
  | @walk f fs hf hh hne =>
    -- only the outermost call takes an entry
    obtain rfl : fs = [] := by
      have hlen : s.frames.length = 1 := hu
      rw [hf, List.length_cons] at hlen
      exact List.length_eq_zero_iff.mp (by omega)
    exact h.walk hf hh hne
  | ret hf hh => exact h.ret hf hh
  | throw hf hh => exact hu.elim
  | exit hf hh heq => exact h.exit hf hh

/-! ## Handlers that neither throw nor drain -/

/-- No handler throws, and none calls `wait_for_events`. -/
def Calm (s : DrainState m) : DrainAction → Prop
  | .throw => False
  | .call _ => s.frames = []
  | _ => True

instance (s : DrainState m) (act : DrainAction) : Decidable (Calm s act) := by
  cases act <;> unfold Calm <;> infer_instance

/-- The drain under `Calm`. -/
def calmDrain (m : Fin 32) : Lib.System (DrainState m) DrainAction := (drain m).restrict Calm

/-- What the drain loop is to do, at one step. -/
structure DrainSafe (s : DrainState m) (act : DrainAction) (t : DrainState m) : Prop where
  /-- the entries handled are the first ones posted -/
  in_order : t.handled <+: t.posted
  /-- no entry is handled twice -/
  once : t.handled.Nodup
  /-- a call that times out consumes nothing -/
  timed_out : act = .call DrainState.eTime → t = s
  /-- nor does a call that throws on a wait error -/
  failed : ∀ r, act = .call r → r ≠ 0 → r ≠ DrainState.eTime →
    t = { s with thrown := s.thrown ++ [(r, "io_uring_wait_cqes")] }
  /-- a call whose wait succeeds enters the loop, from the head to the tail of the queue -/
  called : act = .call 0 → ∃ f, t.frames = [f] ∧ f.inHandler = false ∧ f.completions = 0 ∧
    f.head = s.ring.head ∧ f.tail = s.ring.tail ∧ f.start = s.handled.length ∧
    f.seen = s.posted.length ∧ t.handled = s.handled ∧ t.posted = s.posted ∧ t.ring = s.ring
  /-- reading the tail again takes the loop to all that is posted by then -/
  reloaded : act = .reload → ∃ f g, s.frames = [f] ∧ t.frames = [g] ∧ g.inHandler = false ∧
    g.head = f.head ∧ g.tail = s.ring.tail ∧ g.start = f.start ∧ g.seen = s.posted.length ∧
    t.handled = s.handled ∧ t.posted = s.posted ∧ t.ring = s.ring
  /-- a call ends with everything handled that was posted when it read the tail, and with
  the head at the first entry not handled -/
  exit : act = .exit → ∀ f ∈ s.frames, f.seen ≤ t.handled.length ∧
    t.ring.head = UInt32.ofNat t.handled.length ∧
    ∀ h : t.handled.length < t.posted.length, t.ring.get t.ring.head = t.posted[t.handled.length]
  /-- a turn of the loop handles one entry -/
  turn : act = .walk → t.handled.length = s.handled.length + 1
  /-- a call handles at most as many entries as the queue has -/
  bound : ∀ f ∈ t.frames, t.handled.length ≤ f.start + 2 ^ m.val
  /-- outside its handlers a call takes another entry or ends -/
  progress : ∀ f ∈ t.frames, f.inHandler = false →
    (drainStep t .walk).isSome ∨ (drainStep t .exit).isSome

/-- The invariant of `calmDrain`. -/
structure CalmInv (s : DrainState m) : Prop extends DrainInv s where
  frames : s.frames.length ≤ 1

namespace CalmInv
variable {s t : DrainState m}

protected lemma start : CalmInv (DrainState.start : DrainState m) :=
  ⟨DrainInv.start, Nat.zero_le _⟩

lemma single (h : CalmInv s) {f : Frame} {fs : List Frame} (hf : s.frames = f :: fs) :
    fs = [] := by
  have hle := h.frames
  rw [hf, List.length_cons] at hle
  exact List.length_eq_zero_iff.mp (by omega)

lemma frames_eq (h : CalmInv s) {f : Frame} (hf : f ∈ s.frames) : s.frames = [f] := by
  obtain ⟨g, fs, hfs⟩ := List.exists_cons_of_ne_nil (List.ne_nil_of_mem hf)
  obtain rfl := h.single hfs
  rw [hfs, List.mem_singleton] at hf
  rw [hfs, hf]

lemma unnested (h : CalmInv s) {act : DrainAction} (hm : DrainMove s act t) (hc : Calm s act) :
    Unnested s act t := by
  cases hm with
  | throw hf hh => exact hc
  | walk hf hh hne =>
    obtain rfl := h.single hf
    show s.frames.length = 1
    rw [hf, List.length_singleton]
  | _ => trivial

lemma step (h : CalmInv s) {act : DrainAction} (hm : DrainMove s act t) (hc : Calm s act) :
    CalmInv t := by
  refine ⟨h.toDrainInv.step hm (h.unnested hm hc), ?_⟩
  have hle := h.frames
  cases hm with
  | call hh =>
    have hnil : s.frames = [] := hc
    rw [hnil]
    exact Nat.le_refl 1
  | post | timedOut | failed => exact hle
  | reload hf hh | walk hf hh hne | ret hf hh =>
    rw [hf] at hle
    exact hle
  | throw hf hh => exact hc.elim
  | exit hf hh heq =>
    rw [hf, List.length_cons] at hle
    exact Nat.le_of_succ_le hle

lemma bound (h : CalmInv s) : ∀ f ∈ s.frames, s.handled.length ≤ f.start + 2 ^ m.val := by
  intro f hf
  obtain ⟨k, hr, hin⟩ := h.calls.of_single (h.frames_eq hf)
  calc s.handled.length
      ≤ f.seen := hin.le_seen
    _ ≤ s.posted.length := hin.seen_le
    _ ≤ f.start + 2 ^ m.val := hr.fits

lemma progress (h : CalmInv s) : ∀ f ∈ s.frames, f.inHandler = false →
    (drainStep s .walk).isSome ∨ (drainStep s .exit).isSome := by
  intro f hf hh
  have hfs := h.frames_eq hf
  by_cases heq : f.head = f.tail
  · right
    simp [drainStep, hfs, hh, heq]
  · left
    simp [drainStep, hfs, hh, heq]

lemma exit (h : CalmInv s) {f : Frame} (hf : s.frames = [f]) (hh : f.inHandler = false)
    (heq : f.head = f.tail) :
    f.seen ≤ s.handled.length ∧ (s.leave f []).ring.Represents s.posted s.handled.length := by
  obtain ⟨k, hr, hin⟩ := h.calls.of_single hf
  refine ⟨?_, h.leave_one hr hin hh⟩
  -- the loop ends where the local head meets the tail it read
  have hlen : s.handled.length = f.start + k := by simpa [hh] using hin.handled
  have hle := hin.le_seen
  rw [hin.head, hin.tail, hr.ofNat_inj (by omega) (by omega) hin.seen_le] at heq
  omega

lemma safe (h : CalmInv s) {act : DrainAction} (hm : DrainMove s act t) (hc : Calm s act)
    (ht : CalmInv t) : DrainSafe s act t where
  in_order := by
    rw [ht.handled]
    exact List.take_prefix _ _
  once := ht.handled_nodup
  timed_out hact := by
    cases hm with
    | timedOut => rfl
    | failed hr hne => exact absurd (DrainAction.call.inj hact) hne
    | call hh => cases hact
    | _ => cases hact
  failed r hact hr hne := by
    cases hm with
    | timedOut => exact absurd (DrainAction.call.inj hact).symm hne
    | failed hr' hne' =>
      obtain rfl := DrainAction.call.inj hact
      rfl
    | call hh => exact absurd (DrainAction.call.inj hact).symm hr
    | _ => cases hact
  called hact := by
    cases hm with
    | timedOut => cases hact
    | failed hr => exact absurd (DrainAction.call.inj hact) hr
    | call hh =>
      refine ⟨⟨s.ring.head, 0, s.ring.tail, false, s.handled.length, s.posted.length⟩, ?_, rfl, rfl,
        rfl, rfl, rfl, rfl, rfl, rfl, rfl⟩
      rw [show s.frames = [] from hc]
    | _ => cases hact
  reloaded hact := by
    cases hm with
    | @reload f fs hf hh =>
      obtain rfl := h.single hf
      exact ⟨f, _, hf, rfl, hh, rfl, rfl, rfl, rfl, rfl, rfl, rfl⟩
    | _ => cases hact
  exit hact f hf := by
    cases hm with
    | @exit f' fs hf' hh heq =>
      obtain rfl := h.single hf'
      obtain rfl : f = f' := by simpa [hf'] using hf
      obtain ⟨hseen, hr⟩ := h.exit hf' hh heq
      refine ⟨hseen, hr.head, fun hlt => ?_⟩
      rw [hr.head]
      exact hr.get_ofNat (Nat.le_refl _) hlt
    | _ => cases hact
  turn hact := by
    cases hm with
    | walk hf hh hne => exact List.length_append
    | _ => cases hact
  bound := ht.bound
  progress := ht.progress

end CalmInv

/-! ## A call, to its end -/

section

/-- A call that has read the tail past the entries `l` is under way. -/
structure Sees (s : DrainState m) (l : List Completion) : Prop where
  posted : l <+: s.posted
  frame : ∃ f, s.frames = [f] ∧ l.length ≤ f.seen

variable {s t : DrainState m} {l : List Completion}

/-- Until it ends, the call goes on to see them. -/
lemma Sees.step (h : Sees s l) {act : DrainAction} (hm : DrainMove s act t) (hc : Calm s act)
    (hexit : act ≠ .exit) : Sees t l := by
  obtain ⟨hposted, f, hf, hseen⟩ := h
  have hframe {g : Frame} {fs : List Frame} (hg : s.frames = g :: fs) : g = f ∧ fs = [] :=
    List.cons.inj (hg.symm.trans hf)
  cases hm with
  | post => exact ⟨hposted.trans (List.prefix_append _ _), f, hf, hseen⟩
  | timedOut | failed | call =>
    rw [show s.frames = [] from hc] at hf
    cases hf
  | reload hg =>
    obtain ⟨rfl, rfl⟩ := hframe hg
    exact ⟨hposted, _, rfl, hposted.length_le⟩
  | walk hg =>
    obtain ⟨rfl, rfl⟩ := hframe hg
    refine ⟨hposted, _, rfl, ?_⟩
    show l.length ≤ (if _ then _ else _ : Frame).seen
    split <;> exact hseen
  | ret hg =>
    obtain ⟨rfl, rfl⟩ := hframe hg
    exact ⟨hposted, _, rfl, hseen⟩
  | throw => exact hc.elim
  | exit => exact absurd rfl hexit

/-- When it ends, they are handled. -/
lemma CalmInv.sees_exit (h : CalmInv s) (hl : Sees s l) (hm : DrainMove s .exit t) :
    l <+: t.handled := by
  obtain ⟨hposted, f, hf, hseen⟩ := hl
  cases hm with
  | exit hg hh heq =>
    obtain ⟨rfl, rfl⟩ := List.cons.inj (hg.symm.trans hf)
    have hle := (h.exit hf hh heq).1
    have hhandled : s.handled <+: s.posted := by
      rw [h.handled]
      exact List.take_prefix _ _
    exact List.prefix_of_prefix_length_le hposted hhandled (Nat.le_trans hseen hle)

lemma CalmInv.sees_run (h : CalmInv s) (hl : Sees s l) {acts : List DrainAction}
    (hexit : .exit ∉ acts) (hrun : (calmDrain m).run s (acts ++ [.exit]) = some t) :
    l <+: t.handled := by
  induction acts generalizing s with
  | nil =>
    obtain ⟨u, hu, ht⟩ := Lib.System.run_cons_eq_some.mp hrun
    obtain rfl := Option.some.inj ht
    exact h.sees_exit hl (drainStep_move (Lib.System.restrict_step.mp hu).2)
  | cons act acts ih =>
    obtain ⟨u, hu, hrest⟩ := Lib.System.run_cons_eq_some.mp hrun
    obtain ⟨hc, hst⟩ := Lib.System.restrict_step.mp hu
    have hm := drainStep_move hst
    rw [List.mem_cons, not_or] at hexit
    exact ih (h.step hm hc) (hl.step hm hc fun heq => hexit.1 heq.symm) hexit.2 hrest

end

/-- The actions in which `wait_for_events` reads the tail. -/
def ReadsTail (act : DrainAction) : Prop := act = .call 0 ∨ act = .reload

/-- While no handler throws or drains, the completions are handled in the order they were
posted, each once, a call at a time, whatever the counters have wrapped to, and what was
posted when a call read the tail is handled when it ends. -/
theorem drain_in_order (m : Fin 32) (acts : List DrainAction) :
    (calmDrain m).Steps DrainSafe (calmDrain m).start acts ∧
      ∀ s act after t, (calmDrain m).run (calmDrain m).start acts = some s → ReadsTail act →
        .exit ∉ after → (calmDrain m).run s (act :: (after ++ [.exit])) = some t →
        s.posted <+: t.handled := by
  have hstep (s : DrainState m) (act : DrainAction) (t : DrainState m) (hs : CalmInv s)
      (hst : (calmDrain m).step s act = some t) : DrainSafe s act t ∧ CalmInv t := by
    obtain ⟨hc, hst⟩ := Lib.System.restrict_step.mp hst
    have hm := drainStep_move hst
    exact ⟨hs.safe hm hc (hs.step hm hc), hs.step hm hc⟩
  refine ⟨Lib.System.steps_of_inductive CalmInv hstep .start acts, ?_⟩
  intro s act after t hs hact hexit hrun
  have hinv : CalmInv s := Lib.System.invariant_of_run CalmInv
    (fun s act t hs hst => (hstep s act t hs hst).2) .start hs
  obtain ⟨u, hu, hrest⟩ := Lib.System.run_cons_eq_some.mp hrun
  obtain ⟨hsafe, hu'⟩ := hstep s act u hinv hu
  apply hu'.sees_run ?_ hexit hrest
  rcases hact with hact | hact
  · obtain ⟨f, hf, -, -, -, -, -, hseen, -, hposted, -⟩ := hsafe.called hact
    exact ⟨hposted ▸ List.prefix_rfl, f, hf, Nat.le_of_eq hseen.symm⟩
  · obtain ⟨-, f, -, hf, -, -, -, -, hseen, -, hposted, -⟩ := hsafe.reloaded hact
    exact ⟨hposted ▸ List.prefix_rfl, f, hf, Nat.le_of_eq hseen.symm⟩

/-- One completion before the call, and one while its handler runs. -/
theorem drain_in_order_two :
    ∃ t, (calmDrain 1).run (calmDrain 1).start
        [.post (some 1) 0, .call 0, .walk, .post (some 2) 0, .ret, .reload, .walk, .ret, .exit] =
          some t ∧
      [⟨some 1, 0, 0⟩, ⟨some 2, 0, 1⟩] <+: t.handled :=
  ⟨_, rfl, (drain_in_order 1 [.post (some 1) 0, .call 0, .walk, .post (some 2) 0, .ret]).2 _
    .reload [.walk, .ret] _ rfl (.inr rfl) (by decide) rfl⟩

/-! ## Handlers that throw or drain -/

/-- No entry is handled twice, and outside the calls the head is at the first entry not
handled. -/
def AtMostOnce (_ : DrainState m) (_ : DrainAction) (t : DrainState m) : Prop :=
  t.handled.Nodup ∧ (t.frames = [] → t.ring.head = UInt32.ofNat t.handled.length)

namespace DrainInv
variable {s t : DrainState m}

lemma atMostOnce (h : DrainInv t) (act : DrainAction) : AtMostOnce s act t :=
  ⟨h.handled_nodup, fun hnil => (h.calls.of_nil hnil).head⟩

/-- A handler that throws leaves the head before its entry. -/
lemma not_throw (h : DrainInv s) {f : Frame} {fs : List Frame} (hf : s.frames = f :: fs)
    (hh : f.inHandler = true) : ¬ AtMostOnce s .throw { s with frames := fs } := by
  rintro ⟨-, hhead⟩
  obtain ⟨rfl, k, hr, hin⟩ := h.calls.of_inHandler hf hh
  -- the entry being handled is not given back
  have hlen : s.handled.length = f.start + k + 1 := by simpa [hh] using hin.handled
  have heq := hr.head.symm.trans (hhead rfl)
  rw [hr.ofNat_inj (Nat.le_refl _) (by omega) h.handled_le] at heq
  omega

/-- A nested call takes the first entry of the enclosing one again. -/
lemma frames_of_walk (h : DrainInv s) {f : Frame} {fs : List Frame} (hf : s.frames = f :: fs)
    (hp : AtMostOnce s .walk (s.walk f fs)) : s.frames.length = 1 := by
  rcases h.calls.of_cons hf with ⟨rfl, -⟩ | ⟨g, k, rfl, hr, hin, h₁, h₂, h₃, h₄⟩
  · rw [hf, List.length_singleton]
  · exfalso
    have hlen : s.handled.length = g.start + k + 1 := by simpa [h₁] using hin.handled
    have hle := h.handled_le
    -- the shared head is still where the enclosing call began
    have hget : s.ring.get f.head = s.posted[g.start] := by
      rw [h₃, hr.head]
      exact hr.get_ofNat (Nat.le_refl _) (by omega)
    have hmem : s.ring.get f.head ∈ s.handled := by
      rw [hget, h.handled]
      exact List.mem_take_iff_getElem.mpr ⟨g.start, by omega, rfl⟩
    have hnodup : (s.handled ++ [s.ring.get f.head]).Nodup := hp.1
    exact (List.nodup_append.mp hnodup).2.2 _ hmem _ (List.mem_singleton_self _) rfl

lemma unnested (h : DrainInv s) {act : DrainAction} (hm : DrainMove s act t)
    (hp : AtMostOnce s act t) : Unnested s act t := by
  cases hm with
  | throw hf hh => exact (h.not_throw hf hh hp).elim
  | walk hf hh hne => exact h.frames_of_walk hf hp
  | _ => trivial

end DrainInv

/-- Every completion is handled at most once exactly when no handler throws out of the loop
and no nested call takes an entry. -/
theorem at_most_once_iff (m : Fin 32) (acts : List DrainAction) :
    (drain m).Steps Unnested (drain m).start acts ↔
      (drain m).Steps AtMostOnce (drain m).start acts := by
  refine Lib.System.steps_iff DrainInv ?_ DrainInv.start acts
  intro s act t hs hst
  have hm := drainStep_move hst
  exact ⟨⟨fun hu => (hs.step hm hu).atMostOnce act, hs.unnested hm⟩, hs.step hm⟩

/-- A handler that throws, and the next call. -/
def throwAndDrain : List DrainAction := [.post (some 1) 0, .call 0, .walk, .throw, .call 0]

/-- A handler that waits for more events. -/
def nestedDrain : List DrainAction := [.post (some 1) 0, .call 0, .walk, .call 0]

/-- In both runs the one completion is handled twice. -/
theorem handled_twice :
    (∃ s, (drain 11).run (drain 11).start (throwAndDrain ++ [.walk]) = some s ∧
      s.handled = [⟨some 1, 0, 0⟩, ⟨some 1, 0, 0⟩]) ∧
    (∃ s, (drain 11).run (drain 11).start (nestedDrain ++ [.walk]) = some s ∧
      s.handled = [⟨some 1, 0, 0⟩, ⟨some 1, 0, 0⟩]) ∧
    ¬ ∀ acts, (drain 11).Steps AtMostOnce (drain 11).start acts := by
  refine ⟨⟨_, rfl, rfl⟩, ⟨_, rfl, rfl⟩, fun h => ?_⟩
  have hp := (h (nestedDrain ++ [.walk])).of_run rfl rfl
  exact absurd hp.1 (by decide)

end Zsl.Iouring
