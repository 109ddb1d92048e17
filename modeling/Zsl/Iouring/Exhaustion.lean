import Zsl.Iouring.Socket
import Zsl.Iouring.SubmissionQueue

/-!
# The end of the submission queue

What a program does to the queue of one ring comes down to its `prepare` and `submit` calls:
its own, those of the awaitables of sockets and timers, and those of `close()`.

* `RingCall`, `ringQueue`: the two calls as a system;
* `ProgramCall.ringCalls`: the ring calls behind a call of the program;
* `Within`: no prepare comes while `q_depth_` entries are unsubmitted;
* `submission_queue_iff`: every prepare adds its entry, or fails and leaves the queue, exactly
  within that bound. Beyond it the null entry of liburing is used unchecked.
-/

namespace Zsl.Iouring
open Lib (System)

/-- A call of `ring_t`; `io_uring_submit` answers `r`. -/
inductive RingCall (ρ : Type) where
  | prepare (e : Addr) (f : ρ)
  | submit (r : ℤ)

/-- The queue of a ring over a run. -/
structure QueueState (ρ : Type) where
  sq : List (Sqe ρ)
  /-- the entries the kernel has taken, in order -/
  taken : List (Sqe ρ)
  /-- the exceptions that left a call -/
  thrown : List (ℤ × String)
  /-- a prep function was applied to a null entry -/
  nullSqe : Bool

variable {ρ : Type}

protected def QueueState.start : QueueState ρ := ⟨[], [], [], false⟩

/-- The state after `submit`. -/
def QueueState.submitted (s : QueueState ρ) (r : ℤ) : QueueState ρ :=
  { s with
    sq := (submit s.sq r).left
    taken := s.taken ++ (submit s.sq r).taken
    thrown := s.thrown ++ (submit s.sq r).thrown.toList }

/-- Nothing is said about a run that has used a null entry. -/
def ringCallStep (s : QueueState ρ) (call : RingCall ρ) : Option (QueueState ρ) :=
  if s.nullSqe then none else
  match call with
  | .prepare e f =>
    match prepare s.sq e f with
    | some sq => some { s with sq := sq }
    | none => some { s with nullSqe := true }
  | .submit r => some (s.submitted r)

/-- The queue of a ring under the calls of a program. -/
def ringQueue (ρ : Type) : System (QueueState ρ) (RingCall ρ) := ⟨.start, ringCallStep⟩

/-- A call of the program. -/
inductive ProgramCall (ρ : Type) where
  | prepare (e : Addr) (f : ρ)
  | submit (r : ℤ)
  /-- `submit()` of the awaitable of a socket or a timer -/
  | awaitable (e : Addr) (f : ρ) (r : ℤ)
  /-- `close()` of a socket with the descriptor `fd` -/
  | close (fd : ℤ) (r : ℤ)

/-- The calls of the ring behind it; `close()` prepares `cancel` with a static event. -/
def ProgramCall.ringCalls (cancel : ℤ → ρ) (ce : Addr) : ProgramCall ρ → List (RingCall ρ)
  | .prepare e f => [.prepare e f]
  | .submit r => [.submit r]
  | .awaitable e f r => [.prepare e f, .submit r]
  | .close fd r => if fd = invalidSocketFd then [] else [.prepare ce (cancel fd), .submit r]

/-! ## Prepares -/

/-- A prepare adds one entry with its event, or reports a failure and leaves the queue; a
submit neither loses nor duplicates an entry. -/
structure PrepareSafe (s : QueueState ρ) (call : RingCall ρ) (t : QueueState ρ) : Prop where
  notNull : t.nullSqe = false
  prepare : ∀ e f, call = .prepare e f → t.taken = s.taken ∧
    (t.sq = s.sq ++ [⟨f, e⟩] ∧ t.thrown = s.thrown ∨
      t.sq = s.sq ∧ t.thrown.length = s.thrown.length + 1)
  submit : ∀ r, call = .submit r → t.taken ++ t.sq = s.taken ++ s.sq

/-- With `n` entries unsubmitted before the calls, no prepare comes while `q_depth_` are. -/
def Within : ℕ → List (RingCall ρ) → Prop
  | _, [] => True
  | n, .prepare _ _ :: calls => n < qDepth ∧ Within (n + 1) calls
  | n, .submit r :: calls => Within (n - r.toNat) calls

lemma ringCallStep_prepare_of_free {s : QueueState ρ} (hs : s.nullSqe = false)
    (hfree : s.sq.length < qDepth) (e : Addr) (f : ρ) :
    ringCallStep s (.prepare e f) = some { s with sq := s.sq ++ [⟨f, e⟩] } := by
  have hsome : prepare s.sq e f = some (s.sq ++ [⟨f, e⟩]) :=
    prepare_eq_some.mpr ⟨decide_eq_true hfree, rfl⟩
  simp [ringCallStep, hs, hsome]

lemma ringCallStep_prepare_of_full {s : QueueState ρ} (hs : s.nullSqe = false)
    (hfull : ¬ s.sq.length < qDepth) (e : Addr) (f : ρ) :
    ringCallStep s (.prepare e f) = some { s with nullSqe := true } := by
  have hnone : prepare s.sq e f = none := prepare_eq_none.mpr (decide_eq_false hfull)
  simp [ringCallStep, hs, hnone]

lemma ringCallStep_submit {s : QueueState ρ} (hs : s.nullSqe = false) (r : ℤ) :
    ringCallStep s (.submit r) = some (s.submitted r) := by
  simp [ringCallStep, hs]

lemma prepareSafe_prepare {s : QueueState ρ} (hs : s.nullSqe = false) (e : Addr) (f : ρ) :
    PrepareSafe s (.prepare e f) { s with sq := s.sq ++ [⟨f, e⟩] } := by
  refine ⟨hs, fun e' f' heq => ?_, fun r heq => ?_⟩
  · obtain ⟨rfl, rfl⟩ := RingCall.prepare.inj heq
    exact ⟨rfl, Or.inl ⟨rfl, rfl⟩⟩
  · cases heq

lemma prepareSafe_submit {s : QueueState ρ} (hs : s.nullSqe = false) (r : ℤ) :
    PrepareSafe s (.submit r) (s.submitted r) := by
  refine ⟨hs, fun e f heq => ?_, fun r' heq => ?_⟩
  · cases heq
  · show (s.taken ++ (Zsl.Iouring.submit s.sq r).taken) ++ (Zsl.Iouring.submit s.sq r).left = _
    rw [List.append_assoc, taken_append_left]

/-- The bound decides every run, from any number of unsubmitted entries. -/
theorem steps_prepareSafe_iff {s : QueueState ρ} (hs : s.nullSqe = false)
    (calls : List (RingCall ρ)) :
    (ringQueue ρ).Steps PrepareSafe s calls ↔ Within s.sq.length calls := by
  induction calls generalizing s with
  | nil => exact Iff.rfl
  | cons call calls ih =>
    show (∀ t, ringCallStep s call = some t →
      PrepareSafe s call t ∧ (ringQueue ρ).Steps PrepareSafe t calls) ↔ _
    cases call with
    | prepare e f =>
      show _ ↔ s.sq.length < qDepth ∧ Within (s.sq.length + 1) calls
      by_cases hfree : s.sq.length < qDepth
      · rw [ringCallStep_prepare_of_free hs hfree]
        have hrest := ih (s := { s with sq := s.sq ++ [⟨f, e⟩] }) hs
        rw [List.length_append, List.length_singleton] at hrest
        constructor
        · intro h
          exact ⟨hfree, hrest.mp (h _ rfl).2⟩
        · intro h t ht
          obtain rfl := Option.some.inj ht
          exact ⟨prepareSafe_prepare hs e f, hrest.mpr h.2⟩
      · -- the entry is null, and used
        rw [ringCallStep_prepare_of_full hs hfree]
        refine iff_of_false (fun h => ?_) (fun h => hfree h.1)
        have hnull := (h _ rfl).1.notNull
        cases hnull
    | submit r =>
      show _ ↔ Within (s.sq.length - r.toNat) calls
      rw [ringCallStep_submit hs]
      have hrest := ih (s := s.submitted r) hs
      have hlen : (s.submitted r).sq.length = s.sq.length - r.toNat := List.length_drop
      rw [hlen] at hrest
      constructor
      · intro h
        exact hrest.mp (h _ rfl).2
      · intro h t ht
        obtain rfl := Option.some.inj ht
        exact ⟨prepareSafe_submit hs r, hrest.mpr h⟩

/-- **Submission queue exhaustion.** Along the calls of a program every prepare adds its entry
or fails without an effect exactly when no prepare comes while `q_depth_` of the entries
prepared before it are not yet consumed by a submit. -/
theorem submission_queue_iff (cancel : ℤ → ρ) (ce : Addr) (calls : List (ProgramCall ρ)) :
    (ringQueue ρ).Steps PrepareSafe (ringQueue ρ).start
        (calls.flatMap (ProgramCall.ringCalls cancel ce)) ↔
      Within 0 (calls.flatMap (ProgramCall.ringCalls cancel ce)) :=
  steps_prepareSafe_iff rfl _

lemma within_replicate {e : Addr} {f : ρ} {n m : ℕ} (hm : m ≠ 0)
    (h : Within n (List.replicate m (.prepare e f))) : n + m ≤ qDepth := by
  induction m generalizing n with
  | zero => exact absurd rfl hm
  | succ m ih =>
    obtain ⟨hn, hrest⟩ := h
    rcases Nat.eq_zero_or_pos m with rfl | hpos
    · omega
    · have hle := ih (Nat.pos_iff_ne_zero.mp hpos) hrest
      omega

/-- The prepare after 1024 unsubmitted ones. -/
theorem prepare_uses_null_entry :
    ¬ (ringQueue Unit).Steps PrepareSafe (ringQueue Unit).start
      ((List.replicate 1025 (.prepare 0 ())).flatMap
        (ProgramCall.ringCalls (fun _ => ()) 1)) := by
  intro h
  have hcalls : (List.replicate 1025 (.prepare 0 ())).flatMap
      (ProgramCall.ringCalls (fun _ => ()) 1) = List.replicate 1025 (.prepare 0 ()) := by
    rw [List.flatMap_replicate]
    exact List.flatten_replicate_singleton
  rw [hcalls] at h
  have hle := within_replicate (by decide) ((steps_prepareSafe_iff rfl _).mp h)
  exact absurd hle (by decide)

/-- Awaitables whose submits consume their entries never reach the bound. -/
theorem within_awaitables {n : ℕ} (hn : n < qDepth) (cancel : ℤ → ρ) (ce : Addr)
    (calls : List (Addr × ρ)) :
    Within n ((calls.map fun c => .awaitable c.1 c.2 1).flatMap
      (ProgramCall.ringCalls cancel ce)) := by
  induction calls with
  | nil => trivial
  | cons c calls ih => exact ⟨hn, ih⟩

end Zsl.Iouring
