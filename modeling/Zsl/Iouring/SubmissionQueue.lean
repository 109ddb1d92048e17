import Mathlib.Data.Int.Basic
import Mathlib.Data.List.Basic

/-!
# The submission queue of a ring

`ring_t::prepare` takes a free entry from liburing, lets the prep function of the request
fill it in and sets the event as its user data; `ring_t::submit` hands the queue over to
the kernel. Preparing and submitting are two calls, and the queue keeps what a submit did
not consume.
-/

namespace Zsl.Iouring

/-- The address of an `event_t`. -/
abbrev Addr : Type := ℕ

/-- A submission entry: the request its prep function wrote, and its user data. -/
structure Sqe (ρ : Type) where
  request : ρ
  userData : Addr
deriving DecidableEq, Repr

/-- `q_depth_`. -/
def qDepth : ℕ := 1024

/-- `io_uring_get_sqe` finds no free entry when `q_depth_` entries are unsubmitted. -/
def hasFreeSqe {ρ : Type} (sq : List (Sqe ρ)) : Bool := sq.length < qDepth

/-- `impl_t::prepare`. The entry is used unchecked: with none free, the prep function and
`io_uring_sqe_set_data` are applied to a null entry, here `none`. -/
def prepare {ρ : Type} (sq : List (Sqe ρ)) (e : Addr) (f : ρ) : Option (List (Sqe ρ)) :=
  if hasFreeSqe sq then some (sq ++ [⟨f, e⟩]) else none

/-- What a call of `io_uring_submit` did: the entries the kernel took, the entries left in
the queue, and the code and text of the `std::system_error` that `impl_t::submit` throws. -/
structure Submitted (ρ : Type) where
  taken : List (Sqe ρ)
  left : List (Sqe ρ)
  thrown : Option (ℤ × String)
deriving DecidableEq, Repr

/-- `impl_t::submit`, where `io_uring_submit` answers `r`: a positive answer is the number
of entries consumed, any other consumes none and is thrown. -/
def submit {ρ : Type} (sq : List (Sqe ρ)) (r : ℤ) : Submitted ρ where
  taken := sq.take r.toNat
  left := sq.drop r.toNat
  thrown := if r ≤ 0 then some (r, "io_uring_submit") else none

variable {ρ : Type}

lemma prepare_eq_some {sq sq' : List (Sqe ρ)} {e : Addr} {f : ρ} :
    prepare sq e f = some sq' ↔ hasFreeSqe sq = true ∧ sq' = sq ++ [⟨f, e⟩] := by
  unfold prepare
  split
  · next h => simp [h, eq_comm]
  · next h => simp [h]

lemma prepare_eq_none {sq : List (Sqe ρ)} {e : Addr} {f : ρ} :
    prepare sq e f = none ↔ hasFreeSqe sq = false := by
  unfold prepare
  split
  · next h => simp [h]
  · next h => simpa using h

/-- A submit neither loses nor duplicates an entry. -/
lemma taken_append_left (sq : List (Sqe ρ)) (r : ℤ) :
    (submit sq r).taken ++ (submit sq r).left = sq := List.take_append_drop _ _

/-- A submit takes a new entry only with the whole queue before it. -/
lemma mem_taken_append_singleton {sq : List (Sqe ρ)} {e x : Sqe ρ} {r : ℤ}
    (hr : r ≤ sq.length) (he : e ∈ (submit (sq ++ [x]) r).taken) : e ∈ sq := by
  -- the new entry is the last one, so the kernel stops before it
  have htake : (submit (sq ++ [x]) r).taken = sq.take r.toNat :=
    List.take_append_of_le_length (by omega)
  exact List.mem_of_mem_take (htake ▸ he)

lemma taken_append_singleton (sq : List (Sqe ρ)) (x : Sqe ρ) {r : ℤ}
    (hr : r = sq.length + 1) : (submit (sq ++ [x]) r).taken = sq ++ [x] := by
  apply List.take_of_length_le
  rw [List.length_append, List.length_singleton]
  omega

end Zsl.Iouring
