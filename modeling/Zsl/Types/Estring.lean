import Zsl.Lib.Bytes
import Mathlib.Tactic.SplitIfs

/-!
# `estring_t`: length-bounded strings in place

The storage of an `estring_t < MIN_LEN, MAX_LEN >` is an array of `STORAGE_SIZE`
bytes. Byte `MAX_LEN` holds the remaining capacity, so that it doubles as the
terminator of a string of full length. `init` is translated write by write, each
one checked against the end of the array; `spaceship` is the `operator <=>` of two
instantiations, with its integer path through `repr`.
-/

namespace Zsl.Types
open Zsl.Lib.Bytes

/-- The template parameters `MIN_LEN` and `MAX_LEN`, with their `static_assert`s. -/
structure Bounds where
  minLen : ℕ
  maxLen : ℕ
  min_le_max : minLen ≤ maxLen
  max_lt : maxLen < 64

/-- `STORAGE_SIZE`, by capacity range. -/
def storageSize (maxLen : ℕ) : ℕ :=
  if maxLen < 4 then 4
  else if maxLen < 8 then 8
  else if maxLen < 16 then 16
  else (maxLen + 8) / 8 * 8

/-- `storage_t`. -/
abbrev Storage (maxLen : ℕ) : Type := Vector UInt8 (storageSize maxLen)

/-- How `init` fails: the exception it throws, or a write past the end of the array. -/
inductive Fault where
  | runtimeError (what : String)
  | outOfBounds (index : ℕ)
deriving DecidableEq, Repr

/-! ## Construction -/

/-- `v[i] = b`. -/
def write {maxLen : ℕ} (v : Storage maxLen) (i : ℕ) (b : UInt8) :
    Except Fault (Storage maxLen) :=
  if h : i < storageSize maxLen then .ok (v.set i b h) else .error (.outOfBounds i)

/-- `std::copy` of a string to the storage, from index `i` on. -/
def copy {maxLen : ℕ} (v : Storage maxLen) (i : ℕ) : List UInt8 → Except Fault (Storage maxLen)
  | [] => .ok v
  | b :: s => do
    let v ← write v i b
    copy v (i + 1) s

/-- `estring_t::init`. -/
def init (p : Bounds) (s : List UInt8) : Except Fault (Storage p.maxLen) :=
  if s.length < p.minLen then
    .error (.runtimeError "initializing with string shorter than MIN_LEN")
  else if s.length > p.maxLen then
    .error (.runtimeError "initializing with string longer than MAX_LEN")
  else do
    let v ← copy (Vector.replicate _ 0) 0 s
    let v ← write v s.length 0
    write v p.maxLen (UInt8.ofNat (p.maxLen - s.length))

/-- An `estring_t`: its constructor is the only source of values. -/
structure Estring (p : Bounds) where
  v : Storage p.maxLen
  made : ∃ s, init p s = .ok v

/-- `estring_t(std::string_view)`. -/
def Estring.ofStringView (p : Bounds) (s : List UInt8) : Except Fault (Estring p) :=
  match h : init p s with
  | .ok v => .ok ⟨v, s, h⟩
  | .error e => .error e

/-! ## Access -/

lemma maxLen_lt_storageSize (maxLen : ℕ) : maxLen < storageSize maxLen := by
  unfold storageSize
  split_ifs <;> omega

/-- The conversion of a (signed) `char` to `std::size_t`. -/
def charToSize (b : UInt8) : ℕ := if b.toNat < 128 then b.toNat else 2 ^ 64 - 256 + b.toNat

namespace Estring
variable {p q : Bounds}

/-- `remaining_capacity()`. -/
def remainingCapacity (e : Estring p) : ℕ :=
  charToSize e.v[(⟨p.maxLen, maxLen_lt_storageSize p.maxLen⟩ : Fin (storageSize p.maxLen))]

/-- `length()`, a difference of `std::size_t`. -/
def length (e : Estring p) : ℕ := (p.maxLen + 2 ^ 64 - e.remainingCapacity) % 2 ^ 64

/-- `size()`. -/
def size (e : Estring p) : ℕ := e.length

/-- The bytes `c_str()` points at. -/
def cStr (e : Estring p) : List UInt8 := e.v.toList

/-- `operator std::string_view`: `length()` bytes from `c_str()` on. -/
def toStringView (e : Estring p) : List UInt8 := e.cStr.take e.length

/-- `repr()` below capacity 16: the whole storage, byte-swapped, as an `int32_t`, an
`int64_t` or an `__int128_t`. -/
def intRepr (e : Estring p) : ℤ :=
  if p.maxLen < 4 then (byteswap 4 (bitCast 4 e.v.toList)).toInt
  else if p.maxLen < 8 then (byteswap 8 (bitCast 8 e.v.toList)).toInt
  else (byteswap 16 (bitCast 16 e.v.toList)).toInt

/-- `repr()`: an integer below capacity 16, the string from there on. -/
def repr (e : Estring p) : ℤ ⊕ List UInt8 :=
  if p.maxLen < 16 then .inl e.intRepr else .inr e.toStringView

/-- `operator <=>` of two instantiations. In the last branch both capacities are the
same and below 16, so that `repr()` is the integer on both sides. -/
def spaceship (lhs : Estring p) (rhs : Estring q) : Ordering :=
  if p.maxLen ≥ 16 ∨ q.maxLen ≥ 16 ∨ p.maxLen ≠ q.maxLen then
    compare lhs.toStringView rhs.toStringView
  else
    compare lhs.intRepr rhs.intRepr

end Estring

end Zsl.Types
