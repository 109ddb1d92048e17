import Zsl.Types.Estring
import Mathlib.Data.List.GetD

/-!
# The representation of `estring_t`

* `init_of_admissible`: the bytes `init` leaves behind for an admissible string, with
  `init_eq_error_iff` for the others;
* `Estring.length_eq` / `Estring.toStringView_eq`: the observers read the string back;
* `estring_representation`: the whole representation, byte for byte.
-/

namespace Zsl.Types
open Zsl.Lib.Bytes

/-- The lengths the constructor accepts. -/
def Bounds.Admits (p : Bounds) (s : List UInt8) : Prop :=
  p.minLen ≤ s.length ∧ s.length ≤ p.maxLen

/-- Byte `j` of the storage that holds `s`. -/
def layoutByte (p : Bounds) (s : List UInt8) (j : ℕ) : UInt8 :=
  if j = p.maxLen then UInt8.ofNat (p.maxLen - s.length) else s.getD j 0

/-! ## Writes -/

lemma write_of_lt {maxLen : ℕ} (v : Storage maxLen) {i : ℕ} (b : UInt8)
    (h : i < storageSize maxLen) : write v i b = .ok (v.set i b h) := by
  rw [write, dif_pos h]

/-- `copy` of a string that fits stays inside the array, and changes its own range. -/
lemma copy_of_le {maxLen : ℕ} (s : List UInt8) (v : Storage maxLen) (i : ℕ)
    (h : i + s.length ≤ storageSize maxLen) :
    ∃ v', copy v i s = .ok v' ∧ ∀ j (hj : j < storageSize maxLen),
      v'[j] = if i ≤ j ∧ j < i + s.length then s.getD (j - i) 0 else v[j] := by
  induction s generalizing v i with
  | nil =>
    refine ⟨v, rfl, fun j hj => ?_⟩
    rw [if_neg (by simp)]
  | cons b s ih =>
    simp only [List.length_cons] at h
    obtain ⟨v', hcopy, hget⟩ := ih (v.set i b (by omega)) (i + 1) (by omega)
    refine ⟨v', ?_, fun j hj => ?_⟩
    · rw [copy, write_of_lt v b (by omega)]
      exact hcopy
    · rw [hget j hj, Vector.getElem_set]
      -- before, at, and behind the byte written first
      rcases Nat.lt_trichotomy j i with hji | rfl | hij
      · rw [if_neg (by omega), if_neg (by omega), if_neg (by simp; omega)]
      · rw [if_neg (by omega), if_pos rfl, if_pos (by simp)]
        simp
      · obtain ⟨d, rfl⟩ : ∃ d, j = i + 1 + d := ⟨j - (i + 1), by omega⟩
        have hd : i + 1 + d - i = d + 1 := by omega
        rw [Nat.add_sub_cancel_left, hd, List.getD_cons_succ, if_neg (show i ≠ i + 1 + d by omega)]
        by_cases hin : d < s.length
        · rw [if_pos (by omega), if_pos (by simp; omega)]
        · rw [if_neg (by omega), if_neg (by simp; omega)]

/-! ## Construction -/

/-- An admissible string is stored, and every byte of the storage is determined. -/
theorem init_of_admissible {p : Bounds} {s : List UInt8} (h : p.Admits s) :
    ∃ v, init p s = .ok v ∧ ∀ j (hj : j < storageSize p.maxLen), v[j] = layoutByte p s j := by
  have hmax := maxLen_lt_storageSize p.maxLen
  obtain ⟨hmin, hle⟩ := h
  obtain ⟨v, hcopy, hget⟩ := copy_of_le s (Vector.replicate (storageSize p.maxLen) 0) 0 (by omega)
  -- the terminator is written first, the capacity byte last
  refine ⟨(v.set s.length 0 (by omega)).set p.maxLen (UInt8.ofNat (p.maxLen - s.length)) hmax,
    ?_, fun j hj => ?_⟩
  · rw [init, if_neg (by omega), if_neg (by omega), hcopy]
    show (write v s.length 0 >>= _) = _
    rw [write_of_lt v 0 (by omega)]
    exact write_of_lt _ _ hmax
  · rw [Vector.getElem_set, Vector.getElem_set, hget j hj, layoutByte]
    -- at full length the capacity byte overwrites the terminator
    by_cases hj1 : j = p.maxLen
    · rw [if_pos hj1.symm, if_pos hj1]
    rw [if_neg (Ne.symm hj1), if_neg hj1, Nat.sub_zero, Vector.getElem_replicate]
    by_cases hj2 : j < s.length
    · rw [if_neg (by omega), if_pos (by omega)]
    · rw [List.getD_eq_default _ _ (by omega), if_neg (show ¬(0 ≤ j ∧ j < 0 + s.length) by omega),
        ite_self]

/-- The constructor throws on the other lengths, and never writes out of bounds. -/
theorem init_eq_error_iff (p : Bounds) (s : List UInt8) :
    (∃ what, init p s = .error (.runtimeError what)) ↔ ¬ p.Admits s := by
  constructor
  · rintro ⟨what, h⟩ hadm
    obtain ⟨v, hv, -⟩ := init_of_admissible hadm
    rw [hv] at h
    exact absurd h (by simp)
  · intro h
    -- `init` checks the lower bound first
    by_cases hmin : s.length < p.minLen
    · exact ⟨_, by rw [init, if_pos hmin]⟩
    · have hmax : p.maxLen < s.length := by
        by_contra hle
        exact h ⟨Nat.le_of_not_lt hmin, Nat.le_of_not_lt hle⟩
      exact ⟨_, by rw [init, if_neg hmin, if_pos hmax]⟩

theorem init_ne_outOfBounds (p : Bounds) (s : List UInt8) (i : ℕ) :
    init p s ≠ .error (.outOfBounds i) := by
  intro h
  by_cases hadm : p.Admits s
  · obtain ⟨v, hv, -⟩ := init_of_admissible hadm
    rw [hv] at h
    exact absurd h (by simp)
  · obtain ⟨what, hw⟩ := (init_eq_error_iff p s).mpr hadm
    rw [hw] at h
    exact absurd h (by simp)

namespace Estring
variable {p : Bounds} {s : List UInt8} {e : Estring p}

lemma ofStringView_eq_ok (h : ofStringView p s = .ok e) : init p s = .ok e.v := by
  unfold ofStringView at h
  split at h
  · cases h
    assumption
  · exact absurd h (by simp)

lemma ofStringView_eq_error {f : Fault} :
    ofStringView p s = .error f ↔ init p s = .error f := by
  unfold ofStringView
  split <;> rename_i h <;> simp [h]

lemma admits_of_ok (h : ofStringView p s = .ok e) : p.Admits s := by
  by_contra hadm
  obtain ⟨what, hw⟩ := (init_eq_error_iff p s).mpr hadm
  rw [ofStringView_eq_ok h] at hw
  exact absurd hw (by simp)

/-- The storage of a constructed estring, byte by byte. -/
theorem getElem_v (h : ofStringView p s = .ok e) (j : ℕ) (hj : j < storageSize p.maxLen) :
    e.v[j] = layoutByte p s j := by
  obtain ⟨v, hv, hget⟩ := init_of_admissible (admits_of_ok h)
  have hve : v = e.v := by
    have := hv.symm.trans (ofStringView_eq_ok h)
    simpa using this
  rw [← hve]
  exact hget j hj

lemma getElem?_cStr (h : ofStringView p s = .ok e) {j : ℕ} (hj : j < storageSize p.maxLen) :
    e.cStr[j]? = some (layoutByte p s j) := by
  rw [cStr, List.getElem?_eq_getElem (by simpa using hj), Vector.getElem_toList, getElem_v h]

/-- An admissible string is the value of some estring. -/
theorem exists_of_admits (h : p.Admits s) : ∃ e : Estring p, ofStringView p s = .ok e := by
  cases hf : ofStringView p s with
  | ok e => exact ⟨e, rfl⟩
  | error f =>
    obtain ⟨v, hv, -⟩ := init_of_admissible h
    rw [ofStringView_eq_error.mp hf] at hv
    exact absurd hv (by simp)

/-- Every estring holds a string. -/
theorem exists_ofStringView (e : Estring p) : ∃ s, ofStringView p s = .ok e := by
  obtain ⟨s, hinit⟩ := e.made
  cases hf : ofStringView p s with
  | ok e' =>
    have hv : e'.v = e.v := Except.ok.inj ((ofStringView_eq_ok hf).symm.trans hinit)
    refine ⟨s, ?_⟩
    obtain ⟨v, hmade⟩ := e
    obtain ⟨v', hmade'⟩ := e'
    obtain rfl : v' = v := hv
    exact hf
  | error f =>
    rw [ofStringView_eq_error.mp hf] at hinit
    cases hinit

/-! ## Observers -/

theorem remainingCapacity_eq (h : ofStringView p s = .ok e) :
    e.remainingCapacity = p.maxLen - s.length := by
  have hmax := p.max_lt
  -- a capacity is below 64: the byte holds it, and its `char` is not negative
  have hcap : (UInt8.ofNat (p.maxLen - s.length)).toNat = p.maxLen - s.length := by
    rw [UInt8.toNat_ofNat', Nat.mod_eq_of_lt (by omega)]
  rw [remainingCapacity, Fin.getElem_fin, getElem_v h, layoutByte, if_pos rfl, charToSize, hcap,
    if_pos (by omega)]

theorem length_eq (h : ofStringView p s = .ok e) : e.length = s.length := by
  have hle := (admits_of_ok h).2
  have hmax := p.max_lt
  rw [length, remainingCapacity_eq h]
  omega

theorem toStringView_eq (h : ofStringView p s = .ok e) : e.toStringView = s := by
  have hle := (admits_of_ok h).2
  have hsize := maxLen_lt_storageSize p.maxLen
  rw [toStringView, length_eq h, cStr]
  -- a string of at most `MAX_LEN` bytes ends before the capacity byte
  apply List.ext_getElem
  · rw [List.length_take, Vector.length_toList]
    omega
  · intro j hj hj'
    rw [List.getElem_take, Vector.getElem_toList, getElem_v h, layoutByte, if_neg (by omega),
      List.getD_eq_getElem _ _ hj']

/-- Identical storage holds identical strings. -/
theorem v_inj {t : List UInt8} {e' : Estring p} (h : ofStringView p s = .ok e)
    (h' : ofStringView p t = .ok e') : e.v = e'.v ↔ s = t := by
  constructor
  · intro hv
    have he : e = e' := by
      cases e; cases e'
      simpa using hv
    rw [← toStringView_eq h, ← toStringView_eq h', he]
  · intro hst
    subst hst
    have hok := (ofStringView_eq_ok h).symm.trans (ofStringView_eq_ok h')
    simpa using hok

end Estring

/-- **Representation.** Construction throws exactly on the lengths outside the bounds and
never writes past the storage; otherwise the string is held byte for byte, followed by a
NUL, zeros, and the remaining capacity at index `MAX_LEN`, and it alone determines the
storage. -/
theorem estring_representation (p : Bounds) (s : List UInt8) :
    ((∃ what, Estring.ofStringView p s = .error (.runtimeError what)) ↔
      s.length < p.minLen ∨ p.maxLen < s.length) ∧
    (∀ i, Estring.ofStringView p s ≠ .error (.outOfBounds i)) ∧
    ∀ e, Estring.ofStringView p s = .ok e →
      e.length = s.length ∧ e.size = s.length ∧ e.toStringView = s ∧
      e.cStr[s.length]? = some 0 ∧
      e.cStr[p.maxLen]? = some (UInt8.ofNat (p.maxLen - s.length)) ∧
      (∀ j, s.length ≤ j → j ≠ p.maxLen → j < storageSize p.maxLen → e.cStr[j]? = some 0) ∧
      ∀ t e', Estring.ofStringView p t = .ok e' → (e.v = e'.v ↔ s = t) := by
  have hsize := maxLen_lt_storageSize p.maxLen
  refine ⟨?_, fun i h => ?_, fun e h => ?_⟩
  · simp only [Estring.ofStringView_eq_error]
    rw [init_eq_error_iff, Bounds.Admits]
    omega
  · exact init_ne_outOfBounds p s i (Estring.ofStringView_eq_error.mp h)
  · have hle := (Estring.admits_of_ok h).2
    have hzero : ∀ j, s.length ≤ j → j ≠ p.maxLen → j < storageSize p.maxLen →
        e.cStr[j]? = some 0 := by
      intro j hj hne hlt
      rw [Estring.getElem?_cStr h hlt, layoutByte, if_neg hne, List.getD_eq_default _ _ hj]
    refine ⟨Estring.length_eq h, Estring.length_eq h, Estring.toStringView_eq h, ?_, ?_, hzero,
      fun t e' h' => Estring.v_inj h h'⟩
    · -- the terminator is the capacity byte itself when the string is full
      by_cases hfull : s.length = p.maxLen
      · rw [Estring.getElem?_cStr h (by omega), layoutByte, if_pos hfull, hfull, Nat.sub_self]
        rfl
      · exact hzero _ (Nat.le_refl _) hfull (by omega)
    · rw [Estring.getElem?_cStr h hsize, layoutByte, if_pos rfl]

/-- A two-byte string with an embedded NUL in a storage of capacity three. -/
theorem estring_representation_embedded_nul :
    ∃ e : Estring ⟨1, 3, by decide, by decide⟩, Estring.ofStringView _ [0, 200] = .ok e ∧
      e.toStringView = [0, 200] ∧ e.cStr[3]? = some 1 := by
  obtain ⟨e, he⟩ := Estring.exists_of_admits (p := ⟨1, 3, by decide, by decide⟩) (s := [0, 200])
    ⟨by decide, by decide⟩
  have h := (estring_representation ⟨1, 3, by decide, by decide⟩ [0, 200]).2.2 e he
  exact ⟨e, he, h.2.2.1, h.2.2.2.2.1⟩

end Zsl.Types
