import Zsl.Types.EstringOrder

/-!
# Sorting estrings

`operator <=>` is an order among estrings of one capacity; between capacities it is another one,
and the two do not fit together.

* `spaceship_linear`: one capacity, with any minimal lengths, is ordered linearly;
* `spaceship_cycle_iff`: the pairs of capacities with three estrings that are ordered in a
  circle.
-/

namespace Zsl.Types
open Zsl.Lib.Bytes

namespace Estring
variable {p q r : Bounds}

/-- Below capacity 16 the order is that of the integers, from there on that of the strings. -/
lemma spaceship_of_eq (hpq : p.maxLen = q.maxLen) (e : Estring p) (f : Estring q) :
    e.spaceship f = if p.maxLen < 16 then compare e.intRepr f.intRepr
      else compare e.toStringView f.toStringView := by
  unfold spaceship
  split
  · next h =>
    rw [if_neg (by omega)]
  · next h =>
    rw [if_pos (by omega)]

lemma spaceship_of_ne (hpq : p.maxLen ≠ q.maxLen) (e : Estring p) (f : Estring q) :
    e.spaceship f = compare e.toStringView f.toStringView :=
  if_pos (.inr (.inr hpq))

lemma spaceship_swap (hpq : p.maxLen = q.maxLen) (e : Estring p) (f : Estring q) :
    f.spaceship e = (e.spaceship f).swap := by
  rw [spaceship_of_eq hpq, spaceship_of_eq hpq.symm, ← hpq]
  split
  · exact Std.OrientedOrd.eq_swap
  · exact Std.OrientedOrd.eq_swap

lemma spaceship_eq_eq_iff (hpq : p.maxLen = q.maxLen) (e : Estring p) (f : Estring q) :
    e.spaceship f = .eq ↔ e.toStringView = f.toStringView := by
  obtain ⟨s, he⟩ := e.exists_ofStringView
  obtain ⟨t, hf⟩ := f.exists_ofStringView
  rw [spaceship_of_eq hpq]
  split
  · next h16 => rw [compare_intRepr_eq_eq_iff he hf hpq h16, toStringView_eq he, toStringView_eq hf]
  · exact Std.LawfulEqOrd.compare_eq_iff_eq

lemma spaceship_isLE_trans (hpq : p.maxLen = q.maxLen) (hqr : q.maxLen = r.maxLen)
    {e : Estring p} {f : Estring q} {g : Estring r} (hef : (e.spaceship f).isLE)
    (hfg : (f.spaceship g).isLE) : (e.spaceship g).isLE := by
  rw [spaceship_of_eq hpq] at hef
  rw [spaceship_of_eq hqr, ← hpq] at hfg
  rw [spaceship_of_eq (hpq.trans hqr)]
  by_cases h16 : p.maxLen < 16
  · rw [if_pos h16] at hef hfg ⊢
    exact Std.TransOrd.isLE_trans hef hfg
  · rw [if_neg h16] at hef hfg ⊢
    exact Std.TransOrd.isLE_trans hef hfg

/-- Among estrings of one capacity `operator <=>` is a linear order, and only the same string is
equivalent. -/
theorem spaceship_linear (hpq : p.maxLen = q.maxLen) (hqr : q.maxLen = r.maxLen)
    (e : Estring p) (f : Estring q) (g : Estring r) :
    f.spaceship e = (e.spaceship f).swap ∧
      (e.spaceship f = .eq ↔ e.toStringView = f.toStringView) ∧
      ((e.spaceship f).isLE → (f.spaceship g).isLE → (e.spaceship g).isLE) :=
  ⟨spaceship_swap hpq e f, spaceship_eq_eq_iff hpq e f, spaceship_isLE_trans hpq hqr⟩

/-- `"b"`, `"a"` and `"ab"` in capacity 3. -/
theorem spaceship_linear_letters :
    ∃ e f g : Estring ⟨0, 3, by decide, by decide⟩,
      (ofStringView _ [98] = .ok e ∧ ofStringView _ [97] = .ok f ∧
        ofStringView _ [97, 98] = .ok g) ∧
      f.spaceship e = (e.spaceship f).swap ∧
      (e.spaceship f = .eq ↔ e.toStringView = f.toStringView) ∧
      ((e.spaceship f).isLE → (f.spaceship g).isLE → (e.spaceship g).isLE) := by
  obtain ⟨e, he⟩ := exists_of_admits (p := ⟨0, 3, by decide, by decide⟩)
    (s := [98]) ⟨by decide, by decide⟩
  obtain ⟨f, hf⟩ := exists_of_admits (p := ⟨0, 3, by decide, by decide⟩)
    (s := [97]) ⟨by decide, by decide⟩
  obtain ⟨g, hg⟩ := exists_of_admits (p := ⟨0, 3, by decide, by decide⟩)
    (s := [97, 98]) ⟨by decide, by decide⟩
  exact ⟨e, f, g, ⟨he, hf, hg⟩, spaceship_linear rfl rfl e f g⟩

/-! ## Two capacities -/

/-- Three estrings, two of them of one type, each before the next. -/
def Cycle (p r : Bounds) : Prop :=
  ∃ (e f : Estring p) (g : Estring r),
    e.spaceship g = .lt ∧ g.spaceship f = .lt ∧ f.spaceship e = .lt

/-- The byte `0x80` is before `0x01` as an integer, and behind it as a string. -/
lemma spaceship_high (h16 : p.maxLen < 16) {e f : Estring p}
    (he : ofStringView p [1] = .ok e) (hf : ofStringView p [128] = .ok f) :
    f.spaceship e = .lt := by
  have hbit : highBit [1] ≠ highBit [128] := by decide
  have hext : ¬ NulExtension [1] [128] := by
    intro h
    have hbyte := getD_zero_of_nulExtension h
    revert hbyte
    decide
  obtain ⟨hne, hswap⟩ := compare_intRepr_of_highBit_ne he hf rfl h16 hbit
  rw [(compare_v_iff he hf rfl).mpr hext] at hswap
  rw [spaceship_of_eq rfl, if_pos h16, Std.OrientedOrd.eq_swap]
  have hlt : compare ([1] : List UInt8) [128] = .lt := by decide
  rw [hlt] at hswap
  cases hcmp : compare e.intRepr f.intRepr with
  | lt => exact absurd hcmp hswap
  | eq => exact absurd hcmp hne
  | gt => rfl

lemma cycle_of_ne (hp : p.minLen ≤ 1) (hr : r.minLen ≤ 1) (hne : p.maxLen ≠ r.maxLen)
    (hpos : 1 ≤ p.maxLen) (h16 : p.maxLen < 16) (hr1 : 1 ≤ r.maxLen) : Cycle p r := by
  obtain ⟨e, he⟩ := exists_of_admits (p := p) (s := [1]) ⟨hp, hpos⟩
  obtain ⟨f, hf⟩ := exists_of_admits (p := p) (s := [128]) ⟨hp, hpos⟩
  obtain ⟨g, hg⟩ := exists_of_admits (p := r) (s := [2]) ⟨hr, hr1⟩
  refine ⟨e, f, g, ?_, ?_, spaceship_high h16 he hf⟩
  · rw [spaceship_of_ne hne, toStringView_eq he, toStringView_eq hg]
    decide
  · rw [spaceship_of_ne hne.symm, toStringView_eq hg, toStringView_eq hf]
    decide

/-- Three comparisons of strings are no circle. -/
lemma no_cycle_of_views {s t u : List UInt8} (h₁ : compare s u = .lt) (h₂ : compare u t = .lt) :
    compare t s ≠ .lt := by
  have hlt := Std.TransCmp.lt_trans h₁ h₂
  rw [Std.OrientedOrd.eq_swap, hlt]
  decide

/-- No string is before the empty one. -/
lemma toStringView_eq_nil (hmax : p.maxLen = 0) (e : Estring p) : e.toStringView = [] := by
  obtain ⟨s, he⟩ := e.exists_ofStringView
  have hle := (admits_of_ok he).2
  rw [toStringView_eq he]
  exact List.eq_nil_of_length_eq_zero (by omega)

/-- Two capacities admit a circle exactly if they differ, both have room for a byte, and the one of
the two estrings is below 16. -/
theorem spaceship_cycle_iff (hp : p.minLen ≤ 1) (hr : r.minLen ≤ 1) :
    Cycle p r ↔ p.maxLen ≠ r.maxLen ∧ 1 ≤ p.maxLen ∧ p.maxLen < 16 ∧ 1 ≤ r.maxLen := by
  constructor
  · rintro ⟨e, f, g, heg, hgf, hfe⟩
    have hne : p.maxLen ≠ r.maxLen := by
      intro heq
      have hle := spaceship_isLE_trans heq heq.symm (by rw [heg]; rfl) (by rw [hgf]; rfl)
      rw [spaceship_swap rfl f e, hfe] at hle
      exact absurd hle (by decide)
    rw [spaceship_of_ne hne] at heg
    rw [spaceship_of_ne hne.symm] at hgf
    refine ⟨hne, ?_, ?_, ?_⟩
    · by_contra h0
      have hnil := toStringView_eq_nil (p := p) (by omega)
      have heq := spaceship_eq_eq_iff rfl f e
      rw [hnil f, hnil e, hfe] at heq
      exact absurd (heq.mpr rfl) (by decide)
    · by_contra h16
      rw [spaceship_of_eq rfl, if_neg h16] at hfe
      exact no_cycle_of_views heg hgf hfe
    · by_contra h0
      rw [toStringView_eq_nil (by omega) g] at heg
      cases hs : e.toStringView with
      | nil =>
        rw [hs] at heg
        exact absurd heg (by decide)
      | cons b s =>
        rw [hs] at heg
        exact absurd heg (by rw [List.compare_cons_nil]; decide)
  · rintro ⟨hne, hpos, h16, hr1⟩
    exact cycle_of_ne hp hr hne hpos h16 hr1

/-- Capacities 8 and 20. -/
theorem spaceship_cycle_iff_eight_twenty :
    Cycle ⟨1, 8, by decide, by decide⟩ ⟨1, 20, by decide, by decide⟩ :=
  (spaceship_cycle_iff (by decide) (by decide)).mpr (by decide)

end Estring

end Zsl.Types
