import Zsl.FixedPoint.FixedDecimal

/-!
# Additive arithmetic of `fixed_decimal_t`

* `neg_eq`, `add_eq`, `sub_eq`: on values in range the raw operation does not overflow, and
  the range check decides;
* `Expr`: the expressions over `from_raw` with the additive operators;
* `eval_exact`: an expression has a value, the exact one, exactly if all of its
  subexpressions are in range, and throws otherwise.
-/

namespace Zsl.FixedPoint
open Zsl.Lib Signed64

variable {d : Digits}

namespace FixedDecimal

lemma fromRaw_of_inRange {v : ℤ} (h : d.InRange v) : fromRaw d v = .ok ⟨v⟩ := by
  rw [fromRaw_eq, if_pos h]

lemma fromRaw_of_not {v : ℤ} (h : ¬ d.InRange v) :
    ∃ what, fromRaw d v = .error (.outOfRange what) := by
  rw [fromRaw_eq, if_neg h]
  exact ⟨_, rfl⟩

variable {a b : FixedDecimal d}

lemma neg_eq (ha : d.InRange a.rep) : a.neg = .ok ⟨-a.rep⟩ := by
  unfold neg
  rw [int64_of_fits ha.neg.fits]
  exact fromRaw_of_inRange ha.neg

lemma add_eq (ha : d.InRange a.rep) (hb : d.InRange b.rep) :
    a.add b = fromRaw d (a.rep + b.rep) := by
  unfold add
  rw [int64_of_fits (ha.fits_add hb)]
  rfl

lemma sub_eq (ha : d.InRange a.rep) (hb : d.InRange b.rep) :
    a.sub b = fromRaw d (a.rep - b.rep) := by
  have hfits : Fits (a.rep - b.rep) := by
    rw [sub_eq_add_neg]
    exact ha.fits_add hb.neg
  unfold sub
  rw [int64_of_fits hfits]
  rfl

end FixedDecimal

/-! ## Additive expressions -/

inductive Expr where
  /-- `from_raw(v)` -/
  | raw (v : Int64)
  | neg (x : Expr)
  | add (x y : Expr)
  | sub (x y : Expr)

namespace Expr

/-- The value of an expression in `fixed_decimal_t < I, F >`. -/
def eval (d : Digits) : Expr → Except Failure (FixedDecimal d)
  | raw v => FixedDecimal.fromRaw d v.toInt
  | neg x => do
    let a ← eval d x
    a.neg
  | add x y => do
    let a ← eval d x
    let b ← eval d y
    a.add b
  | sub x y => do
    let a ← eval d x
    let b ← eval d y
    a.sub b

/-- The exact integer value of its raw representation. -/
def exact : Expr → ℤ
  | raw v => v.toInt
  | neg x => -exact x
  | add x y => exact x + exact y
  | sub x y => exact x - exact y

/-- The expression and all those in it. -/
def subexpressions : Expr → List Expr
  | raw v => [raw v]
  | neg x => neg x :: subexpressions x
  | add x y => add x y :: (subexpressions x ++ subexpressions y)
  | sub x y => sub x y :: (subexpressions x ++ subexpressions y)

/-- Every subexpression has an exact value in range. -/
def AllInRange (d : Digits) (e : Expr) : Prop := ∀ x ∈ e.subexpressions, d.InRange x.exact

variable {x y : Expr}

lemma allInRange_raw (v : Int64) : AllInRange d (raw v) ↔ d.InRange v.toInt := by
  simp [AllInRange, subexpressions, exact]

lemma allInRange_neg :
    AllInRange d (neg x) ↔ d.InRange (-x.exact) ∧ AllInRange d x := by
  simp [AllInRange, subexpressions, exact]

lemma allInRange_add :
    AllInRange d (add x y) ↔
      d.InRange (x.exact + y.exact) ∧ AllInRange d x ∧ AllInRange d y := by
  simp [AllInRange, subexpressions, exact, or_imp, forall_and]

lemma allInRange_sub :
    AllInRange d (sub x y) ↔
      d.InRange (x.exact - y.exact) ∧ AllInRange d x ∧ AllInRange d y := by
  simp [AllInRange, subexpressions, exact, or_imp, forall_and]

lemma AllInRange.exact {e : Expr} (h : AllInRange d e) : d.InRange e.exact := by
  apply h
  cases e <;> exact List.mem_cons_self

/-- The exact value, or `std::out_of_range`. -/
def Yields (d : Digits) (r : Except Failure (FixedDecimal d)) (z : ℤ) (p : Prop) : Prop :=
  (p → r = .ok ⟨z⟩) ∧ (¬ p → ∃ what, r = .error (.outOfRange what))

lemma yields_fromRaw (d : Digits) (v : ℤ) :
    Yields d (FixedDecimal.fromRaw d v) v (d.InRange v) :=
  ⟨FixedDecimal.fromRaw_of_inRange, FixedDecimal.fromRaw_of_not⟩

/-- An operation on two operands throws what an operand throws. -/
lemma Yields.bind₂ {r s : Except Failure (FixedDecimal d)} {v w z : ℤ} {p q : Prop}
    {f : FixedDecimal d → FixedDecimal d → Except Failure (FixedDecimal d)}
    (hr : Yields d r v p) (hs : Yields d s w q)
    (hf : p → q → f ⟨v⟩ ⟨w⟩ = FixedDecimal.fromRaw d z) :
    Yields d (r.bind fun a => s.bind fun b => f a b) z (d.InRange z ∧ p ∧ q) := by
  by_cases hp : p
  · rw [hr.1 hp]
    by_cases hq : q
    · rw [hs.1 hq]
      show Yields d (f ⟨v⟩ ⟨w⟩) z _
      rw [hf hp hq]
      have hz := yields_fromRaw d z
      exact ⟨fun h => hz.1 h.1, fun h => hz.2 fun hin => h ⟨hin, hp, hq⟩⟩
    · obtain ⟨what, hw⟩ := hs.2 hq
      rw [hw]
      exact ⟨fun h => absurd h.2.2 hq, fun _ => ⟨what, rfl⟩⟩
  · obtain ⟨what, hw⟩ := hr.2 hp
    rw [hw]
    exact ⟨fun h => absurd h.2.1 hp, fun _ => ⟨what, rfl⟩⟩

/-- An expression yields its exact value if all of it is in range. -/
theorem eval_yields (d : Digits) (e : Expr) : Yields d (eval d e) e.exact (AllInRange d e) := by
  induction e with
  | raw v =>
    rw [allInRange_raw]
    exact yields_fromRaw d v.toInt
  | neg x ih =>
    rw [allInRange_neg]
    by_cases hx : AllInRange d x
    · show Yields d ((eval d x).bind fun a => a.neg) _ _
      rw [ih.1 hx]
      exact ⟨fun _ => FixedDecimal.neg_eq hx.exact, fun h => absurd ⟨hx.exact.neg, hx⟩ h⟩
    · obtain ⟨what, hw⟩ := ih.2 hx
      show Yields d ((eval d x).bind fun a => a.neg) _ _
      rw [hw]
      exact ⟨fun h => absurd h.2 hx, fun _ => ⟨what, rfl⟩⟩
  | add x y ihx ihy =>
    rw [allInRange_add]
    exact ihx.bind₂ ihy fun hx hy => FixedDecimal.add_eq hx.exact hy.exact
  | sub x y ihx ihy =>
    rw [allInRange_sub]
    exact ihx.bind₂ ihy fun hx hy => FixedDecimal.sub_eq hx.exact hy.exact

end Expr

/-- **Additive arithmetic.** An expression has a value exactly if every subexpression is in
range, and then the exact one; otherwise it throws `std::out_of_range`, and never overflows.
Every value reached is in range, and so is its negation. -/
theorem eval_exact (d : Digits) (e : Expr) :
    (e.AllInRange d → e.eval d = .ok ⟨e.exact⟩) ∧
      (¬ e.AllInRange d → ∃ what, e.eval d = .error (.outOfRange what)) ∧
      ∀ c, e.eval d = .ok c → d.InRange c.rep ∧ c.neg = .ok ⟨-c.rep⟩ ∧ d.InRange (-c.rep) := by
  have hyields := Expr.eval_yields d e
  refine ⟨hyields.1, hyields.2, fun c hc => ?_⟩
  have hall : e.AllInRange d := by
    by_contra hnot
    obtain ⟨what, hw⟩ := hyields.2 hnot
    rw [hw] at hc
    cases hc
  rw [hyields.1 hall] at hc
  obtain rfl := Except.ok.inj hc
  exact ⟨hall.exact, FixedDecimal.neg_eq hall.exact, hall.exact.neg⟩

end Zsl.FixedPoint
