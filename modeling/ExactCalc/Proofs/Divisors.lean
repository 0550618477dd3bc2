/-
Where a division by zero comes from.

* `Expr.IsPart` — the parts of an expression, itself included;
* `Expr.DividesByZero` — somewhere in an expression stands a quotient whose divisor has the value
  zero;
* `Expr.value` — the value of an expression, computed from the leaves to the root;
* `Expr.eval_of_isPart` — what fails in a part fails in the whole;
* `Expr.eval_eq_error_iff_dividesByZero` — an evaluation fails exactly if some divisor is zero, and
  gives the value in all other cases.
-/
import ExactCalc.Expr.Basic

namespace ExactCalc.Expr

/-- The parts of an expression: itself and the parts of its operands. -/
inductive IsPart : Expr → Expr → Prop where
  | refl (e : Expr) : IsPart e e
  | left {part left : Expr} (op : Operator) (right : Expr) (h : IsPart part left) :
      IsPart part (binary op left right)
  | right {part right : Expr} (op : Operator) (left : Expr) (h : IsPart part right) :
      IsPart part (binary op left right)

/-- Somewhere in an expression stands a quotient whose divisor has the value zero. -/
def DividesByZero (e : Expr) : Prop :=
  ∃ left right, IsPart (binary .div left right) e ∧ right.eval = .ok 0

/-- The value of an expression, computed from the leaves to the root.  A quotient is cut off toward
zero. -/
def value : Expr → Int
  | literal v => v
  | binary .add left right => left.value + right.value
  | binary .sub left right => left.value - right.value
  | binary .mul left right => left.value * right.value
  -- also by zero, so that every expression has a value, if only a meaningless one
  | binary .div left right => left.value.tdiv right.value

variable {e left right : Expr} {op : Operator} {f : Failure}

/-! ### Failures -/

theorem eval_of_left (op : Operator) (right : Expr) (h : left.eval = .error f) :
    (binary op left right).eval = .error f := by
  rw [eval, h]
  rfl

/-- Where the right operand fails, the left one fails in the same way or has a value. -/
theorem eval_of_right (op : Operator) (left : Expr) (h : right.eval = .error .divisionByZero) :
    (binary op left right).eval = .error .divisionByZero := by
  cases hl : left.eval with
  | error g =>
    obtain rfl := eq_divisionByZero_of_eval hl
    exact eval_of_left op right hl
  | ok a =>
    rw [eval, hl, h]
    rfl

theorem eval_of_ok {a b : Int} (hl : left.eval = .ok a) (hr : right.eval = .ok b) :
    (binary op left right).eval = op.apply a b := by
  rw [eval, hl, hr]
  rfl

/-- A quotient fails if its divisor is zero, whatever becomes of the dividend. -/
theorem eval_of_divisor (left : Expr) (h : right.eval = .ok 0) :
    (binary .div left right).eval = .error .divisionByZero := by
  cases hl : left.eval with
  | error g =>
    obtain rfl := eq_divisionByZero_of_eval hl
    exact eval_of_left .div right hl
  | ok a =>
    rw [eval_of_ok hl h]
    exact Operator.apply_eq_error.mpr ⟨rfl, rfl, rfl⟩

/-- What fails in a part fails in the whole. -/
theorem eval_of_isPart {part : Expr} (h : IsPart part e)
    (hpart : part.eval = .error .divisionByZero) : e.eval = .error .divisionByZero := by
  induction h with
  | refl => exact hpart
  | left op right _ ih => exact eval_of_left op right ih
  | right op left _ ih => exact eval_of_right op left ih

theorem DividesByZero.eval (h : e.DividesByZero) : e.eval = .error .divisionByZero := by
  obtain ⟨left, right, hpart, hzero⟩ := h
  exact eval_of_isPart hpart (eval_of_divisor left hzero)

theorem DividesByZero.of_left (h : left.DividesByZero) (op : Operator) (right : Expr) :
    (binary op left right).DividesByZero := by
  obtain ⟨a, b, hpart, hzero⟩ := h
  exact ⟨a, b, .left op right hpart, hzero⟩

theorem DividesByZero.of_right (h : right.DividesByZero) (op : Operator) (left : Expr) :
    (binary op left right).DividesByZero := by
  obtain ⟨a, b, hpart, hzero⟩ := h
  exact ⟨a, b, .right op left hpart, hzero⟩

/-- An evaluation that fails has met a divisor with the value zero.  It is in an operand that fails,
or else it is the right operand of the whole. -/
theorem dividesByZero_of_eval (h : e.eval = .error f) : e.DividesByZero := by
  induction e generalizing f with
  | literal v => cases h
  | binary op left right ihl ihr =>
    cases hl : left.eval with
    | error g => exact (ihl hl).of_left op right
    | ok a =>
      cases hr : right.eval with
      | error g => exact (ihr hr).of_right op left
      | ok b =>
        rw [eval_of_ok hl hr] at h
        obtain ⟨rfl, rfl, -⟩ := Operator.apply_eq_error.mp h
        exact ⟨left, right, .refl _, hr⟩

/-! ### Values -/

/-- An operator that has a value has that of the exact arithmetic. -/
theorem value_of_apply {v : Int} (h : op.apply left.value right.value = .ok v) :
    v = (binary op left right).value := by
  cases op with
  | add | sub | mul =>
    cases h
    rfl
  | div =>
    rw [Operator.apply] at h
    split at h
    · cases h
    · cases h
      rfl

theorem eq_value_of_eval {v : Int} (h : e.eval = .ok v) : v = e.value := by
  induction e generalizing v with
  | literal w =>
    cases h
    rfl
  | binary op left right ihl ihr =>
    cases hl : left.eval with
    | error g =>
      rw [eval_of_left op right hl] at h
      cases h
    | ok a =>
      cases hr : right.eval with
      | error g =>
        obtain rfl := eq_divisionByZero_of_eval hr
        rw [eval_of_right op left hr] at h
        cases h
      | ok b =>
        rw [eval_of_ok hl hr, ihl hl, ihr hr] at h
        exact value_of_apply h

/-- **An evaluation fails exactly if some divisor in the expression has the value zero, and that is
what it reports.**  In all other cases it gives the value of the expression. -/
theorem eval_eq_error_iff_dividesByZero (e : Expr) :
    (∀ f, e.eval = .error f ↔ f = .divisionByZero ∧ e.DividesByZero) ∧
      ∀ v, e.eval = .ok v ↔ v = e.value ∧ ¬e.DividesByZero := by
  constructor
  · intro f
    constructor
    · intro h
      exact ⟨eq_divisionByZero_of_eval h, dividesByZero_of_eval h⟩
    · rintro ⟨rfl, h⟩
      exact h.eval
  · intro v
    constructor
    · intro h
      refine ⟨eq_value_of_eval h, fun hzero => ?_⟩
      rw [hzero.eval] at h
      cases h
    · rintro ⟨rfl, hnot⟩
      cases h : e.eval with
      | error f => exact absurd (dividesByZero_of_eval h) hnot
      | ok w => rw [eq_value_of_eval h]

/-- A factor of zero does not hide the failure of the other one. -/
example : (binary .mul (literal 0)
    (binary .div (literal 7) (binary .sub (literal 2) (literal 2)))).eval =
      .error .divisionByZero := by
  decide

end ExactCalc.Expr
