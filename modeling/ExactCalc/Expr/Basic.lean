/-
Expressions over the integers.

* `Expr` — a literal, or an operator with two operands; there is no node for a sign;
* `Expr.depth`, `Expr.size` — the longest path to a leaf and the number of nodes;
* `Expr.eval` — the value, exact, or the division by zero that is met.
-/
import ExactCalc.Operator

namespace ExactCalc

/-- A binary expression tree.  A sign in front of digits belongs to the literal, and a negated
group is the difference of zero and the group. -/
inductive Expr where
  | literal (value : Int)
  | binary (op : Operator) (left right : Expr)
  deriving DecidableEq, Repr

namespace Expr

/-- The number of nodes on the longest path from the root to a leaf. -/
def depth : Expr → Nat
  | literal _ => 1
  | binary _ left right => max left.depth right.depth + 1

/-- The number of nodes. -/
def size : Expr → Nat
  | literal _ => 1
  | binary _ left right => left.size + right.size + 1

/-- The value of an expression.  The left operand comes first, then the right one. -/
def eval : Expr → Except Failure Int
  | literal value => .ok value
  | binary op left right => do
    let a ← left.eval
    let b ← right.eval
    op.apply a b

/-- The tree of a negated group. -/
def negate (e : Expr) : Expr :=
  binary .sub (literal 0) e

/-- Nothing else can fail than a division. -/
theorem eq_divisionByZero_of_eval {e : Expr} {f : Failure} (h : e.eval = .error f) :
    f = .divisionByZero := by
  induction e with
  | literal v => cases h
  | binary op left right ihl ihr =>
    rw [eval] at h
    cases hl : left.eval with
    | error g =>
      rw [hl] at h
      cases h
      exact ihl hl
    | ok a =>
      cases hr : right.eval with
      | error g =>
        rw [hl, hr] at h
        cases h
        exact ihr hr
      | ok b =>
        rw [hl, hr] at h
        exact (Operator.apply_eq_error.mp h).2.2

theorem depth_pos (e : Expr) : 0 < e.depth := by
  cases e <;> simp [depth]

theorem size_pos (e : Expr) : 0 < e.size := by
  cases e <;> simp [size]

end Expr

end ExactCalc
