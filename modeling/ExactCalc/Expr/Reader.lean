/-
Reading expressions.

* `Expr.ofGrouped` — the tree of a text whose grouping is explicit;
* `Expr.parse` — the tree of any formula, blanks left out;
* `evaluate` — the value of a formula.
-/
import ExactCalc.Expr.Basic
import ExactCalc.Formula.Grouping
import ExactCalc.Formula.Shape
import ExactCalc.Formula.Validity

namespace ExactCalc

open Formula

namespace Expr

/-- The tree of a text whose grouping is explicit.  Of two parts that have no tree, the left
one is reported. -/
def ofGrouped (text : List Char) : Except Failure Expr :=
  match h : shape (stripBrackets text) with
  | .numeral value => .ok (literal value)
  | .negation inner =>
    have : inner.length < text.length := by
      have := length_stripBrackets_le text
      rw [eq_of_shape_negation h] at this
      simp only [List.cons_append, List.length_cons, List.length_append] at this
      omega
    (ofGrouped inner).map negate
  -- in a level with several operators this is the first, whatever their tiers
  | .operation left op right =>
    have hlen : left.length + right.length < text.length := by
      have := length_stripBrackets_le text
      rw [eq_of_shape_operation h, List.length_append, List.length_cons] at this
      omega
    have : left.length < text.length := by omega
    have : right.length < text.length := by omega
    do
      let l ← ofGrouped left
      let r ← ofGrouped right
      return binary op l r
  | .broken => .error (.malformed (stripBrackets text))
termination_by text.length

/-- The rule of `ofGrouped` by the shape of a text. -/
theorem ofGrouped_eq (text : List Char) :
    ofGrouped text =
      match shape (stripBrackets text) with
      | .numeral value => .ok (literal value)
      | .negation inner => (ofGrouped inner).map negate
      | .operation left op right => do
        let l ← ofGrouped left
        let r ← ofGrouped right
        return binary op l r
      | .broken => .error (.malformed (stripBrackets text)) := by
  conv => lhs; rw [ofGrouped]
  split <;> simp_all

/-- The tree of a formula.  Blanks do not count, also between two digits. -/
def parse (text : List Char) : Except Failure Expr :=
  if isValid text then ofGrouped (group (Text.dropBlanks text)) else .error (.invalid text)

end Expr

/-- The value of a formula. -/
def evaluate (text : List Char) : Except Failure Int := do
  (← Expr.parse text).eval

end ExactCalc
