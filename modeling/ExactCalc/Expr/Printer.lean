/-
The fully bracketed text of an expression.

* `Expr.print` — every operator with its operands between one pair of brackets;
* `Expr.describe` — the text together with the depth and the number of nodes.
-/
import ExactCalc.Expr.Basic
import ExactCalc.Text.Numeral

namespace ExactCalc.Expr

/-- The expression is a negative literal. -/
def isNegativeLiteral : Expr → Bool
  | literal value => decide (value < 0)
  | binary .. => false

/-- The text of an expression in the place of an operand. -/
def asOperand (e : Expr) (text : List Char) : List Char :=
  -- a sign may stand at the start of a text, and else behind an opening bracket only
  if e.isNegativeLiteral then '(' :: (text ++ [')']) else text

/-- The fully bracketed text of an expression. -/
def print : Expr → List Char
  | literal value => Text.Numeral.ofInt value
  | binary op left right =>
    '(' :: (left.asOperand left.print ++ op.symbol :: (right.asOperand right.print ++ [')']))

/-- The text of an expression that is an operand. -/
def printOperand (e : Expr) : List Char :=
  e.asOperand e.print

theorem print_binary (op : Operator) (left right : Expr) :
    (binary op left right).print =
      '(' :: (left.printOperand ++ op.symbol :: (right.printOperand ++ [')'])) := rfl

/-- As an operand, a negative literal is bracketed and any other one stands bare. -/
theorem printOperand_literal (value : Int) :
    (literal value).printOperand =
      if value < 0 then '(' :: (Text.Numeral.ofInt value ++ [')'])
      else Text.Numeral.ofInt value := by
  rw [printOperand, asOperand, isNegativeLiteral, print]
  simp only [decide_eq_true_eq]

/-- One line about an expression: its text, its depth and its number of nodes. -/
def describe (e : Expr) : String :=
  "Tree: " ++ String.ofList e.print ++ " (depth " ++ toString e.depth ++ ", "
    ++ toString e.size ++ " nodes)"

end ExactCalc.Expr
