/-
The grammar of formulas, and what a formula means.

* `Derivation` — the derivations `V → ['-'] P (op P)*` of a level and `P → digits | ( V )` of an
  operand;
* `Derivation.text` — the text that is derived, without blanks;
* `Derivation.tree` — its expression: the multiplicative operators bind tighter, each tier goes
  from left to right, and a sign belongs to the operand behind it alone;
* `Nested` — the texts that have a tree when every level is cut at its first operator.
-/
import ExactCalc.Expr.Basic

namespace ExactCalc.Formula

/-- A run of decimal digits that is not empty. -/
abbrev DigitRun := { digits : List Char // digits ≠ [] ∧ digits.all Char.isDigit = true }

/-- The number that a run of digits denotes. -/
def DigitRun.value (run : DigitRun) : Int :=
  (Nat.ofDigitChars 10 run.val 0 : Nat)

/-- The two kinds of parts that a formula has. -/
inductive Part where
  /-- What an operator joins. -/
  | operand
  /-- A whole formula, or all that stands between two brackets. -/
  | level
  deriving DecidableEq, Repr

/-- How a part of a formula is derived. -/
inductive Derivation : Part → Type where
  | digits (run : DigitRun) : Derivation .operand
  | group (inner : Derivation .level) : Derivation .operand
  | first (signed : Bool) (operand : Derivation .operand) : Derivation .level
  | more (before : Derivation .level) (op : Operator) (operand : Derivation .operand) :
      Derivation .level

/-- The meaning of a level: a sum with the operator behind it, if there is one, and the term that
follows. -/
structure Reading where
  sum? : Option (Expr × Operator)
  term : Expr

namespace Reading

/-- The level as one expression. -/
def tree (r : Reading) : Expr :=
  match r.sum? with
  | none => r.term
  | some (sum, op) => .binary op sum r.term

/-- The meaning of a level with one more operator and operand. -/
def extend (r : Reading) (op : Operator) (operand : Expr) : Reading :=
  -- the operators are told one by one, so that what a formula means does not rest on `Operator.tier`
  match op with
  | .mul | .div => ⟨r.sum?, .binary op r.term operand⟩
  | .add | .sub => ⟨some (r.tree, op), operand⟩

theorem extend_of_multiplicative (r : Reading) {op : Operator} (operand : Expr)
    (h : op.tier = .multiplicative) :
    r.extend op operand = ⟨r.sum?, .binary op r.term operand⟩ := by
  cases op with
  | add | sub => cases h
  | mul | div => rfl

theorem extend_of_additive (r : Reading) {op : Operator} (operand : Expr)
    (h : op.tier = .additive) : r.extend op operand = ⟨some (r.tree, op), operand⟩ := by
  cases op with
  | add | sub => rfl
  | mul | div => cases h

end Reading

namespace Derivation

/-- The text that is derived. -/
def text {part : Part} : Derivation part → List Char
  | digits run => run.val
  | group inner => '(' :: (inner.text ++ [')'])
  | first true operand => '-' :: operand.text
  | first false operand => operand.text
  | more before op operand => before.text ++ op.symbol :: operand.text

/-- The meaning of a part. -/
def reading {part : Part} : Derivation part → Reading
  | digits run => ⟨none, .literal run.value⟩
  | group inner => ⟨none, inner.reading.tree⟩
  | first true (digits run) => ⟨none, .literal (-run.value)⟩
  | first true (group inner) => ⟨none, .binary .sub (.literal 0) inner.reading.tree⟩
  | first false operand => operand.reading
  | more before op operand => before.reading.extend op operand.reading.tree

/-- The expression of a part. -/
def tree {part : Part} (d : Derivation part) : Expr :=
  d.reading.tree

theorem tree_digits (run : DigitRun) : (digits run).tree = .literal run.value := by
  simp [tree, reading, Reading.tree]

/-- Brackets leave no node. -/
theorem tree_group (inner : Derivation .level) : (group inner).tree = inner.tree := by
  simp [tree, reading, Reading.tree]

theorem tree_unsigned (operand : Derivation .operand) :
    (first false operand).tree = operand.tree := by
  simp [tree, reading]

/-- A signed run of digits is a negative literal. -/
theorem tree_signed_digits (run : DigitRun) :
    (first true (digits run)).tree = .literal (-run.value) := by
  simp [tree, reading, Reading.tree]

/-- A signed group is the difference of zero and the group. -/
theorem tree_signed_group (inner : Derivation .level) :
    (first true (group inner)).tree = inner.tree.negate := by
  simp [tree, reading, Reading.tree, Expr.negate]

/-- An additive operator joins all that stands before it with the operand behind it. -/
theorem tree_more_additive (before : Derivation .level) {op : Operator}
    (operand : Derivation .operand) (h : op.tier = .additive) :
    (more before op operand).tree = .binary op before.tree operand.tree := by
  simp [tree, reading, Reading.extend_of_additive _ _ h, Reading.tree]

/-- A multiplicative operator joins the term that stands before it with the operand behind it. -/
theorem reading_more_multiplicative (before : Derivation .level) {op : Operator}
    (operand : Derivation .operand) (h : op.tier = .multiplicative) :
    (more before op operand).reading =
      ⟨before.reading.sum?, .binary op before.reading.term operand.tree⟩ :=
  before.reading.extend_of_multiplicative operand.tree h

end Derivation

/-- The texts `E → A | A op E` with `A → ['-'] digits | ['-'] ( E )`, and their trees: a level is
nested to the right, whatever the tiers of its operators, and each of its operands may have a
sign. -/
inductive Nested : Part → List Char → Expr → Prop where
  | digits (run : DigitRun) : Nested .operand run.val (.literal run.value)
  | negative (run : DigitRun) : Nested .operand ('-' :: run.val) (.literal (-run.value))
  | group {text : List Char} {e : Expr} (h : Nested .level text e) :
      Nested .operand ('(' :: (text ++ [')'])) e
  | negation {text : List Char} {e : Expr} (h : Nested .level text e) :
      Nested .operand ('-' :: '(' :: (text ++ [')'])) (.binary .sub (.literal 0) e)
  | single {text : List Char} {e : Expr} (h : Nested .operand text e) : Nested .level text e
  | operation {left right : List Char} {l r : Expr} (op : Operator)
      (hl : Nested .operand left l) (hr : Nested .level right r) :
      Nested .level (left ++ op.symbol :: right) (.binary op l r)

end ExactCalc.Formula
