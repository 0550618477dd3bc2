/-
The four operators of a formula.

* `Tier` — how tightly an operator binds, from loose to tight;
* `Operator.ofChar?`, `Operator.symbol` — an operator and its character;
* `Operator.apply` — exact arithmetic on integers.
-/
import ExactCalc.Failure

namespace ExactCalc

/-- How tightly an operator binds, from loose to tight. -/
inductive Tier where
  | additive
  | multiplicative
  deriving DecidableEq, Ord, Repr

/-- The tiers in the order in which their operators are grouped, the tightest first. -/
def Tier.groupingOrder : List Tier := [.multiplicative, .additive]

/-- A binary operator. -/
inductive Operator where
  -- in the order that `compare` follows
  | add
  | sub
  | mul
  | div
  deriving DecidableEq, Ord, Repr

namespace Operator

/-- The operator that a character stands for. -/
def ofChar? : Char → Option Operator
  | '+' => some add
  | '-' => some sub
  | '*' => some mul
  | '/' => some div
  | _ => none

/-- The character of an operator. -/
def symbol : Operator → Char
  | add => '+'
  | sub => '-'
  | mul => '*'
  | div => '/'

/-- The tier of an operator.  Operators of one tier are read from left to right. -/
def tier : Operator → Tier
  | add | sub => .additive
  | mul | div => .multiplicative

/-- The value of an operator at two integers.  A quotient is cut off toward zero. -/
def apply : Operator → Int → Int → Except Failure Int
  | add, a, b => .ok (a + b)
  | sub, a, b => .ok (a - b)
  | mul, a, b => .ok (a * b)
  -- toward zero, so that the sign of a dividend may be moved out of a product of quotients
  | div, a, b => if b = 0 then .error .divisionByZero else .ok (a.tdiv b)

@[simp]
theorem ofChar?_symbol (op : Operator) : ofChar? op.symbol = some op := by
  cases op <;> rfl

theorem ofChar?_eq_some {c : Char} {op : Operator} : ofChar? c = some op ↔ c = op.symbol := by
  constructor
  · intro h
    unfold ofChar? at h
    split at h <;> simp_all [symbol] <;> subst h <;> rfl
  · rintro rfl
    exact ofChar?_symbol op

/-- Only a division by zero has no value. -/
theorem apply_eq_error {op : Operator} {a b : Int} {f : Failure} :
    op.apply a b = .error f ↔ op = .div ∧ b = 0 ∧ f = .divisionByZero := by
  cases op <;> simp [apply]
  split <;> simp_all [eq_comm]

end Operator

/-- Whether a character is an operator of the given tier. -/
def Tier.holds (tier : Tier) (c : Char) : Bool :=
  (Operator.ofChar? c).any fun op => op.tier == tier

end ExactCalc
