/-
The ways in which a calculation can fail.

* `Failure` — the three causes, with the text that each of them names;
* `decidableEqResult` — two results are told apart;
* `Failure.message` — the one wording of each cause.
-/
namespace ExactCalc

/-- Why a text has no value. -/
inductive Failure where
  /-- The text is no formula.  It is kept as it was given, blanks included. -/
  | invalid (text : List Char)
  /-- The text is a part of a grouped formula that is no expression.  Brackets that enclose
  the whole part are not kept. -/
  | malformed (text : List Char)
  /-- Some divisor is zero. -/
  | divisionByZero
  deriving DecidableEq, Repr

/-- The results of closed texts can be compared. -/
instance decidableEqResult {α : Type} [DecidableEq α] : DecidableEq (Except Failure α)
  | .ok a, .ok b => decidable_of_iff (a = b) ⟨congrArg Except.ok, Except.ok.inj⟩
  | .error f, .error g => decidable_of_iff (f = g) ⟨congrArg Except.error, Except.error.inj⟩
  | .ok _, .error _ => isFalse nofun
  | .error _, .ok _ => isFalse nofun

/-- What a user reads about a failure. -/
def Failure.message : Failure → String
  | .invalid text => "invalid expression '" ++ String.ofList text ++ "'"
  | .malformed text => "malformed expression '" ++ String.ofList text ++ "'"
  | .divisionByZero => "division by zero"

end ExactCalc
