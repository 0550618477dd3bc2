/-
Expressions as data of a general format.

* `Datum` — a value of a format such as JSON, as far as an expression can meet it;
* `Datum.ofLiteral?` — a written number as an integer or a floating-point number;
* `Expr.toDatum`, `Expr.ofDatum` — an expression is exchanged as its printed text;
* `Expr.toJson` — that text as a JSON string;
* `DecodeError.message` — what is said about data that is no expression.
-/
import ExactCalc.Decimal.Literal
import ExactCalc.Decimal.Shortest
import ExactCalc.Expr.Printer
import ExactCalc.Expr.Reader

namespace ExactCalc

/-- A value of a general data format.  What a sequence or a mapping holds does not matter. -/
inductive Datum where
  | null
  | boolean (value : Bool)
  | integer (value : Int)
  | floating (value : Float)
  | string (text : List Char)
  | sequence
  | mapping

namespace Datum

/-- The integers of the format: 64 bits, signed or unsigned. -/
def isInteger (n : Int) : Bool :=
  decide (-0x8000000000000000 ≤ n ∧ n < 0x10000000000000000)

/-- A written number.  It is an integer if neither a point nor an exponent is written and the
format has that integer; `-0` is none. -/
def ofLiteral? (x : Decimal.Literal) : Option Datum :=
  match x.natural? with
  | some n =>
    if x.negative then
      if n ≠ 0 ∧ isInteger (-n) then some (integer (-n)) else x.toFloat?.map floating
    else if isInteger n then some (integer n) else x.toFloat?.map floating
  | none => x.toFloat?.map floating

/-- Floating-point numbers are written without an exponent from four zeros behind the point to
sixteen digits before it, and every exponent is written with its sign. -/
def layout : Decimal.Layout := ⟨-4, 16, true⟩

/-- What a message calls a value. -/
def kind : Datum → String
  | null => "null"
  | boolean value => "boolean `" ++ toString value ++ "`"
  | integer value => "integer `" ++ String.ofList (Text.Numeral.ofInt value) ++ "`"
  | floating value => "floating point `" ++ String.ofList (layout.floatText value) ++ "`"
  | string text => "string \"" ++ String.ofList text ++ "\""
  | sequence => "sequence"
  | mapping => "map"

end Datum

/-- Why a value is no expression. -/
inductive DecodeError where
  /-- The text does not parse. -/
  | unreadable (failure : Failure)
  /-- The value is no text. -/
  | noText (found : Datum)

/-- What a user reads about a value that is no expression. -/
def DecodeError.message : DecodeError → String
  | unreadable failure => "Parse error - " ++ failure.message
  | noText found =>
    "invalid type: " ++ found.kind
      ++ ", expected a &str that can be parsed by `bigcalc` crate"

namespace Expr

/-- An expression is exchanged as its printed text. -/
def toDatum (e : Expr) : Datum :=
  .string e.print

/-- The expression that a value stands for. -/
def ofDatum : Datum → Except DecodeError Expr
  | .string text => (parse text).mapError .unreadable
  | found => .error (.noText found)

/-- An expression as a JSON string.  No character of a printed expression needs an escape. -/
def toJson (e : Expr) : String :=
  "\"" ++ String.ofList e.print ++ "\""

end Expr

end ExactCalc
