/-
Decimal numbers as they are written.

* `Literal` — sign, digits before and behind the point, and power of ten of a written number;
* `Literal.ofText?` — reads one, such as `-12.5e-3`;
* `Literal.natural?` — its magnitude, if neither a point nor an exponent is written;
* `Literal.toFloat?` — a floating-point number for it.

Design notes: `Literal.toFloat?` is not the correctly rounded reading.  It takes the leading
digits that fit into 64 bits and scales them once by a power of ten, each step rounded, which may
end one place beside the nearest number.
-/
import ExactCalc.Text.Numeral

namespace ExactCalc.Decimal

open Text.Numeral (toNat?)

/-- A decimal number as it is written. -/
structure Literal where
  negative : Bool
  whole : List Char
  /-- The digits behind the point, if a point is written. -/
  fraction : Option (List Char)
  /-- The power of ten, if one is written. -/
  exponent : Option Int
  deriving DecidableEq, Repr

namespace Literal

/-- The exponent that a text behind the digits of a number writes, `some none` if the text is
empty. -/
def exponent? : List Char → Option (Option Int)
  | [] => some none
  | e :: text =>
    if e = 'e' ∨ e = 'E' then
      match text with
      | '-' :: digits => (toNat? digits).map fun n => some (-(n : Int))
      | '+' :: digits => (toNat? digits).map fun n => some (n : Int)
      | digits => (toNat? digits).map fun n => some (n : Int)
    else none

/-- Reads a number without a sign. -/
def ofUnsigned? (negative : Bool) (text : List Char) : Option Literal :=
  let whole := text.takeWhile Char.isDigit
  if whole = [] then none
  else
    match text.dropWhile Char.isDigit with
    | '.' :: rest =>
      let fraction := rest.takeWhile Char.isDigit
      if fraction = [] then none
      else (exponent? (rest.dropWhile Char.isDigit)).map
        (Literal.mk negative whole (some fraction))
    | rest => (exponent? rest).map (Literal.mk negative whole none)

/-- Reads a number. -/
def ofText? : List Char → Option Literal
  | '-' :: text => ofUnsigned? true text
  | text => ofUnsigned? false text

/-- The magnitude of a number that is written without a point and an exponent. -/
def natural? (x : Literal) : Option Nat :=
  if x.fraction = none ∧ x.exponent = none then some (Nat.ofDigitChars 10 x.whole 0) else none

/-- Appends digits to a number as long as the result fits into 64 bits: the last result, and how
many digits are left out. -/
def fit (n : Nat) : List Char → Nat × Nat
  | [] => (n, 0)
  | c :: digits =>
    let next := Nat.ofDigitChars 10 [c] n
    if next < 0x10000000000000000 then fit next digits else (n, digits.length + 1)

/-- The number `n * 10 ^ k` whose digits are the leading digits of a literal. -/
def leading (x : Literal) : Nat × Int :=
  let fraction := x.fraction.getD []
  let (n, dropped) := fit 0 x.whole
  let (n, unused) := fit n fraction
  (n, (dropped : Int) - ((fraction.length - unused : Nat) : Int) + x.exponent.getD 0)

/-- A power of ten, rounded.  From `10 ^ 309` on it is infinite. -/
def powerOfTen (n : Nat) : Float :=
  Float.ofScientific 1 false n

/-- Divides by `10 ^ n`, in steps that stay finite. -/
def scaleDown (x : Float) (n : Nat) : Float :=
  if n ≤ 308 then x / powerOfTen n
  else if x == 0 then x
  else scaleDown (x / powerOfTen 308) (n - 308)
termination_by n

/-- The magnitude `n * 10 ^ k`, `none` if it is beyond all finite numbers. -/
def scaled? (n : Nat) (k : Int) : Option Float :=
  let x := Float.ofNat n
  if k < 0 then some (scaleDown x (-k).toNat)
  else if n = 0 then some x
  else if k ≤ 308 then
    let y := x * powerOfTen k.toNat
    if y.isInf then none else some y
  else none

/-- The floating-point number that is read for a literal. -/
def toFloat? (x : Literal) : Option Float :=
  (scaled? x.leading.1 x.leading.2).map fun magnitude =>
    if x.negative then -magnitude else magnitude

end Literal

end ExactCalc.Decimal
