/-
The shortest decimal text of a binary floating-point number.

* `Binary` — a number `mantissa * 2 ^ exponent` and the numbers that round to it;
* `Binary.nearestOn?` — the point of a decimal grid that is nearest to a number and reads back;
* `Binary.shortest?` — the point on the coarsest grid that has one: the fewest digits, and among
  those the nearest;
* `Layout` — where the decimal point goes and when an exponent is written instead;
* `Layout.floatText` — the text of a `Float`.

Design notes: all arithmetic is exact, on natural numbers.  The numbers that round to a
given one reach halfway to its two neighbours; below a power of two the neighbour is nearer.
Both halfway points belong to the number if its mantissa is even.
-/
import ExactCalc.Text.Numeral

namespace ExactCalc.Decimal

/-- The number `mantissa * 2 ^ exponent`. -/
structure Binary where
  mantissa : Nat
  exponent : Int
  /-- The next smaller number is only half as far away as the next larger one. -/
  nearBelow : Bool
  deriving DecidableEq, Repr

namespace Binary

/-- The number of fractions that share a sign and an exponent: 52 bits hold the fraction. -/
def fractions : Nat := 0x10000000000000

/-- The number of exponents: 11 bits hold the exponent. -/
def exponents : Nat := 0x800

/-- The magnitude of a finite number, from its bits. -/
def ofFloat (x : Float) : Binary :=
  let bits : Nat := x.toBits.toNat
  let fraction := bits % fractions
  let field := bits / fractions % exponents
  if field = 0 then ⟨fraction, -1074, false⟩
  else ⟨fractions + fraction, (field : Int) - 1075, fraction == 0 && field != 1⟩

/-- Whether the sign bit of a number is set. -/
def isNegative (x : Float) : Bool :=
  decide (fractions * exponents ≤ x.toBits.toNat)

/-- Four times the mantissa, so that the halfway points are whole numbers too. -/
def quarters (x : Binary) : Nat :=
  4 * x.mantissa

/-- The halfway point to the next smaller number, in the unit of `quarters`. -/
def lower (x : Binary) : Nat :=
  if x.nearBelow then 4 * x.mantissa - 1 else 4 * x.mantissa - 2

/-- The halfway point to the next larger number, in the unit of `quarters`. -/
def upper (x : Binary) : Nat :=
  4 * x.mantissa + 2

/-- A number of quarters times this, over `denominator`, counts multiples of `10 ^ k`. -/
def numerator (x : Binary) (k : Int) : Nat :=
  Nat.pow 2 (x.exponent - 2).toNat * Nat.pow 10 (-k).toNat

/-- See `numerator`. -/
def denominator (x : Binary) (k : Int) : Nat :=
  Nat.pow 2 (2 - x.exponent).toNat * Nat.pow 10 k.toNat

/-- Whether `d * 10 ^ k` rounds to `x`. -/
def readsBack (x : Binary) (k : Int) (d : Nat) : Bool :=
  let point := d * x.denominator k
  let low := x.lower * x.numerator k
  let high := x.upper * x.numerator k
  if x.mantissa % 2 = 0 then decide (low ≤ point ∧ point ≤ high)
  else decide (low < point ∧ point < high)

/-- The multiple of `10 ^ k` that is nearest to `x` among those that round to it, as a count.
Of two that are equally near it is the even one. -/
def nearestOn? (x : Binary) (k : Int) : Option Nat :=
  let value := x.quarters * x.numerator k
  let below := value / x.denominator k
  let above := below + 1
  match x.readsBack k below, x.readsBack k above with
  | true, true =>
    let toBelow := value - below * x.denominator k
    let toAbove := above * x.denominator k - value
    if toBelow < toAbove then some below
    else if toAbove < toBelow then some above
    else if below % 2 = 0 then some below
    else some above
  | true, false => some below
  | false, true => some above
  | false, false => none

/-- The first grid from `10 ^ k` down, of a number of grids, that has a point for `x`. -/
def firstGrid? (x : Binary) : (grids : Nat) → (k : Int) → Option (Nat × Int)
  | 0, _ => none
  | grids + 1, k =>
    match x.nearestOn? k with
    | some d => some (d, k)
    | none => firstGrid? x grids (k - 1)

/-- The decimal number `d * 10 ^ k` with the fewest digits that rounds to `x`, which is not zero.
The grids reach from above the largest finite number to 17 digits of the smallest. -/
def shortest? (x : Binary) : Option (Nat × Int) :=
  if x.mantissa = 0 then none else firstGrid? x 700 309

end Binary

/-- How a decimal number is laid out. -/
structure Layout where
  /-- The least number of digits before the decimal point for which no exponent is written. -/
  least : Int
  /-- The greatest such number. -/
  greatest : Int
  /-- An exponent that is not negative has a `+` in front. -/
  plus : Bool
  deriving DecidableEq, Repr

/-- The text of a power of ten. -/
def Layout.exponentText (layout : Layout) (e : Int) : List Char :=
  let digits := Text.Numeral.ofInt e
  'e' :: if layout.plus ∧ 0 ≤ e then '+' :: digits else digits

/-- The text of the digits `digits` times `10 ^ k`. -/
def Layout.text (layout : Layout) (digits : List Char) (k : Int) : List Char :=
  let point := (digits.length : Int) + k
  if layout.least ≤ point ∧ point ≤ layout.greatest then
    if 0 ≤ k then digits ++ List.replicate k.toNat '0' ++ ['.', '0']
    else if 0 < point then digits.take point.toNat ++ '.' :: digits.drop point.toNat
    else '0' :: '.' :: (List.replicate (-point).toNat '0' ++ digits)
  else
    match digits with
    | [] => []
    | [d] => d :: layout.exponentText (point - 1)
    | d :: more => d :: '.' :: (more ++ layout.exponentText (point - 1))

/-- The text of the magnitude of a finite number.  Zero has no leading digit to start from. -/
def Layout.magnitude (layout : Layout) (x : Binary) : List Char :=
  match x.shortest? with
  | some (d, k) => layout.text (Nat.toDigits 10 d) k
  | none => ['0', '.', '0']

/-- The shortest text of a finite number, with a `-` if its sign bit is set. -/
def Layout.floatText (layout : Layout) (x : Float) : List Char :=
  let magnitude := layout.magnitude (Binary.ofFloat x)
  if Binary.isNegative x then '-' :: magnitude else magnitude

end ExactCalc.Decimal
