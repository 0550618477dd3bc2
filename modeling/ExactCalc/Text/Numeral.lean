/-
Decimal numerals of integers.

* `Numeral.ofInt` — the digits of an integer, with a `-` in front of a negative one and no
  leading zero;
* `Numeral.toInt?` — reads a run of digits with an optional `-`, leading zeros allowed;
* `Numeral.toInt?_ofInt` — what is written reads back.
-/
namespace ExactCalc.Text.Numeral

/-- The decimal digits of an integer, after a `-` if it is negative. -/
def ofInt : Int → List Char
  | .ofNat n => Nat.toDigits 10 n
  | .negSucc n => '-' :: Nat.toDigits 10 (n + 1)

/-- The number that a non-empty run of decimal digits denotes. -/
def toNat? (digits : List Char) : Option Nat :=
  if digits ≠ [] ∧ digits.all Char.isDigit then some (Nat.ofDigitChars 10 digits 0) else none

/-- The integer that a run of decimal digits, with a `-` in front or not, denotes. -/
def toInt? : List Char → Option Int
  | [] => none
  | c :: digits =>
    if c = '-' then (toNat? digits).map fun n => -(n : Int)
    else (toNat? (c :: digits)).map fun n => (n : Int)

@[simp]
theorem toNat?_toDigits (n : Nat) : toNat? (Nat.toDigits 10 n) = some n := by
  have h : (Nat.toDigits 10 n).all Char.isDigit = true :=
    List.all_eq_true.mpr fun _ hc => Nat.isDigit_of_mem_toDigits (by decide) (by decide) hc
  simp [toNat?, h]

/-- A run of digits does not begin with a `-`. -/
theorem toInt?_toDigits (n : Nat) : toInt? (Nat.toDigits 10 n) = some (n : Int) := by
  have hn := toNat?_toDigits n
  cases h : Nat.toDigits 10 n with
  | nil => exact absurd h Nat.toDigits_ne_nil
  | cons c digits =>
    have hc : c.isDigit = true :=
      Nat.isDigit_of_mem_toDigits (by decide) (by decide) (h ▸ List.mem_cons_self)
    have hne : c ≠ '-' := by
      rintro rfl
      exact absurd hc (by decide)
    rw [h] at hn
    simp [toInt?, hne, hn]

@[simp]
theorem toInt?_ofInt (v : Int) : toInt? (ofInt v) = some v := by
  cases v with
  | ofNat n => exact toInt?_toDigits n
  | negSucc n => simp [ofInt, toInt?, Int.negSucc_eq]

theorem ofInt_injective {v w : Int} (h : ofInt v = ofInt w) : v = w := by
  have := congrArg toInt? h
  simpa using this

end ExactCalc.Text.Numeral
