/-
The scan that tells formulas from other texts.

A formula is made of unsigned integers, the four operators and brackets; a `-` may also be
a sign, at the very start and right after an opening bracket.  Blanks do not count.

* `Scan.step` — one character, from a place and a bracket depth to the next;
* `scan` — a whole text, `none` as soon as a character cannot stand where it does;
* `isValid` — the scan ends at depth zero, with an operand complete.
-/
import ExactCalc.Operator
import ExactCalc.Text.Blank

namespace ExactCalc.Formula

/-- What stands just before the next character of a formula, which determines what may follow. -/
inductive Place where
  /-- Nothing, or an opening bracket. -/
  | start
  | digit
  /-- A closing bracket. -/
  | close
  | operator
  deriving DecidableEq, Repr

namespace Place

/-- A digit, a group or a sign can follow here and an operator cannot. -/
def awaitsOperand : Place → Bool
  | start | operator => true
  | digit | close => false

end Place

/-- How far a text has been scanned: the place reached and the number of open brackets. -/
structure Scan where
  place : Place
  depth : Nat
  deriving DecidableEq, Repr

namespace Scan

/-- Nothing has been read. -/
def initial : Scan := ⟨.start, 0⟩

/-- Reads one character, which is no blank. -/
def step (s : Scan) (c : Char) : Option Scan :=
  if c.isDigit then
    if s.place = .close then none else some ⟨.digit, s.depth⟩
  else if c = '(' then
    if s.place.awaitsOperand then some ⟨.start, s.depth + 1⟩ else none
  else if c = ')' then
    if s.place.awaitsOperand || s.depth == 0 then none else some ⟨.close, s.depth - 1⟩
  else if c = '-' then
    if s.place = .operator then none else some ⟨.operator, s.depth⟩
  else if (Operator.ofChar? c).isSome then
    if s.place.awaitsOperand then none else some ⟨.operator, s.depth⟩
  else none

/-- The text read so far is a formula. -/
def isComplete (s : Scan) : Bool :=
  s.depth == 0 && !s.place.awaitsOperand

end Scan

/-- Scans a text, its blanks left out. -/
def scan (text : List Char) : Option Scan :=
  (Text.dropBlanks text).foldlM Scan.step Scan.initial

/-- Whether a text is a formula, blanks left out. -/
def isValid (text : List Char) : Bool :=
  (scan text).any Scan.isComplete

@[simp]
theorem scan_dropBlanks (text : List Char) : scan (Text.dropBlanks text) = scan text := by
  simp [scan]

@[simp]
theorem isValid_dropBlanks (text : List Char) : isValid (Text.dropBlanks text) = isValid text := by
  simp [isValid]

end ExactCalc.Formula
