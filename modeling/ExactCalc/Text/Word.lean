/-
Words of a text.

* `isWord` — letters, marks, digits, connecting punctuation and join controls;
* `chunks` — a text cut into its words and the single characters between them;
* `replaceWord` — a text with another text in the place of each occurrence of a word.
-/
import ExactCalc.Text.WordRanges

namespace ExactCalc.Text

/-- Whether a number is in one of the ranges, which are in increasing order. -/
def inRanges (n : Nat) : List (Nat × Nat) → Bool
  | [] => false
  | (first, last) :: ranges =>
    if n < first then false else decide (n ≤ last) || inRanges n ranges

/-- Whether a character can be part of a word. -/
def isWord (c : Char) : Bool :=
  inRanges c.toNat wordRanges

/-- A text cut between any two characters that are not both part of one word. -/
def chunks (text : List Char) : List (List Char) :=
  text.splitBy fun a b => isWord a && isWord b

/-- A text in which each occurrence of a word is replaced. -/
def replaceWord (word replacement text : List Char) : List Char :=
  -- a chunk of word characters is as long as it can be, so no occurrence is inside a longer word
  (chunks text).flatMap fun chunk => if chunk = word then replacement else chunk

theorem inRanges_of_lt {n first last : Nat} {ranges : List (Nat × Nat)} (h : n < first) :
    inRanges n ((first, last) :: ranges) = false := by
  simp [inRanges, h]

theorem inRanges_of_le {n first last : Nat} {ranges : List (Nat × Nat)} (h : first ≤ n)
    (h' : n ≤ last) : inRanges n ((first, last) :: ranges) = true := by
  simp [inRanges, h', Nat.not_lt.mpr h]

/-- The digits are the first word characters. -/
theorem isWord_of_isDigit {c : Char} (h : c.isDigit = true) : isWord c = true := by
  simp only [Char.isDigit, Bool.and_eq_true, decide_eq_true_eq] at h
  exact inRanges_of_le h.1 h.2

/-- No sign, operator or bracket is a word character. -/
theorem isWord_of_lt {c : Char} (h : c.toNat < 0x30) : isWord c = false :=
  inRanges_of_lt h

@[simp]
theorem replaceWord_nil (word replacement : List Char) : replaceWord word replacement [] = [] :=
  rfl

end ExactCalc.Text
