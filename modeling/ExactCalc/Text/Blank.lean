/-
Blank characters, which a formula may hold anywhere.

* `isBlank` — the characters with the Unicode property `White_Space`;
* `dropBlanks` — a text without its blanks, so that `1 2` becomes `12`;
* `trim` — a text without the blanks at its two ends.

Design notes: a text is the list of its characters throughout the library, since every
reader and printer here goes through it character by character.
-/
namespace ExactCalc.Text

/-- The 25 characters with the Unicode property `White_Space`. -/
def isBlank (c : Char) : Bool :=
  let n := c.toNat
  (9 ≤ n && n ≤ 13) || n == 32 || n == 0x85 || n == 0xA0 || n == 0x1680
    || (0x2000 ≤ n && n ≤ 0x200A) || n == 0x2028 || n == 0x2029 || n == 0x202F
    || n == 0x205F || n == 0x3000

/-- A text without its blanks. -/
def dropBlanks (text : List Char) : List Char :=
  text.filter fun c => !isBlank c

/-- A text without the blanks at its two ends. -/
def trim (text : List Char) : List Char :=
  ((text.dropWhile isBlank).reverse.dropWhile isBlank).reverse

theorem isBlank_of_isWhitespace {c : Char} (h : c.isWhitespace = true) : isBlank c = true := by
  simp only [Char.isWhitespace, Bool.or_eq_true, decide_eq_true_eq] at h
  rcases h with ((rfl | rfl) | rfl) | rfl <;> decide

@[simp]
theorem dropBlanks_nil : dropBlanks [] = [] := rfl

@[simp]
theorem dropBlanks_append (s t : List Char) : dropBlanks (s ++ t) = dropBlanks s ++ dropBlanks t :=
  List.filter_append s t

theorem mem_dropBlanks {c : Char} {text : List Char} :
    c ∈ dropBlanks text ↔ c ∈ text ∧ isBlank c = false := by
  simp [dropBlanks]

/-- A text without blanks is left as it is. -/
theorem dropBlanks_eq_self {text : List Char} :
    dropBlanks text = text ↔ ∀ c ∈ text, isBlank c = false := by
  simp [dropBlanks]

@[simp]
theorem dropBlanks_dropBlanks (text : List Char) :
    dropBlanks (dropBlanks text) = dropBlanks text :=
  dropBlanks_eq_self.mpr fun _ h => (mem_dropBlanks.mp h).2

end ExactCalc.Text
