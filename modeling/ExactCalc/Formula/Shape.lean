/-
How the text of an expression is put together.

* `splitAtOperator` — cuts a text at its first operator outside brackets;
* `Shape`, `shape` — a numeral, a negated group, an operation, or none of these;
* `eq_of_shape_operation`, `eq_of_shape_negation` — the parts make up the text.
-/
import ExactCalc.Formula.Bracket
import ExactCalc.Operator
import ExactCalc.Text.Numeral

namespace ExactCalc.Formula

/-- What a search for an operator outside brackets finds. -/
inductive Split where
  /-- There is none. -/
  | whole
  /-- The operator, with the text before it and the text behind it. -/
  | parts (left : List Char) (op : Operator) (right : List Char)
  /-- Before any operator comes a closing bracket that closes nothing. -/
  | unbalanced
  deriving DecidableEq, Repr

/-- The same finding for the text with one more character in front. -/
def Split.cons (c : Char) : Split → Split
  | parts left op right => parts (c :: left) op right
  | whole => whole
  | unbalanced => unbalanced

/-- Cuts a text, in front of which `depth` brackets are open, at its first operator outside
brackets. -/
def splitFrom (depth : Nat) : List Char → Split
  | [] => .whole
  | c :: rest =>
    if c = ')' ∧ depth = 0 then .unbalanced
    else match if depth = 0 then Operator.ofChar? c else none with
      | some op => .parts [] op rest
      | none => (splitFrom (depthAfter '(' ')' depth c) rest).cons c

/-- Cuts a text at its first operator outside brackets that is not its first character. -/
def splitAtOperator : List Char → Split
  | [] => .whole
  | c :: rest =>
    if c = ')' then .unbalanced
    -- the first character could only be a sign, and behind it every operator counts, as in `1*-2`
    else (splitFrom (depthAfter '(' ')' 0 c) rest).cons c

theorem Split.exists_of_cons_eq_parts {c : Char} {s : Split} {left right : List Char}
    {op : Operator} (h : s.cons c = parts left op right) :
    ∃ left', left = c :: left' ∧ s = parts left' op right := by
  cases s with
  | whole => cases h
  | unbalanced => cases h
  | parts left' op' right' =>
    cases h
    exact ⟨left', rfl, rfl⟩

/-- The two parts and the operator between them make up the text. -/
theorem eq_append_of_splitFrom {depth : Nat} {text left right : List Char} {op : Operator}
    (h : splitFrom depth text = .parts left op right) : text = left ++ op.symbol :: right := by
  induction text generalizing depth left with
  | nil => simp [splitFrom] at h
  | cons c text ih =>
    rw [splitFrom] at h
    split at h
    · simp at h
    · split at h
      · next hop =>
        simp only [Split.parts.injEq] at h
        obtain ⟨rfl, rfl, rfl⟩ := h
        split at hop
        · rw [Operator.ofChar?_eq_some.mp hop]
          rfl
        · simp at hop
      · obtain ⟨left', rfl, h'⟩ := Split.exists_of_cons_eq_parts h
        rw [ih h']
        rfl

theorem eq_append_of_splitAtOperator {text left right : List Char} {op : Operator}
    (h : splitAtOperator text = .parts left op right) :
    text = left ++ op.symbol :: right ∧ left ≠ [] := by
  unfold splitAtOperator at h
  split at h
  · simp at h
  · split at h
    · simp at h
    · obtain ⟨left', rfl, h'⟩ := Split.exists_of_cons_eq_parts h
      rw [eq_append_of_splitFrom h']
      simp

/-- The text inside the brackets of a negated group that is the whole text. -/
def negated? : List Char → Option (List Char)
  | [] => none
  | c :: group => if c = '-' then enclosed? group else none

theorem eq_of_negated? {text inner : List Char} (h : negated? text = some inner) :
    text = '-' :: '(' :: inner ++ [')'] := by
  unfold negated? at h
  split at h
  · simp at h
  · split at h
    · next hc => rw [hc, eq_of_enclosed? h]; rfl
    · simp at h

/-- How a text without enclosing brackets is put together. -/
inductive Shape where
  | numeral (value : Int)
  | negation (inner : List Char)
  | operation (left : List Char) (op : Operator) (right : List Char)
  /-- The text is no expression. -/
  | broken
  deriving DecidableEq, Repr

/-- The shape of a text. -/
def shape (text : List Char) : Shape :=
  match splitAtOperator text with
  | .unbalanced => .broken
  | .parts left op right => .operation left op right
  | .whole =>
    match negated? text with
    | some inner => .negation inner
    | none =>
      match Text.Numeral.toInt? text with
      | some value => .numeral value
      | none => .broken

theorem eq_of_shape_operation {text left right : List Char} {op : Operator}
    (h : shape text = .operation left op right) : text = left ++ op.symbol :: right := by
  unfold shape at h
  split at h
  · simp at h
  · next heq =>
    simp only [Shape.operation.injEq] at h
    obtain ⟨rfl, rfl, rfl⟩ := h
    exact (eq_append_of_splitAtOperator heq).1
  · split at h
    · simp at h
    · split at h <;> simp at h

theorem eq_of_shape_negation {text inner : List Char} (h : shape text = .negation inner) :
    text = '-' :: '(' :: inner ++ [')'] := by
  unfold shape at h
  split at h
  · simp at h
  · simp at h
  · split at h
    · next heq =>
      simp only [Shape.negation.injEq] at h
      subst h
      exact eq_of_negated? heq
    · split at h <;> simp at h

end ExactCalc.Formula
