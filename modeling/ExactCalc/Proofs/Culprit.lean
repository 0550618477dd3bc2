/-
What the reader refuses, and which part it reports.

* `Turn`, `partAt` — where the reader goes on from a level, and the part that it comes to;
* `isInfix_of_partAt` — that part stands in the text in one piece;
* `Culprit` — the part fails by itself, and every left operand on the way to it has a tree;
* `exists_culprit` — so it is with the part that is reported;
* `ofGrouped_eq_ok_iff_nested` — a text has a tree exactly if it is nested, and the tree is that of
  its nesting.
-/
import ExactCalc.Proofs.Nesting

namespace ExactCalc.Formula

/-- Where the reader goes on from a level.  A text may occur in itself more than once, and the turns
tell which occurrence is meant. -/
inductive Turn where
  /-- To the group behind a sign. -/
  | inside
  | left
  | right
  deriving DecidableEq, Repr

/-- The part of a text that the reader comes to by some turns, without the brackets that enclose
it. -/
def partAt : List Turn → List Char → Option (List Char)
  | [], text => some (stripBrackets text)
  | turn :: way, text =>
    match turn, shape (stripBrackets text) with
    | .inside, .negation inner => partAt way inner
    | .left, .operation left _ _ => partAt way left
    | .right, .operation _ _ right => partAt way right
    | _, _ => none

section PartAt

variable {text inner left right part : List Char} {op : Operator} {way : List Turn}

theorem partAt_inside (h : shape (stripBrackets text) = .negation inner) (way : List Turn) :
    partAt (.inside :: way) text = partAt way inner := by
  simp only [partAt, h]

theorem partAt_left (h : shape (stripBrackets text) = .operation left op right)
    (way : List Turn) : partAt (.left :: way) text = partAt way left := by
  simp only [partAt, h]

theorem partAt_right (h : shape (stripBrackets text) = .operation left op right)
    (way : List Turn) : partAt (.right :: way) text = partAt way right := by
  simp only [partAt, h]

theorem isInfix_stripBrackets (text : List Char) : stripBrackets text <:+: text := by
  fun_induction stripBrackets text with
  | case1 text inner h _ ih =>
    refine ih.trans ?_
    rw [eq_of_enclosed? h]
    exact ⟨['('], [')'], rfl⟩
  | case2 text h => exact List.infix_refl text

/-- What the reader comes to is a part of the text in one piece. -/
theorem isInfix_of_partAt (h : partAt way text = some part) : part <:+: text := by
  induction way generalizing text with
  | nil =>
    cases h
    exact isInfix_stripBrackets text
  | cons turn way ih =>
    have hstrip := isInfix_stripBrackets text
    unfold partAt at h
    split at h
    · next inner hs =>
      rw [eq_of_shape_negation hs] at hstrip
      exact (ih h).trans (List.IsInfix.trans ⟨['-', '('], [')'], rfl⟩ hstrip)
    · next left op right hs =>
      rw [eq_of_shape_operation hs] at hstrip
      exact (ih h).trans (List.IsInfix.trans (List.prefix_append _ _).isInfix hstrip)
    · next left op right hs =>
      rw [eq_of_shape_operation hs] at hstrip
      have hright : right <:+: left ++ op.symbol :: right := ⟨left ++ [op.symbol], [], by simp⟩
      exact (ih h).trans (hright.trans hstrip)
    · cases h

end PartAt

/-- A part of a text that the reader comes to by the turns `way` fails by itself, and it is the
first one from the left that does. -/
structure Culprit (text part : List Char) (way : List Turn) : Prop where
  reached : partAt way text = some part
  notEnclosed : enclosed? part = none
  /-- Read alone, the part is reported again. -/
  fails : Expr.ofGrouped part = .error (.malformed part)
  /-- Where the way goes on to the right of an operator, what stands to the left has a tree. -/
  leftmost : ∀ before after, way = before ++ .right :: after →
    ∃ level left op right, partAt before text = some level ∧
      splitAtOperator level = .parts left op right ∧ ∃ e, Expr.ofGrouped left = .ok e

namespace Culprit

variable {text inner part : List Char} {way : List Turn}

/-- A level of no shape is to blame itself. -/
theorem of_broken (h : shape (stripBrackets text) = .broken) :
    Culprit text (stripBrackets text) [] where
  reached := rfl
  notEnclosed := enclosed?_stripBrackets text
  fails := by
    have hstrip := stripBrackets_of_none (enclosed?_stripBrackets text)
    rw [Expr.ofGrouped_eq, hstrip, h]
  leftmost before after h := by simp at h

/-- What is to blame behind a turn is to blame in the whole text.  If the turn is to the right, the
part to the left has to have a tree. -/
theorem of_turn {turn : Turn} (hturn : ∀ way, partAt (turn :: way) text = partAt way inner)
    (hleft : turn = .right → ∃ left op right,
      splitAtOperator (stripBrackets text) = .parts left op right ∧
        ∃ e, Expr.ofGrouped left = .ok e)
    (h : Culprit inner part way) : Culprit text part (turn :: way) where
  reached := (hturn way).trans h.reached
  notEnclosed := h.notEnclosed
  fails := h.fails
  leftmost before after heq := by
    rcases List.cons_eq_append_iff.mp heq with ⟨rfl, hright⟩ | ⟨before, rfl, hway⟩
    · obtain ⟨left, op, right, hs, he⟩ := hleft (List.cons.inj hright).1.symm
      exact ⟨_, left, op, right, rfl, hs, he⟩
    · rw [hturn]
      exact h.leftmost before after hway

end Culprit

/-- The part that is reported is to blame. -/
theorem exists_culprit_of_ofGrouped {text : List Char} {f : Failure}
    (h : Expr.ofGrouped text = .error f) :
    ∃ part way, f = .malformed part ∧ Culprit text part way := by
  fun_induction Expr.ofGrouped text with
  | case1 text value hs => cases h
  | case2 text inner hs _ ih =>
    cases hr : Expr.ofGrouped inner with
    | ok e => simp [hr, Except.map] at h
    | error g =>
      simp only [hr, Except.map, Except.error.injEq] at h
      subst h
      obtain ⟨part, way, rfl, hc⟩ := ih hr
      exact ⟨part, .inside :: way, rfl, hc.of_turn (partAt_inside hs) (by simp)⟩
  | case3 text left op right hs _ _ _ ihl ihr =>
    cases hl : Expr.ofGrouped left with
    | error g =>
      simp only [hl, bind, Except.bind, Except.error.injEq] at h
      subst h
      obtain ⟨part, way, rfl, hc⟩ := ihl hl
      exact ⟨part, .left :: way, rfl, hc.of_turn (partAt_left hs) (by simp)⟩
    | ok l =>
      -- the right operand is read only now
      cases hr : Expr.ofGrouped right with
      | ok r => simp [hl, hr, bind, Except.bind, pure, Except.pure] at h
      | error g =>
        simp only [hl, hr, bind, Except.bind, Except.error.injEq] at h
        subst h
        obtain ⟨part, way, rfl, hc⟩ := ihr hr
        have hleft : Turn.right = .right → ∃ left op right,
            splitAtOperator (stripBrackets text) = .parts left op right ∧
              ∃ e, Expr.ofGrouped left = .ok e :=
          fun _ => ⟨left, op, right, splitAtOperator_of_shape hs, l, hl⟩
        exact ⟨part, .right :: way, rfl, hc.of_turn (partAt_right hs) hleft⟩
  | case4 text hs =>
    cases h
    exact ⟨stripBrackets text, [], rfl, .of_broken hs⟩

/-- **What is reported about a text without a tree is a part of it in one piece, and to blame**: no
brackets enclose it, read alone it is reported again, and it is the first such part from the
left. -/
theorem exists_culprit {text : List Char} {f : Failure} (h : Expr.ofGrouped text = .error f) :
    ∃ part way, f = .malformed part ∧ part <:+: text ∧ Culprit text part way := by
  obtain ⟨part, way, hf, hc⟩ := exists_culprit_of_ofGrouped h
  exact ⟨part, way, hf, isInfix_of_partAt hc.reached, hc⟩

/-- Two parts fail, and the left one is reported, without its brackets. -/
theorem exists_culprit_left_of_two :
    Expr.ofGrouped "(1-2)*(-(3+(4.5))/x)".toList = .error (.malformed "4.5".toList) ∧
      Expr.ofGrouped "x".toList = .error (.malformed "x".toList) ∧
      ∃ way, Culprit "(1-2)*(-(3+(4.5))/x)".toList "4.5".toList way := by
  have herror : Expr.ofGrouped "(1-2)*(-(3+(4.5))/x)".toList =
      .error (.malformed "4.5".toList) := by
    decide +kernel
  obtain ⟨part, way, hpart, -, hc⟩ := exists_culprit herror
  cases hpart
  exact ⟨herror, by decide +kernel, way, hc⟩

/-- **A text has a tree exactly if it is nested, and the tree is that of its nesting.**  About any
other text a part of it is reported. -/
theorem ofGrouped_eq_ok_iff_nested (text : List Char) :
    (∀ e, Expr.ofGrouped text = .ok e ↔ Nested .level text e) ∧
      ((∃ part, Expr.ofGrouped text = .error (.malformed part)) ↔
        ¬∃ e, Nested .level text e) := by
  constructor
  · exact fun e => ⟨nested_of_ofGrouped, ofGrouped_of_nested⟩
  · constructor
    · rintro ⟨part, herror⟩ ⟨e, hnested⟩
      rw [ofGrouped_of_nested hnested] at herror
      cases herror
    · intro hnone
      cases hr : Expr.ofGrouped text with
      | ok e => exact absurd ⟨e, nested_of_ofGrouped hr⟩ hnone
      | error f =>
        obtain ⟨part, way, rfl, -⟩ := exists_culprit_of_ofGrouped hr
        exact ⟨part, rfl⟩

end ExactCalc.Formula
