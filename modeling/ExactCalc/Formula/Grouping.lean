/-
Making the grouping of a formula explicit.

A bracket pair is put round every operator together with its two operands, unless the pair is
there already.  Operators of the tighter tier come first, so that their groups end up inside the
groups of the other tier, and the operators of one tier are taken from left to right.

* `Cursor` — a text with a position in it;
* `Site` — an operator with what stands on its two sides; `Cursor.site?` finds the next one;
* `Site.resume` — brackets put round the operator and its operands, if they are missing;
* `groupTier`, `group` — all operators of one tier, and of both.

Design notes: the part before a cursor is kept in reverse, nearest character first, so that the
operand on the left is read like the one on the right.  After a site the cursor stands just
behind the operator: the operators in its right operand are still to come.  Nothing is assumed
about the text, an operand that is missing is empty.
-/
import ExactCalc.Formula.Bracket
import ExactCalc.Operator

namespace ExactCalc.Formula

/-- A bracket level begins behind the reversed text `before`. -/
def opensLevel : List Char → Bool
  | [] => true
  | c :: _ => c == '('

/-- Whether `c` is a sign if it stands behind the reversed text `before`. -/
def isSign (before : List Char) (c : Char) : Bool :=
  c == '-' && opensLevel before

/-- A sign at the front of a reversed text, and the rest of the text. -/
def splitSign : List Char → List Char × List Char
  | [] => ([], [])
  | c :: before => if isSign before c then ([c], before) else ([], c :: before)

@[simp]
theorem splitSign_append (before : List Char) :
    (splitSign before).1 ++ (splitSign before).2 = before := by
  unfold splitSign
  split
  · rfl
  · split <;> rfl

/-- A text with a position in it.  The part before the position is reversed. -/
structure Cursor where
  before : List Char
  after : List Char
  deriving DecidableEq, Repr

/-- The text a cursor stands in. -/
def Cursor.text (c : Cursor) : List Char :=
  c.before.reverse ++ c.after

/-- An operator and the text on its two sides, the text before it reversed. -/
structure Site where
  before : List Char
  symbol : Char
  after : List Char
  deriving DecidableEq, Repr

namespace Site

/-- The text a site is part of. -/
def text (s : Site) : List Char :=
  s.before.reverse ++ s.symbol :: s.after

/-- The left operand with its sign, and what stands before it, both reversed. -/
def left (s : Site) : List Char × List Char :=
  let (operand, outer) := splitOperand ')' '(' s.before
  let (sign, outer) := splitSign outer
  (operand ++ sign, outer)

/-- The right operand, and what stands behind it. -/
def right (s : Site) : List Char × List Char :=
  splitOperand '(' ')' s.after

/-- The operator and its operands stand between brackets. -/
def isGrouped (s : Site) : Bool :=
  s.left.2.head? == some '(' && s.right.2.head? == some ')'

/-- Groups the operator with its operands, and goes on just behind the operator. -/
def resume (s : Site) : Cursor :=
  if s.isGrouped then ⟨s.symbol :: s.before, s.after⟩
  else ⟨s.symbol :: (s.left.1 ++ '(' :: s.left.2), s.right.1 ++ ')' :: s.right.2⟩

@[simp]
theorem left_append (s : Site) : s.left.1 ++ s.left.2 = s.before := by
  simp [left]

@[simp]
theorem right_append (s : Site) : s.right.1 ++ s.right.2 = s.after := by
  simp [right]

theorem text_resume_of_isGrouped {s : Site} (h : s.isGrouped = true) :
    s.resume.text = s.text := by
  simp [resume, h, Cursor.text, text]

theorem text_resume_of_not_isGrouped {s : Site} (h : s.isGrouped = false) :
    s.resume.text = s.left.2.reverse ++ '(' :: (s.left.1.reverse ++ s.symbol ::
      (s.right.1 ++ ')' :: s.right.2)) := by
  simp [resume, h, Cursor.text]

end Site

namespace Cursor

/-- The next operator of a tier at or behind the cursor.  A sign is no operator. -/
def site? (tier : Tier) : (before after : List Char) → Option Site
  | _, [] => none
  | before, c :: after =>
    if tier.holds c && !isSign before c then some ⟨before, c, after⟩
    else site? tier (c :: before) after

/-- One step of a pass: groups the next operator of the tier, if there is one. -/
def next? (tier : Tier) (c : Cursor) : Option Cursor :=
  (site? tier c.before c.after).map Site.resume

/-- How many characters at or behind the cursor are operators of the tier or look like one. -/
def pending (tier : Tier) (c : Cursor) : Nat :=
  c.after.countP tier.holds

theorem countP_of_site? {tier : Tier} {before after : List Char} {s : Site}
    (h : site? tier before after = some s) :
    s.after.countP tier.holds < after.countP tier.holds := by
  induction after generalizing before with
  | nil => simp [site?] at h
  | cons c after ih =>
    rw [site?] at h
    split at h
    · next hc =>
      cases h
      simp_all
    · exact Nat.lt_of_lt_of_le (ih h) ((List.sublist_cons_self c after).countP_le)

theorem not_holds_close (tier : Tier) : tier.holds ')' = false := by
  cases tier <;> rfl

@[simp]
theorem pending_resume (tier : Tier) (s : Site) :
    s.resume.pending tier = s.after.countP tier.holds := by
  unfold Site.resume pending
  split
  · rfl
  · have h := congrArg (List.countP tier.holds) s.right_append
    rw [List.countP_append] at h
    simp [not_holds_close, h]

/-- A step leaves fewer operators to visit, although the text may grow. -/
theorem pending_of_next? {tier : Tier} {c c' : Cursor} (h : c.next? tier = some c') :
    c'.pending tier < c.pending tier := by
  obtain ⟨s, hs, rfl⟩ := Option.map_eq_some_iff.mp h
  rw [pending_resume]
  exact countP_of_site? hs

/-- The text after all steps of a pass from a cursor on. -/
def finish (tier : Tier) (c : Cursor) : List Char :=
  match h : c.next? tier with
  | some c' =>
    have := pending_of_next? h
    finish tier c'
  | none => c.text
termination_by c.pending tier

theorem finish_of_next? {tier : Tier} {c c' : Cursor} (h : c.next? tier = some c') :
    c.finish tier = c'.finish tier := by
  rw [finish]
  split <;> simp_all

theorem finish_of_none {tier : Tier} {c : Cursor} (h : c.next? tier = none) :
    c.finish tier = c.text := by
  rw [finish]
  split <;> simp_all

end Cursor

/-- A text with the operators of one tier grouped. -/
def groupTier (text : List Char) (tier : Tier) : List Char :=
  Cursor.finish tier ⟨[], text⟩

/-- A text with all its operators grouped. -/
def group (text : List Char) : List Char :=
  Tier.groupingOrder.foldl groupTier text

theorem group_eq (text : List Char) :
    group text = groupTier (groupTier text .multiplicative) .additive := rfl

end ExactCalc.Formula
