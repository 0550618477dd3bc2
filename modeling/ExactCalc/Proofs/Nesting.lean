/-
The reader accepts the nested texts and no others.

* `splitAtOperator_operand` — the search for an operator outside brackets goes past an operand;
* `ofGrouped_of_nested` — a nested text is read as its tree;
* `nested_of_ofGrouped` — what is read is nested;
* `Derivation.nested` — a derived text is nested to its tree, if no level has two operators.
-/
import ExactCalc.Expr.Reader
import ExactCalc.Proofs.Precedence

namespace ExactCalc.Formula

/-! ### The search for an operator -/

namespace Split

/-- The same finding for the text with another text in front. -/
def prepend (text : List Char) (s : Split) : Split :=
  text.foldr cons s

@[simp]
theorem prepend_nil (s : Split) : s.prepend [] = s := rfl

@[simp]
theorem prepend_cons (c : Char) (text : List Char) (s : Split) :
    s.prepend (c :: text) = (s.prepend text).cons c := rfl

theorem prepend_append (u v : List Char) (s : Split) :
    s.prepend (u ++ v) = (s.prepend v).prepend u :=
  List.foldr_append

@[simp]
theorem prepend_whole (text : List Char) : whole.prepend text = whole := by
  induction text with
  | nil => rfl
  | cons c text ih => rw [prepend_cons, ih, cons]

@[simp]
theorem prepend_unbalanced (text : List Char) : unbalanced.prepend text = unbalanced := by
  induction text with
  | nil => rfl
  | cons c text ih => rw [prepend_cons, ih, cons]

@[simp]
theorem prepend_parts (text left : List Char) (op : Operator) (right : List Char) :
    (parts left op right).prepend text = parts (text ++ left) op right := by
  induction text with
  | nil => rfl
  | cons c text ih => rw [prepend_cons, ih, cons, List.cons_append]

end Split

theorem splitFrom_operator (op : Operator) (rest : List Char) :
    splitFrom 0 (op.symbol :: rest) = .parts [] op rest := by
  simp [splitFrom, op.symbol_ne_closing]

/-- Between brackets no operator counts. -/
theorem splitFrom_balanced {inner : List Char} (h : Balanced '(' ')' inner) (depth : Nat)
    (rest : List Char) :
    splitFrom (depth + 1) (inner ++ rest) = (splitFrom (depth + 1) rest).prepend inner := by
  induction h generalizing depth rest with
  | nil => rfl
  | @plain c text hs hp _ ih =>
    simp [splitFrom, depthAfter, hs, hp, ih]
  | @group inner text _ _ ihi ih =>
    simp only [List.cons_append, List.append_assoc]
    simp [splitFrom, depthAfter, ihi, ih, Split.prepend_append]

theorem splitFrom_group {inner : List Char} (h : Balanced '(' ')' inner) (rest : List Char) :
    splitFrom 0 ('(' :: (inner ++ ')' :: rest)) =
      (splitFrom 0 rest).prepend ('(' :: (inner ++ [')'])) := by
  have hopen : Operator.ofChar? '(' = none := rfl
  simp [splitFrom, depthAfter, hopen, splitFrom_balanced h, Split.prepend_append]

theorem splitFrom_digits {digits : List Char} (h : ∀ c ∈ digits, c.isDigit = true)
    (rest : List Char) : splitFrom 0 (digits ++ rest) = (splitFrom 0 rest).prepend digits := by
  induction digits with
  | nil => rfl
  | cons c digits ih =>
    have hc := h c List.mem_cons_self
    have hs : c ≠ '(' := ne_of_isDigit hc rfl
    have hp : c ≠ ')' := ne_of_isDigit hc rfl
    have ih := ih fun d hd => h d (List.mem_cons_of_mem c hd)
    simp [splitFrom, depthAfter, hs, hp, Operator.ofChar?_of_isDigit hc, ih]

/-- The first character counts only if it is an operator. -/
theorem splitAtOperator_eq_splitFrom {c : Char} (h : Operator.ofChar? c = none) (text : List Char) :
    splitAtOperator (c :: text) = splitFrom 0 (c :: text) := by
  simp [splitAtOperator, splitFrom, h]

theorem splitAtOperator_sign (text : List Char) :
    splitAtOperator ('-' :: text) = (splitFrom 0 text).cons '-' := rfl

/-! ### Nested texts -/

theorem Nested.balanced {part : Part} {text : List Char} {e : Expr} (h : Nested part text e) :
    Balanced '(' ')' text := by
  induction h with
  | digits run => exact run.balanced rfl rfl
  | negative run => exact .plain (by decide) (by decide) (run.balanced rfl rfl)
  | group _ ih => exact ih.enclose
  | negation _ ih => exact .plain (by decide) (by decide) ih.enclose
  | single _ ih => exact ih
  | operation op _ _ ihl ihr =>
    exact ihl.append (.plain op.symbol_ne_opening op.symbol_ne_closing ihr)

/-- What stands between the brackets of a group is nested. -/
theorem Nested.inner {inner : List Char} {e : Expr}
    (h : Nested .operand ('(' :: (inner ++ [')'])) e) : Nested .level inner e := by
  generalize htext : '(' :: (inner ++ [')']) = text at h
  cases h with
  | digits run =>
    obtain ⟨c, digits, hrun, hc⟩ := run.exists_cons
    rw [hrun] at htext
    cases htext
    cases hc
  | group hi =>
    simp only [List.cons.injEq, List.append_cancel_right_eq, true_and] at htext
    exact htext ▸ hi
  | negative run => cases htext
  | negation hi => cases htext

/-- The search goes past an operand. -/
theorem splitAtOperator_operand {left : List Char} {e : Expr} (h : Nested .operand left e)
    (rest : List Char) : splitAtOperator (left ++ rest) = (splitFrom 0 rest).prepend left := by
  cases h with
  | digits run =>
    obtain ⟨c, digits, hrun, hc⟩ := run.exists_cons
    rw [← splitFrom_digits run.isDigit_of_mem, hrun, List.cons_append]
    exact splitAtOperator_eq_splitFrom (Operator.ofChar?_of_isDigit hc) _
  | negative run =>
    rw [List.cons_append, splitAtOperator_sign, splitFrom_digits run.isDigit_of_mem]
    rfl
  | group hi =>
    rw [← splitFrom_group hi.balanced, List.cons_append, List.append_assoc, List.singleton_append]
    exact splitAtOperator_eq_splitFrom rfl _
  | negation hi =>
    simp only [List.cons_append, List.append_assoc, List.nil_append]
    rw [splitAtOperator_sign, splitFrom_group hi.balanced]
    rfl

theorem splitAtOperator_single {text : List Char} {e : Expr} (h : Nested .operand text e) :
    splitAtOperator text = .whole := by
  have := splitAtOperator_operand h []
  rwa [List.append_nil, splitFrom, Split.prepend_whole] at this

theorem splitAtOperator_operation {left right : List Char} {e : Expr} {op : Operator}
    (h : Nested .operand left e) :
    splitAtOperator (left ++ op.symbol :: right) = .parts left op right := by
  rw [splitAtOperator_operand h, splitFrom_operator, Split.prepend_parts, List.append_nil]

theorem enclosed?_of_ne {c : Char} {text : List Char} (h : c ≠ '(') :
    enclosed? (c :: text) = none := by
  simp [enclosed?, h]

theorem enclosed?_of_isDigit {text : List Char} (h : ∀ c ∈ text.head?, c.isDigit = true) :
    enclosed? text = none := by
  cases text with
  | nil => rfl
  | cons c text =>
    refine enclosed?_of_ne ?_
    rintro rfl
    exact absurd (h '(' rfl) (by decide)

theorem DigitRun.isDigit_head (run : DigitRun) : ∀ c ∈ run.val.head?, c.isDigit = true :=
  fun c hc => run.isDigit_of_mem c (List.mem_of_mem_head? hc)

/-- An operation is not enclosed, although it may begin and end with a bracket. -/
theorem enclosed?_operation {left right : List Char} {e : Expr} {op : Operator}
    (h : Nested .operand left e) : enclosed? (left ++ op.symbol :: right) = none := by
  cases h with
  | digits run =>
    obtain ⟨c, digits, hrun, hc⟩ := run.exists_cons
    exact enclosed?_of_isDigit (by simp [hrun, hc])
  | negative run => exact enclosed?_of_ne (by decide)
  | negation hi => exact enclosed?_of_ne (by decide)
  | @group inner _ hi =>
    have hsplit : splitAtPartner '(' ')' 0 (inner ++ ')' :: op.symbol :: right) =
        some (inner, op.symbol :: right) :=
      (splitAtPartner_eq_some_iff (by decide)).mpr ⟨rfl, hi.balanced⟩
    simp [enclosed?, hsplit]

theorem enclosed?_digits (run : DigitRun) : enclosed? run.val = none :=
  enclosed?_of_isDigit run.isDigit_head

theorem toInt?_digits (run : DigitRun) : Text.Numeral.toInt? run.val = some run.value := by
  obtain ⟨c, digits, hrun, hc⟩ := run.exists_cons
  have hne : c ≠ '-' := ne_of_isDigit hc rfl
  have hnat : Text.Numeral.toNat? run.val = some (Nat.ofDigitChars 10 run.val 0) :=
    if_pos run.property
  rw [hrun] at hnat
  rw [hrun, Text.Numeral.toInt?, if_neg hne, hnat, DigitRun.value, hrun]
  rfl

theorem toInt?_negative (run : DigitRun) :
    Text.Numeral.toInt? ('-' :: run.val) = some (-run.value) := by
  have hnat : Text.Numeral.toNat? run.val = some (Nat.ofDigitChars 10 run.val 0) :=
    if_pos run.property
  rw [Text.Numeral.toInt?, if_pos rfl, hnat]
  rfl

theorem exists_run_of_toNat? {digits : List Char} {n : Nat}
    (h : Text.Numeral.toNat? digits = some n) :
    ∃ run : DigitRun, digits = run.val ∧ run.value = n := by
  rw [Text.Numeral.toNat?] at h
  split at h
  · next hd =>
    cases h
    exact ⟨⟨digits, hd⟩, rfl, rfl⟩
  · cases h

/-- A numeral is a run of digits, with a sign or without. -/
theorem nested_of_toInt? {text : List Char} {v : Int} (h : Text.Numeral.toInt? text = some v) :
    Nested .operand text (.literal v) := by
  cases text with
  | nil => cases h
  | cons c digits =>
    rw [Text.Numeral.toInt?] at h
    split at h
    · next hc =>
      obtain ⟨n, hn, rfl⟩ : ∃ n, Text.Numeral.toNat? digits = some n ∧ -(n : Int) = v := by
        cases hn : Text.Numeral.toNat? digits <;> simp_all
      obtain ⟨run, rfl, hv⟩ := exists_run_of_toNat? hn
      rw [hc, ← hv]
      exact .negative run
    · obtain ⟨n, hn, rfl⟩ : ∃ n, Text.Numeral.toNat? (c :: digits) = some n ∧ (n : Int) = v := by
        cases hn : Text.Numeral.toNat? (c :: digits) <;> simp_all
      obtain ⟨run, hrun, hv⟩ := exists_run_of_toNat? hn
      rw [hrun, ← hv]
      exact .digits run

/-! ### Reading -/

theorem ofGrouped_of_enclosed? {text inner : List Char} (h : enclosed? text = some inner) :
    Expr.ofGrouped text = Expr.ofGrouped inner := by
  rw [Expr.ofGrouped_eq, Expr.ofGrouped_eq inner, stripBrackets_of_enclosed? h]

/-- **A nested text is read as its tree.** -/
theorem ofGrouped_of_nested {part : Part} {text : List Char} {e : Expr} (h : Nested part text e) :
    Expr.ofGrouped text = .ok e := by
  induction h with
  | digits run =>
    have hshape : shape run.val = .numeral run.value := by
      have hneg : negated? run.val = none := by
        obtain ⟨c, digits, hrun, hc⟩ := run.exists_cons
        have hne : c ≠ '-' := ne_of_isDigit hc rfl
        simp [hrun, negated?, hne]
      simp [shape, splitAtOperator_single (.digits run), hneg, toInt?_digits]
    rw [Expr.ofGrouped_eq, stripBrackets_of_none (enclosed?_digits run), hshape]
  | negative run =>
    have hshape : shape ('-' :: run.val) = .numeral (-run.value) := by
      simp [shape, splitAtOperator_single (.negative run), negated?, enclosed?_digits,
        toInt?_negative]
    rw [Expr.ofGrouped_eq, stripBrackets_of_none (enclosed?_of_ne (by decide)), hshape]
  | @group inner e hi ih =>
    rw [ofGrouped_of_enclosed? (enclosed?_eq_some_iff.mpr ⟨rfl, hi.balanced⟩), ih]
  | @negation inner e hi ih =>
    have hinner := enclosed?_eq_some_iff.mpr ⟨rfl, hi.balanced⟩
    have hshape : shape ('-' :: '(' :: (inner ++ [')'])) = .negation inner := by
      simp [shape, splitAtOperator_single (.negation hi), negated?, hinner]
    rw [Expr.ofGrouped_eq, stripBrackets_of_none (enclosed?_of_ne (by decide)), hshape]
    simp only [ih, Except.map, Expr.negate]
  | single _ ih => exact ih
  | @operation left right l r op hl hr ihl ihr =>
    have hshape : shape (left ++ op.symbol :: right) = .operation left op right := by
      simp [shape, splitAtOperator_operation hl]
    rw [Expr.ofGrouped_eq, stripBrackets_of_none (enclosed?_operation hl), hshape]
    simp only [ihl, ihr]
    rfl

/-- Enclosing brackets leave a text nested. -/
theorem nested_of_stripBrackets {text : List Char} {e : Expr}
    (h : Nested .level (stripBrackets text) e) : Nested .level text e := by
  fun_induction stripBrackets text with
  | case1 text inner hi _ ih =>
    rw [eq_of_enclosed? hi]
    exact .single (.group (ih h))
  | case2 text hi => exact h

theorem splitAtOperator_of_shape {text left right : List Char} {op : Operator}
    (h : shape text = .operation left op right) : splitAtOperator text = .parts left op right := by
  rw [shape] at h
  split at h
  · cases h
  · next heq =>
    cases h
    exact heq
  · split at h
    · cases h
    · split at h <;> cases h

theorem toInt?_of_shape {text : List Char} {v : Int} (h : shape text = .numeral v) :
    Text.Numeral.toInt? text = some v := by
  rw [shape] at h
  split at h
  · cases h
  · cases h
  · split at h
    · cases h
    · split at h
      · next heq =>
        cases h
        exact heq
      · cases h

/-- The part before the first operator holds no operator outside brackets. -/
theorem nested_operand_of_split {left right : List Char} {op : Operator} {e : Expr}
    (h : splitAtOperator (left ++ op.symbol :: right) = .parts left op right)
    (hl : Nested .level left e) : Nested .operand left e := by
  cases hl with
  | single ho => exact ho
  -- an operation would have been cut at its own operator
  | @operation u v l r op' hu hv =>
    rw [List.append_assoc, List.cons_append, splitAtOperator_operation hu] at h
    simp only [Split.parts.injEq] at h
    have := congrArg List.length h.1
    simp at this

/-- **What is read is nested.** -/
theorem nested_of_ofGrouped {text : List Char} {e : Expr} (h : Expr.ofGrouped text = .ok e) :
    Nested .level text e := by
  refine nested_of_stripBrackets ?_
  fun_induction Expr.ofGrouped text generalizing e with
  | case1 text value hs =>
    cases h
    exact .single (nested_of_toInt? (toInt?_of_shape hs))
  | case2 text inner hs _ ih =>
    rw [eq_of_shape_negation hs]
    cases hr : Expr.ofGrouped inner with
    | error f => simp [hr, Except.map] at h
    | ok e' =>
      simp only [hr, Except.map, Except.ok.injEq] at h
      subst h
      exact .single (.negation (nested_of_stripBrackets (ih hr)))
  | case3 text left op right hs _ _ _ ihl ihr =>
    rw [eq_of_shape_operation hs]
    cases hl : Expr.ofGrouped left with
    | error f => simp [hl, bind, Except.bind] at h
    | ok l =>
      cases hr : Expr.ofGrouped right with
      | error f => simp [hl, hr, bind, Except.bind] at h
      | ok r =>
        simp only [hl, hr, bind, Except.bind, pure, Except.pure, Except.ok.injEq] at h
        subst h
        -- the cut is at the first operator, so that the left part is a single operand
        have hsplit := splitAtOperator_of_shape hs
        rw [eq_of_shape_operation hs] at hsplit
        exact .operation op (nested_operand_of_split hsplit (nested_of_stripBrackets (ihl hl)))
          (nested_of_stripBrackets (ihr hr))
  | case4 text hs => cases h

/-! ### Derived texts -/

namespace Derivation

/-- A sign in front of an operand. -/
theorem nested_first (signed : Bool) {operand : Derivation .operand}
    (h : Nested .operand operand.text operand.tree) :
    Nested .operand (first signed operand).text (first signed operand).tree := by
  cases signed with
  | false =>
    rw [tree_unsigned]
    exact h
  | true =>
    cases operand with
    | digits run => exact .negative run
    | group inner =>
      rw [tree_group] at h
      rw [tree_signed_group]
      exact .negation h.inner

/-- A derived text is nested to its tree, if no level has two operators: then there is no choice of
where to cut it. -/
theorem nested {part : Part} (d : Derivation part) (h : d.SingleOperators) :
    (d.operators = [] → Nested .operand d.text d.tree) ∧
      (d.operators.length ≤ 1 → Nested .level d.text d.tree) := by
  induction d with
  | digits run => exact ⟨fun _ => .digits run, fun _ => .single (.digits run)⟩
  | group inner ih =>
    rw [tree_group]
    have hinner : Nested .level inner.text inner.tree := (ih h.2).2 h.1
    exact ⟨fun _ => .group hinner, fun _ => .single (.group hinner)⟩
  | first signed operand ih =>
    have hfirst := nested_first signed ((ih h).1 operand.operators_operand)
    exact ⟨fun _ => hfirst, fun _ => .single hfirst⟩
  | more before op operand ihb ihp =>
    constructor
    · intro hnil
      simp [operators] at hnil
    · intro hlen
      have hbefore : before.operators = [] := operators_eq_nil_of_length hlen
      rw [tree_more_of_operators_eq_nil hbefore]
      exact .operation op ((ihb h.1).1 hbefore)
        (.single ((ihp h.2).1 operand.operators_operand))

end Derivation

end ExactCalc.Formula
