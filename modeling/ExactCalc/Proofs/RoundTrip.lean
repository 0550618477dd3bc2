/-
Printing and reading are inverse to each other.

* `Expr.derivation` — the derivation of the printed text of any expression;
* `Expr.text_derivation`, `Expr.tree_derivation` — its text is what is printed, and its tree is the
  expression;
* `Expr.isExplicit_derivation` — all operators of a printed text are grouped;
* `print_read_inverse` — grouping leaves a printed text as it is, and all readers give back the
  expression.
-/
import ExactCalc.Datum
import ExactCalc.Proofs.Parsing

namespace ExactCalc

open Formula

/-- The decimal digits of a natural number. -/
def Formula.DigitRun.ofNat (n : Nat) : DigitRun :=
  ⟨Nat.toDigits 10 n, Nat.toDigits_ne_nil, List.all_eq_true.mpr fun _ hc =>
    Nat.isDigit_of_mem_toDigits (by decide) (by decide) hc⟩

@[simp]
theorem Formula.DigitRun.value_ofNat (n : Nat) : (DigitRun.ofNat n).value = n := by
  have h : Text.Numeral.toNat? (DigitRun.ofNat n).val = some n := Text.Numeral.toNat?_toDigits n
  rw [Text.Numeral.toNat?, if_pos (DigitRun.ofNat n).property] at h
  rw [DigitRun.value, Option.some.inj h]

namespace Expr

/-- How the printed text of an operand is derived. -/
def operandDerivation : Expr → Derivation .operand
  | literal (.ofNat n) => .digits (.ofNat n)
  | literal (.negSucc n) => .group (.first true (.digits (.ofNat (n + 1))))
  | binary op left right =>
    .group (.more (.first false left.operandDerivation) op right.operandDerivation)

/-- How the printed text of an expression is derived. -/
def derivation : Expr → Derivation .level
  | literal (.ofNat n) => .first false (.digits (.ofNat n))
  | literal (.negSucc n) => .first true (.digits (.ofNat (n + 1)))
  | binary op left right => .first false (operandDerivation (binary op left right))

theorem printOperand_binary (op : Operator) (left right : Expr) :
    (binary op left right).printOperand = (binary op left right).print := rfl

theorem text_operandDerivation (e : Expr) : e.operandDerivation.text = e.printOperand := by
  induction e with
  | literal v =>
    cases v with
    | ofNat n => rfl
    | negSucc n =>
      rw [printOperand_literal, if_pos (Int.negSucc_lt_zero n)]
      rfl
  | binary op left right ihl ihr =>
    rw [printOperand_binary, print_binary, operandDerivation]
    simp [Derivation.text, ihl, ihr]

theorem text_derivation (e : Expr) : e.derivation.text = e.print := by
  cases e with
  | literal v =>
    cases v with
    | ofNat n => rfl
    | negSucc n => rfl
  | binary op left right => exact text_operandDerivation (binary op left right)

theorem tree_operandDerivation (e : Expr) : e.operandDerivation.tree = e := by
  induction e with
  | literal v =>
    cases v with
    | ofNat n => simp [operandDerivation, Derivation.tree_digits]
    | negSucc n =>
      simp [operandDerivation, Derivation.tree_group, Derivation.tree_signed_digits,
        Int.negSucc_eq]
  | binary op left right ihl ihr =>
    rw [operandDerivation, Derivation.tree_group, Derivation.tree_more_of_operators_eq_nil rfl,
      Derivation.tree_unsigned, ihl, ihr]

theorem tree_derivation (e : Expr) : e.derivation.tree = e := by
  cases e with
  | literal v =>
    cases v with
    | ofNat n => simp [derivation, Derivation.tree_unsigned, Derivation.tree_digits]
    | negSucc n => simp [derivation, Derivation.tree_signed_digits, Int.negSucc_eq]
  | binary op left right =>
    rw [derivation, Derivation.tree_unsigned, tree_operandDerivation]

theorem singleOperators_operandDerivation (e : Expr) :
    e.operandDerivation.SingleOperators := by
  induction e with
  | literal v =>
    cases v with
    | ofNat n => trivial
    | negSucc n => exact ⟨Nat.zero_le 1, trivial⟩
  | binary op left right ihl ihr => exact ⟨Nat.le_refl 1, ihl, ihr⟩

/-- All operators of a printed text are grouped. -/
theorem isExplicit_derivation (e : Expr) : e.derivation.IsExplicit := by
  cases e with
  | literal v =>
    cases v with
    | ofNat n => exact ⟨trivial, rfl⟩
    | negSucc n => exact ⟨trivial, rfl⟩
  | binary op left right => exact ⟨singleOperators_operandDerivation (binary op left right), rfl⟩

theorem group_print (e : Expr) : group e.print = e.print := by
  have h : group e.derivation.text = e.derivation.grouped.text := group_text e.derivation
  rw [e.isExplicit_derivation.grouped_eq_self, text_derivation] at h
  exact h

theorem parse_print (e : Expr) : parse e.print = .ok e := by
  have h : e.derivation.text = Text.dropBlanks e.print := by
    rw [← text_derivation, Derivation.dropBlanks_text]
  rw [parse_of_derivation e.derivation h, tree_derivation]

/-- What is printed has the value of the expression. -/
theorem evaluate_print (e : Expr) : evaluate e.print = e.eval := by
  rw [evaluate, parse_print]
  rfl

theorem ofGrouped_print (e : Expr) : ofGrouped e.print = .ok e := by
  -- what holds behind the grouping holds at once, since grouping leaves the text as it is
  have h := ofGrouped_group_text e.derivation
  rw [text_derivation, group_print, tree_derivation] at h
  exact h

theorem print_injective {e e' : Expr} (h : e.print = e'.print) : e = e' := by
  have hparse := parse_print e
  rw [h, parse_print] at hparse
  exact (Except.ok.inj hparse).symm

theorem toJson_injective {e e' : Expr} (h : e.toJson = e'.toJson) : e = e' := by
  have hlist := congrArg String.toList h
  simp only [toJson, String.toList_append, String.toList_ofList, List.append_cancel_right_eq,
    List.append_cancel_left_eq] at hlist
  exact print_injective hlist

/-- **Printing and reading are inverse to each other, for every expression.** -/
theorem print_read_inverse (e : Expr) :
    group e.print = e.print ∧ ofGrouped e.print = .ok e ∧ parse e.print = .ok e ∧
      ofDatum e.toDatum = .ok e ∧
      ∀ e' : Expr, (e'.print = e.print ↔ e' = e) ∧ (e'.toDatum = e.toDatum ↔ e' = e) ∧
        (e'.toJson = e.toJson ↔ e' = e) := by
  have hdatum : ofDatum e.toDatum = .ok e := by
    rw [toDatum, ofDatum, parse_print]
    rfl
  refine ⟨group_print e, ofGrouped_print e, parse_print e, hdatum, ?_⟩
  intro e'
  refine ⟨⟨print_injective, congrArg print⟩, ?_, ⟨toJson_injective, congrArg toJson⟩⟩
  constructor
  · intro h
    exact print_injective (Datum.string.inj h)
  · exact congrArg toDatum

end Expr

end ExactCalc
