/-
The texts of derivations.

* `Operator.isDigit_symbol`, `Operator.symbol_ne_opening`, `Operator.symbol_ne_closing` — operators
  are told from the other characters of a formula;
* `Derivation.balanced_text` — every bracket of a derived text has its partner;
* `Derivation.reverse_text_eq_cons` — a derived text ends with a digit or a closing bracket;
* `Derivation.dropBlanks_text` — a derived text holds no blanks.
-/
import ExactCalc.Formula.Grammar
import ExactCalc.Formula.Grouping
import ExactCalc.Proofs.Balance
import ExactCalc.Text.Blank

namespace ExactCalc

namespace Operator

@[simp]
theorem isDigit_symbol (op : Operator) : op.symbol.isDigit = false := by
  cases op <;> rfl

theorem ofChar?_of_isDigit {c : Char} (h : c.isDigit = true) : ofChar? c = none := by
  rw [Option.eq_none_iff_forall_ne_some]
  intro op hop
  rw [ofChar?_eq_some.mp hop, op.isDigit_symbol] at h
  cases h

theorem symbol_injective : Function.Injective symbol := by
  intro op op' h
  have hsome : ofChar? op.symbol = ofChar? op'.symbol := congrArg ofChar? h
  simpa using hsome

theorem symbol_ne_opening (op : Operator) : op.symbol ≠ '(' := by
  cases op <;> decide

theorem symbol_ne_closing (op : Operator) : op.symbol ≠ ')' := by
  cases op <;> decide

@[simp]
theorem isBlank_symbol (op : Operator) : Text.isBlank op.symbol = false := by
  cases op <;> rfl

end Operator

@[simp]
theorem Tier.holds_symbol (tier : Tier) (op : Operator) :
    tier.holds op.symbol = (op.tier == tier) := by
  simp [Tier.holds]

theorem Tier.holds_eq_true {tier : Tier} {c : Char} :
    tier.holds c = true ↔ ∃ op : Operator, c = op.symbol ∧ op.tier = tier := by
  simp only [Tier.holds, Option.any_eq_true, Operator.ofChar?_eq_some, beq_iff_eq]

theorem Tier.holds_of_isDigit (tier : Tier) {c : Char} (h : c.isDigit = true) :
    tier.holds c = false := by
  rw [Tier.holds, Operator.ofChar?_of_isDigit h, Option.any_none]

/-- The digits are not blank. -/
theorem Text.isBlank_of_isDigit {c : Char} (h : c.isDigit = true) : Text.isBlank c = false := by
  simp only [Char.isDigit, Bool.and_eq_true, decide_eq_true_eq] at h
  have h0 : 48 ≤ c.toNat := h.1
  have h9 : c.toNat ≤ 57 := h.2
  simp only [Text.isBlank, Bool.or_eq_false_iff, Bool.and_eq_false_iff, decide_eq_false_iff_not,
    beq_eq_false_iff_ne]
  omega

namespace Formula

theorem Part.operand_ne_level : Part.operand ≠ .level := by
  decide

namespace DigitRun

theorem isDigit_of_mem (run : DigitRun) : ∀ c ∈ run.val, c.isDigit = true :=
  List.all_eq_true.mp run.property.2

theorem exists_cons (run : DigitRun) :
    ∃ c digits, run.val = c :: digits ∧ c.isDigit = true := by
  obtain ⟨c, digits, h⟩ := List.exists_cons_of_ne_nil run.property.1
  exact ⟨c, digits, h, run.isDigit_of_mem c (by simp [h])⟩

/-- The digits from right to left. -/
def reverse (run : DigitRun) : DigitRun :=
  ⟨run.val.reverse, List.reverse_ne_nil_iff.mpr run.property.1, by simp [run.property.2]⟩

/-- A bracket, or anything else that is no digit, does not occur. -/
theorem balanced {same partner : Char} (hs : same.isDigit = false) (hp : partner.isDigit = false)
    (run : DigitRun) : Balanced same partner run.val := by
  refine Balanced.of_plain fun c hc => ?_
  have hd := run.isDigit_of_mem c hc
  exact ⟨ne_of_isDigit hd hs, ne_of_isDigit hd hp⟩

end DigitRun

namespace Derivation

variable {part : Part}

theorem balanced_text (d : Derivation part) : Balanced '(' ')' d.text := by
  induction d with
  | digits run => exact run.balanced rfl rfl
  | group inner ih => exact ih.enclose
  | first signed operand ih =>
    cases signed with
    | true => exact .plain (by decide) (by decide) ih
    | false => exact ih
  | more before op operand ihb ihp =>
    exact ihb.append (.plain op.symbol_ne_opening op.symbol_ne_closing ihp)

/-- A derived text ends with a digit or a closing bracket. -/
theorem reverse_text_eq_cons (d : Derivation part) :
    ∃ c before, d.text.reverse = c :: before ∧ (c.isDigit = true ∨ c = ')') := by
  induction d with
  | digits run =>
    obtain ⟨c, before, h, hc⟩ := run.reverse.exists_cons
    exact ⟨c, before, h, .inl hc⟩
  | group inner => exact ⟨')', inner.text.reverse ++ ['('], by simp [text], .inr rfl⟩
  | first signed operand ih =>
    obtain ⟨c, before, h, hc⟩ := ih
    cases signed with
    | true => exact ⟨c, before ++ ['-'], by simp [text, h], hc⟩
    | false => exact ⟨c, before, h, hc⟩
  | more before op operand _ ih =>
    obtain ⟨c, rest, h, hc⟩ := ih
    exact ⟨c, rest ++ op.symbol :: before.text.reverse, by simp [text, h], hc⟩

/-- No level begins behind a derived text, so a `-` there is an operator. -/
theorem opensLevel_reverse_text (d : Derivation part) (before : List Char) :
    opensLevel (d.text.reverse ++ before) = false := by
  obtain ⟨c, rest, h, hc⟩ := d.reverse_text_eq_cons
  rw [h, List.cons_append, opensLevel, beq_eq_false_iff_ne]
  rintro rfl
  rcases hc with hc | hc <;> exact absurd hc (by decide)

/-- A derived text holds no blanks. -/
theorem dropBlanks_text (d : Derivation part) : Text.dropBlanks d.text = d.text := by
  rw [Text.dropBlanks_eq_self]
  induction d with
  | digits run => exact fun c hc => Text.isBlank_of_isDigit (run.isDigit_of_mem c hc)
  | group inner ih =>
    intro c hc
    simp only [text, List.mem_cons, List.mem_append, List.mem_nil_iff, or_false] at hc
    rcases hc with rfl | hc | rfl
    · rfl
    · exact ih c hc
    · rfl
  | first signed operand ih =>
    cases signed with
    | true =>
      intro c hc
      rcases List.mem_cons.mp hc with rfl | hc
      · rfl
      · exact ih c hc
    | false => exact ih
  | more before op operand ihb ihp =>
    intro c hc
    rcases List.mem_append.mp hc with hc | hc
    · exact ihb c hc
    · rcases List.mem_cons.mp hc with rfl | hc
      · exact op.isBlank_symbol
      · exact ihp c hc

end Derivation

end Formula

end ExactCalc
