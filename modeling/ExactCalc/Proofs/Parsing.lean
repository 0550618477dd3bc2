/-
Parsing is correct for the whole language.

* `parse_of_derivation` — a formula is read as the expression of its derivation;
* `parse_of_not_derivable` — any other text is refused, as it was given;
* `evaluate_of_derivation`, `evaluate_of_not_derivable` — what follows for its value;
* `parse_eq_ok_iff_derivation` — both directions, for every text;
* `tree_eq_of_text_eq` — a formula has one meaning, however it is derived.
-/
import ExactCalc.Proofs.Acceptance
import ExactCalc.Proofs.Nesting

namespace ExactCalc.Formula

/-- A text with all its operators grouped is read as what it meant before. -/
theorem ofGrouped_group_text (d : Derivation .level) :
    Expr.ofGrouped (group d.text) = .ok d.tree := by
  have hexplicit := d.isExplicit_grouped
  have hnested : Nested .level d.grouped.text d.grouped.tree :=
    (d.grouped.nested hexplicit.groups).2 (by simp [hexplicit.outermost])
  have hgroup : group d.text = d.grouped.text := group_text d
  rw [hgroup, ofGrouped_of_nested hnested, d.tree_grouped]

theorem isValid_iff_exists_derivation {text : List Char} :
    isValid text = true ↔ ∃ d : Derivation .level, d.text = Text.dropBlanks text := by
  rw [isValid_iff_accepts, Scan.exists_derivation_iff]

/-- A formula is read as the expression of its derivation. -/
theorem parse_of_derivation {text : List Char} (d : Derivation .level)
    (h : d.text = Text.dropBlanks text) : Expr.parse text = .ok d.tree := by
  have hvalid : isValid text = true := isValid_iff_exists_derivation.mpr ⟨d, h⟩
  rw [Expr.parse, if_pos hvalid, ← h, ofGrouped_group_text]

theorem isValid_text (d : Derivation .level) : isValid d.text = true :=
  isValid_iff_exists_derivation.mpr ⟨d, d.dropBlanks_text.symm⟩

theorem parse_text (d : Derivation .level) : Expr.parse d.text = .ok d.tree :=
  parse_of_derivation d d.dropBlanks_text.symm

/-- A text that is no formula is refused, with all its blanks. -/
theorem parse_of_not_derivable {text : List Char}
    (h : ¬∃ d : Derivation .level, d.text = Text.dropBlanks text) :
    Expr.parse text = .error (.invalid text) := by
  rw [Expr.parse, if_neg fun hvalid => h (isValid_iff_exists_derivation.mp hvalid)]

theorem evaluate_of_derivation {text : List Char} (d : Derivation .level)
    (h : d.text = Text.dropBlanks text) : evaluate text = d.tree.eval := by
  rw [evaluate, parse_of_derivation d h]
  rfl

theorem evaluate_of_not_derivable {text : List Char}
    (h : ¬∃ d : Derivation .level, d.text = Text.dropBlanks text) :
    evaluate text = .error (.invalid text) := by
  rw [evaluate, parse_of_not_derivable h]
  rfl

/-- A formula has one meaning, however it is derived. -/
theorem tree_eq_of_text_eq {d d' : Derivation .level} (h : d.text = d'.text) :
    d.tree = d'.tree := by
  have hd := ofGrouped_group_text d
  rw [h, ofGrouped_group_text] at hd
  exact (Except.ok.inj hd).symm

/-- **A text parses to an expression exactly if it is a formula with that meaning, blanks left
out, and every other text is refused as it was given.** -/
theorem parse_eq_ok_iff_derivation (text : List Char) :
    (∀ e, Expr.parse text = .ok e ↔
      ∃ d : Derivation .level, d.text = Text.dropBlanks text ∧ d.tree = e) ∧
    (∀ f, Expr.parse text = .error f ↔
      f = .invalid text ∧ ¬∃ d : Derivation .level, d.text = Text.dropBlanks text) := by
  by_cases hex : ∃ d : Derivation .level, d.text = Text.dropBlanks text
  · obtain ⟨d, hd⟩ := hex
    rw [parse_of_derivation d hd]
    constructor
    · intro e
      rw [Except.ok.injEq]
      constructor
      · intro he
        exact ⟨d, hd, he⟩
      · rintro ⟨d', hd', rfl⟩
        exact tree_eq_of_text_eq (hd.trans hd'.symm)
    · intro f
      constructor
      · intro h
        cases h
      · rintro ⟨-, hnot⟩
        exact absurd ⟨d, hd⟩ hnot
  · rw [parse_of_not_derivable hex]
    constructor
    · intro e
      constructor
      · intro h
        cases h
      · rintro ⟨d, hd, -⟩
        exact absurd ⟨d, hd⟩ hex
    · intro f
      rw [Except.error.injEq]
      exact ⟨fun h => ⟨h.symm, hex⟩, fun h => h.1.symm⟩

end ExactCalc.Formula
