/-
The formulas as a language.

* `Phrase` — the rules `V ::= ['-'] P (op P)*` and `P ::= digit+ | '(' V ')'`, read as rules about
  texts;
* `phrase_iff_exists_derivation` — a text is a phrase exactly if it is derived;
* `isValid_iff_phrase` — the scan accepts exactly the phrases, blanks left out.
-/
import ExactCalc.Proofs.Parsing

namespace ExactCalc.Formula

/-- The texts of the grammar: an operand is a run of digits or a level between brackets, and a level
has one operand, which may have a sign, and any number of operators with an operand behind each. -/
inductive Phrase : Part → List Char → Prop where
  | digits {text : List Char} (hne : text ≠ []) (h : ∀ c ∈ text, '0' ≤ c ∧ c ≤ '9') :
      Phrase .operand text
  | group {text : List Char} (h : Phrase .level text) : Phrase .operand ('(' :: (text ++ [')']))
  | level {sign first : List Char} {more : List (Operator × List Char)}
      (hs : sign = [] ∨ sign = ['-']) (hf : Phrase .operand first)
      (hm : ∀ x ∈ more, Phrase .operand x.2) :
      Phrase .level (sign ++ first ++ more.flatMap fun x => x.1.symbol :: x.2)

/-- The decimal digits are the ten ASCII ones. -/
theorem isDigit_iff_between {c : Char} : c.isDigit = true ↔ '0' ≤ c ∧ c ≤ '9' := by
  rw [Char.isDigit, Bool.and_eq_true, decide_eq_true_eq, decide_eq_true_eq]
  rfl

/-- A derived level goes on with operators and derived operands. -/
theorem Derivation.exists_append_operands (d : Derivation .level)
    {more : List (Operator × List Char)}
    (h : ∀ x ∈ more, ∃ operand : Derivation .operand, operand.text = x.2) :
    ∃ d' : Derivation .level,
      d'.text = d.text ++ more.flatMap fun x => x.1.symbol :: x.2 := by
  induction more generalizing d with
  | nil => exact ⟨d, by simp⟩
  | cons x more ih =>
    obtain ⟨operand, hoperand⟩ := h x List.mem_cons_self
    obtain ⟨d', hd'⟩ := ih (d.more x.1 operand) fun y hy => h y (List.mem_cons_of_mem x hy)
    refine ⟨d', ?_⟩
    rw [hd', Derivation.text, hoperand, List.flatMap_cons]
    simp

theorem Phrase.exists_derivation {part : Part} {text : List Char} (h : Phrase part text) :
    ∃ d : Derivation part, d.text = text := by
  induction h with
  | @digits text hne h =>
    have hall : text.all Char.isDigit = true := by
      rw [List.all_eq_true]
      intro c hc
      exact isDigit_iff_between.mpr (h c hc)
    exact ⟨.digits ⟨text, hne, hall⟩, rfl⟩
  | group _ ih =>
    obtain ⟨d, rfl⟩ := ih
    exact ⟨.group d, rfl⟩
  | @level sign first more hs _ _ ihf ihm =>
    obtain ⟨operand, rfl⟩ := ihf
    -- the sign and the first operand come first, the other operands one at a time
    obtain ⟨d, hd⟩ : ∃ d : Derivation .level, d.text = sign ++ operand.text := by
      rcases hs with rfl | rfl
      · exact ⟨.first false operand, rfl⟩
      · exact ⟨.first true operand, rfl⟩
    rw [← hd]
    exact d.exists_append_operands ihm

/-- A level is a phrase with one more operator and operand. -/
theorem Phrase.append_operand {text operand : List Char} (h : Phrase .level text) (op : Operator)
    (ho : Phrase .operand operand) : Phrase .level (text ++ op.symbol :: operand) := by
  rcases h with _ | _ | @⟨sign, first, more, hs, hf, hm⟩
  have heq : sign ++ first ++ (more.flatMap fun x => x.1.symbol :: x.2) ++ op.symbol :: operand =
      sign ++ first ++ (more ++ [(op, operand)]).flatMap fun x => x.1.symbol :: x.2 := by
    simp
  rw [heq]
  refine .level hs hf fun x hx => ?_
  rcases List.mem_append.mp hx with hx | hx
  · exact hm x hx
  · obtain rfl := List.mem_singleton.mp hx
    exact ho

theorem Derivation.phrase_text {part : Part} (d : Derivation part) : Phrase part d.text := by
  induction d with
  | digits run =>
    exact .digits run.property.1 fun c hc => isDigit_iff_between.mp (run.isDigit_of_mem c hc)
  | group inner ih => exact .group ih
  | first signed operand ih =>
    have hnone : ∀ x ∈ ([] : List (Operator × List Char)), Phrase .operand x.2 := by simp
    rcases signed with _ | _
    · simpa [text] using Phrase.level (.inl rfl) ih hnone
    · simpa [text] using Phrase.level (.inr rfl) ih hnone
  | more before op operand ihb ihp => exact ihb.append_operand op ihp

/-- The rules about texts and the derivations describe one language. -/
theorem phrase_iff_exists_derivation {part : Part} {text : List Char} :
    Phrase part text ↔ ∃ d : Derivation part, d.text = text := by
  constructor
  · exact Phrase.exists_derivation
  · rintro ⟨d, rfl⟩
    exact d.phrase_text

/-- **The scan accepts exactly the phrases of the grammar**, blanks left out. -/
theorem isValid_iff_phrase (text : List Char) :
    isValid text = true ↔ Phrase .level (Text.dropBlanks text) := by
  rw [isValid_iff_exists_derivation, phrase_iff_exists_derivation]

end ExactCalc.Formula
