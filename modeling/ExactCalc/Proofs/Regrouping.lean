/-
What a pass does to the derivation of a text.

* `Derivation.wrap` — a level with one more operation, between brackets with the operand that was
  the last one;
* `Derivation.regroup` — a derivation with the operators of one tier grouped;
* `Cursor.finish_text` — a pass turns the text of a derivation, wherever it stands, into the text of
  the regrouped one;
* `groupTier_text`, `group_text` — the same for a whole text, and for both passes.

Design notes: a cursor that stands in a derived text sees what is already regrouped before it and
what is still as it was behind it.  A pair that an operator gets reaches into the second part, but
it encloses an operand of the derivation there, so that the induction can go on inside.
-/
import ExactCalc.Proofs.Derivation

namespace ExactCalc.Formula

/-! ### Operands of a site -/

theorem splitOperand_text (operand : Derivation .operand) {after : List Char}
    (h : ∀ c ∈ after.head?, c.isDigit = false) :
    splitOperand '(' ')' (operand.text ++ after) = (operand.text, after) := by
  cases operand with
  | digits run => exact splitOperand_digits rfl run.property.1 run.isDigit_of_mem h
  | group inner =>
    simp only [Derivation.text, List.cons_append, List.append_assoc, List.nil_append]
    exact splitOperand_group (by decide) inner.balanced_text after

theorem splitOperand_reverse_text (operand : Derivation .operand) {before : List Char}
    (h : ∀ c ∈ before.head?, c.isDigit = false) :
    splitOperand ')' '(' (operand.text.reverse ++ before) = (operand.text.reverse, before) := by
  cases operand with
  | digits run =>
    exact splitOperand_digits rfl run.reverse.property.1 run.reverse.isDigit_of_mem h
  | group inner =>
    have heq : (Derivation.group inner).text.reverse = ')' :: (inner.text.reverse ++ ['(']) := by
      simp [Derivation.text]
    rw [heq, List.cons_append, List.append_assoc, List.singleton_append]
    exact splitOperand_group (by decide) inner.balanced_text.reverse before

theorem opensLevel_iff {before : List Char} :
    opensLevel before = true ↔ ∀ c ∈ before.head?, c = '(' := by
  cases before with
  | nil => simp [opensLevel]
  | cons c before => simp [opensLevel]

theorem isDigit_head_of_opensLevel {before : List Char} (h : opensLevel before = true) :
    ∀ c ∈ before.head?, c.isDigit = false := by
  intro c hc
  rw [opensLevel_iff.mp h c hc]
  rfl

/-- No sign stands where a level begins. -/
theorem splitSign_of_opensLevel {before : List Char} (h : opensLevel before = true) :
    splitSign before = ([], before) := by
  cases before with
  | nil => rfl
  | cons c before =>
    obtain rfl : c = '(' := opensLevel_iff.mp h c rfl
    rfl

theorem splitSign_sign {before : List Char} (h : opensLevel before = true) :
    splitSign ('-' :: before) = (['-'], before) := by
  simp [splitSign, isSign, h]

/-- Behind a derived text stands no sign. -/
theorem isSign_reverse_text {part : Part} (d : Derivation part) (before : List Char) (c : Char) :
    isSign (d.text.reverse ++ before) c = false := by
  rw [isSign, d.opensLevel_reverse_text, Bool.and_false]

namespace Site

theorem right_text (operand : Derivation .operand) {before after : List Char} {c : Char}
    (h : ∀ c ∈ after.head?, c.isDigit = false) :
    (Site.mk before c (operand.text ++ after)).right = (operand.text, after) :=
  splitOperand_text operand h

/-- The only operand of a level is taken with its sign. -/
theorem left_first (signed : Bool) (operand : Derivation .operand) {before after : List Char}
    {c : Char} (h : opensLevel before = true) :
    (Site.mk ((Derivation.first signed operand).text.reverse ++ before) c after).left =
      ((Derivation.first signed operand).text.reverse, before) := by
  cases signed with
  | true =>
    have hd : ∀ c ∈ ('-' :: before).head?, c.isDigit = false := by
      rintro c ⟨⟩
      rfl
    simp only [left, Derivation.text, List.reverse_cons, List.append_assoc, List.singleton_append]
    rw [splitOperand_reverse_text operand hd, splitSign_sign h]
  | false =>
    simp only [left, Derivation.text]
    rw [splitOperand_reverse_text operand (isDigit_head_of_opensLevel h),
      splitSign_of_opensLevel h, List.append_nil]

/-- An operand behind an operator is taken alone. -/
theorem left_more (first : Derivation .level) (op : Operator) (operand : Derivation .operand)
    (before after : List Char) (c : Char) :
    (Site.mk ((first.more op operand).text.reverse ++ before) c after).left =
      (operand.text.reverse, op.symbol :: (first.text.reverse ++ before)) := by
  have hd : ∀ c ∈ (op.symbol :: (first.text.reverse ++ before)).head?, c.isDigit = false := by
    rintro c ⟨⟩
    exact op.isDigit_symbol
  have heq : (first.more op operand).text.reverse ++ before =
      operand.text.reverse ++ op.symbol :: (first.text.reverse ++ before) := by
    simp [Derivation.text]
  simp only [left, heq]
  rw [splitOperand_reverse_text operand hd, splitSign, isSign_reverse_text, if_neg (by decide),
    List.append_nil]

end Site

namespace Cursor

variable {tier : Tier} {before after : List Char} {c : Char}

/-- A pass goes on from a site. -/
theorem finish_site (hc : tier.holds c = true) (hs : isSign before c = false) :
    finish tier ⟨before, c :: after⟩ = finish tier (Site.resume ⟨before, c, after⟩) := by
  refine finish_of_next? ?_
  simp [next?, site?, hc, hs]

/-- A pass goes past a character that is no operator of its tier. -/
theorem finish_skip (h : tier.holds c = false ∨ isSign before c = true) :
    finish tier ⟨before, c :: after⟩ = finish tier ⟨c :: before, after⟩ := by
  -- from both positions the next operator is the same
  have hnext : next? tier ⟨before, c :: after⟩ = next? tier ⟨c :: before, after⟩ := by
    rcases h with h | h <;> simp [next?, site?, h]
  cases hn : next? tier ⟨c :: before, after⟩ with
  | none => simp [finish_of_none hn, finish_of_none (hnext.trans hn), text]
  | some c' => rw [finish_of_next? hn, finish_of_next? (hnext.trans hn)]

theorem finish_skip_append {skipped : List Char} (h : ∀ c ∈ skipped, tier.holds c = false) :
    finish tier ⟨before, skipped ++ after⟩ = finish tier ⟨skipped.reverse ++ before, after⟩ := by
  induction skipped generalizing before with
  | nil => rfl
  | cons c skipped ih =>
    rw [List.cons_append, finish_skip (.inl (h c List.mem_cons_self)),
      ih fun d hd => h d (List.mem_cons_of_mem c hd)]
    simp

theorem finish_nil : finish tier ⟨before, []⟩ = before.reverse := by
  rw [finish_of_none rfl, text, List.append_nil]

end Cursor

namespace Derivation

/-- The operators that a level has of its own, not those inside its groups. -/
def operators : {part : Part} → Derivation part → List Operator
  | _, digits _ => []
  | _, group _ => []
  | _, first _ _ => []
  | _, more before op _ => before.operators ++ [op]

/-- A level with one more operator and operand, which get a bracket pair together with the operand
before them.  The sign of that operand is inside the pair too. -/
def wrap : Derivation .level → Operator → Derivation .operand → Derivation .level
  | first signed operand, op, last => first false (group (more (first signed operand) op last))
  | more before op₀ operand, op, last =>
    more before op₀ (group (more (first false operand) op last))

/-- A derivation with the operators of one tier grouped.  If a level is `enclosed` by brackets of
its own, an operation that is all of it needs no other pair. -/
def regroup (tier : Tier) : {part : Part} → (enclosed : Bool) → Derivation part → Derivation part
  | _, _, digits run => digits run
  | _, _, group inner => group (inner.regroup tier true)
  | _, _, first signed operand => first signed (operand.regroup tier false)
  | _, enclosed, more before op operand =>
    let before := before.regroup tier false
    let operand := operand.regroup tier false
    if op.tier = tier ∧ ¬(enclosed = true ∧ before.operators = []) then before.wrap op operand
    else more before op operand

variable {tier : Tier} {enclosed : Bool}

theorem regroup_more_of_wrap {before : Derivation .level} {op : Operator}
    {operand : Derivation .operand} (ht : op.tier = tier)
    (he : ¬(enclosed = true ∧ (before.regroup tier false).operators = [])) :
    (more before op operand).regroup tier enclosed =
      (before.regroup tier false).wrap op (operand.regroup tier false) := by
  rw [regroup]
  exact if_pos ⟨ht, he⟩

theorem regroup_more_of_keep {before : Derivation .level} {op : Operator}
    {operand : Derivation .operand}
    (h : op.tier = tier → enclosed = true ∧ (before.regroup tier false).operators = []) :
    (more before op operand).regroup tier enclosed =
      more (before.regroup tier false) op (operand.regroup tier false) := by
  rw [regroup]
  exact if_neg fun hc => hc.2 (h hc.1)

end Derivation

/-- What a level needs of the text on its two sides: that it begins there, that its last number ends
there, and whether the two sides are its own brackets. -/
structure Surrounds (before after : List Char) (enclosed : Bool) : Prop where
  opens : opensLevel before = true
  noDigit : ∀ c ∈ after.head?, c.isDigit = false
  brackets : enclosed = (before.head? == some '(' && after.head? == some ')')

/-- A whole text has no brackets of its own. -/
theorem surrounds_nil : Surrounds [] [] false where
  opens := rfl
  noDigit := by
    rintro c ⟨⟩
  brackets := rfl

theorem surrounds_group (before after : List Char) :
    Surrounds ('(' :: before) (')' :: after) true where
  opens := rfl
  noDigit := by
    rintro c ⟨⟩
    rfl
  brackets := rfl

/-- The part of a level before one of its operators is not enclosed. -/
theorem Surrounds.operator {before after : List Char} {enclosed : Bool}
    (h : Surrounds before after enclosed) (op : Operator) (rest : List Char) :
    Surrounds before (op.symbol :: rest) false where
  opens := h.opens
  noDigit := by
    rintro c ⟨⟩
    exact op.isDigit_symbol
  brackets := by simp [op.symbol_ne_closing]

namespace Site

variable {before after : List Char} {enclosed : Bool}

/-- Whether the last operation of a level is grouped already. -/
theorem isGrouped_text (h : Surrounds before after enclosed) (first : Derivation .level)
    (op : Operator) (operand : Derivation .operand) :
    (Site.mk (first.text.reverse ++ before) op.symbol (operand.text ++ after)).isGrouped = true ↔
      enclosed = true ∧ first.operators = [] := by
  cases first with
  | first signed left =>
    simp only [isGrouped, right_text operand h.noDigit, left_first signed left h.opens]
    simp [h.brackets, Derivation.operators]
  | more first op₀ left =>
    simp only [isGrouped, left_more]
    simp [op₀.symbol_ne_opening, Derivation.operators]

/-- Where the cursor stands when the last operation of a level got its pair.  What stands before the
cursor then does not depend on the last operand. -/
theorem resume_text_of_wrap (h : Surrounds before after enclosed) (first : Derivation .level)
    (op : Operator) (operand : Derivation .operand)
    (hg : ¬(enclosed = true ∧ first.operators = [])) :
    ∃ left, (Site.mk (first.text.reverse ++ before) op.symbol (operand.text ++ after)).resume =
        ⟨op.symbol :: left, operand.text ++ ')' :: after⟩ ∧
      ∀ last : Derivation .operand, (first.wrap op last).text.reverse ++ before =
        ')' :: (last.text.reverse ++ op.symbol :: left) := by
  have hgroup := (not_congr (isGrouped_text h first op operand)).mpr hg
  simp only [resume, if_neg hgroup, right_text operand h.noDigit]
  -- the pair begins before the last operand, and before its sign if it has one
  cases first with
  | first signed left =>
    refine ⟨(Derivation.first signed left).text.reverse ++ '(' :: before, ?_, fun last => ?_⟩
    · rw [left_first signed left h.opens]
    · simp [Derivation.wrap, Derivation.text]
  | more first op₀ left =>
    refine ⟨left.text.reverse ++ '(' :: op₀.symbol :: (first.text.reverse ++ before), ?_,
      fun last => ?_⟩
    · rw [left_more]
    · simp [Derivation.wrap, Derivation.text]

end Site

namespace Cursor

/-- **A pass regroups a derived text**, wherever the text stands. -/
theorem finish_text (tier : Tier) {part : Part} (d : Derivation part) (enclosed : Bool)
    (before after : List Char) (h : part = .level → Surrounds before after enclosed) :
    finish tier ⟨before, d.text ++ after⟩ =
      finish tier ⟨(d.regroup tier enclosed).text.reverse ++ before, after⟩ := by
  have hoperand : ∀ {before after : List Char} {enclosed : Bool},
      Part.operand = .level → Surrounds before after enclosed :=
    fun h => absurd h Part.operand_ne_level
  induction d generalizing enclosed before after with
  | digits run =>
    exact finish_skip_append fun c hc => tier.holds_of_isDigit (run.isDigit_of_mem c hc)
  | group inner ih =>
    have hopen : tier.holds '(' = false := by cases tier <;> rfl
    -- between its brackets, a level is enclosed
    have hinner := ih true ('(' :: before) (')' :: after) fun _ => surrounds_group before after
    rw [Derivation.text, List.cons_append, List.append_assoc, List.singleton_append,
      finish_skip (.inl hopen), hinner, finish_skip (.inl (not_holds_close tier))]
    simp [Derivation.regroup, Derivation.text]
  | first signed operand ih =>
    cases signed with
    | true =>
      have hsign : isSign before '-' = true := by simp [isSign, (h rfl).opens]
      rw [Derivation.text, List.cons_append, finish_skip (.inr hsign),
        ih false _ _ hoperand]
      simp [Derivation.regroup, Derivation.text]
    | false => exact ih false before after hoperand
  | more first op operand ihf ihp =>
    have hs := h rfl
    rw [Derivation.text, List.append_assoc, List.cons_append,
      ihf false _ _ fun _ => hs.operator op (operand.text ++ after)]
    -- the cursor is at `op` now; it stays a plain operator, finds its pair, or gets one
    by_cases ht : op.tier = tier
    · have hholds : tier.holds op.symbol = true := by simp [ht]
      rw [finish_site hholds (isSign_reverse_text _ _ _)]
      by_cases hg : enclosed = true ∧ (first.regroup tier false).operators = []
      · rw [Derivation.regroup_more_of_keep fun _ => hg, Site.resume,
          if_pos ((Site.isGrouped_text hs _ op operand).mpr hg), ihp false _ _ hoperand]
        simp [Derivation.text]
      · obtain ⟨left, hresume, htext⟩ := Site.resume_text_of_wrap hs (first.regroup tier false) op
          operand hg
        rw [Derivation.regroup_more_of_wrap ht hg, hresume, ihp false _ _ hoperand,
          finish_skip (.inl (not_holds_close tier)), htext]
    · have hholds : tier.holds op.symbol = false := by simp [ht]
      rw [finish_skip (.inl hholds), ihp false _ _ hoperand,
        Derivation.regroup_more_of_keep fun hc => absurd hc ht]
      simp [Derivation.text]

end Cursor

theorem groupTier_text (tier : Tier) (d : Derivation .level) :
    groupTier d.text tier = (d.regroup tier false).text := by
  have h := Cursor.finish_text tier d false [] [] fun _ => surrounds_nil
  rw [List.append_nil] at h
  rw [groupTier, h, Cursor.finish_nil, List.append_nil, List.reverse_reverse]

/-- **The text with all its operators grouped is derived again.** -/
theorem group_text (d : Derivation .level) :
    group d.text =
      ((d.regroup .multiplicative false).regroup .additive false).text := by
  rw [group_eq, groupTier_text, groupTier_text]

end ExactCalc.Formula
