/-
Grouping does not mend a text.

* `Settled` — no operator before a position is followed by a `-`, except for signs;
* `Site.IsSettled.resume` — a step keeps this;
* `Site.IsSettled.accepts_of_resume` — a text that is accepted after a step was accepted before it;
* `Cursor.IsSettled.finish`, `settled_group` — the same for a whole pass, and for both passes;
* `run_of_nested` — the scan reads a nested text, if no operator in it is followed by a `-`;
* `reads_iff_isValid` — the texts that can be read when they are grouped are the formulas.

Design notes: a step could mend a text only by a bracket in front of a `-` that has no left operand.
Such a `-` stands behind an operator, and every operator that has been visited is followed by
something else.
-/
import ExactCalc.Proofs.Enclosing
import ExactCalc.Proofs.Parsing

namespace ExactCalc.Formula

/-- No operator of a tier in the reversed text `before` is followed by a `-`, where `after` stands
behind it all.  A sign is no operator. -/
def Settled (tier : Tier) : (before after : List Char) → Prop
  | [], _ => True
  | c :: before, after =>
    (tier.holds c = true → isSign before c = false → after.head? ≠ some '-') ∧
      Settled tier before (c :: after)

theorem isSign_of_multiplicative {c : Char} (h : Tier.multiplicative.holds c = true)
    (before : List Char) : isSign before c = false := by
  obtain ⟨op, rfl, ht⟩ := Tier.holds_eq_true.mp h
  cases op with
  | add | sub => cases ht
  | mul | div => rfl

namespace Settled

variable {tier : Tier} {before after u v : List Char}

theorem of_head {after' : List Char} (h : Settled tier before after)
    (hh : after'.head? = some '-' → after.head? = some '-') : Settled tier before after' := by
  induction before generalizing after after' with
  | nil => trivial
  | cons c before ih => exact ⟨fun ht hs hm => h.1 ht hs (hh hm), ih h.2 fun hm => hm⟩

/-- Past a character that is no operator. -/
theorem skip {c : Char} (h : Settled tier before (c :: after))
    (hc : ¬(tier.holds c = true ∧ isSign before c = false)) : Settled tier (c :: before) after :=
  ⟨fun ht hs => absurd ⟨ht, hs⟩ hc, h⟩

theorem append (h : Settled tier (v ++ u) after) : Settled tier u (v.reverse ++ after) := by
  induction v generalizing after with
  | nil => exact h
  | cons c v ih =>
    have := ih h.2
    simpa using this

/-- The inside of a group is settled, if the group is. -/
theorem inner {text : List Char}
    (h : Settled tier (('(' :: (text ++ [')'])).reverse ++ before) after) :
    Settled tier (text.reverse ++ '(' :: before) (')' :: after) := by
  simp only [List.reverse_cons, List.reverse_append, List.append_assoc] at h
  exact h.2

/-- One more bracket changes nothing, if it makes no operator of a sign. -/
theorem insert {b : Char} (h : Settled tier (v ++ u) after) (hb : tier.holds b = false)
    (hm : b ≠ '-')
    (hs : ∀ c, tier.holds c = true → isSign (b :: u) c = false → isSign u c = false) :
    Settled tier (v ++ b :: u) after := by
  induction v generalizing after with
  | nil =>
    refine ⟨fun ht => absurd ht (by simp [hb]), h.of_head fun hhead => ?_⟩
    exact absurd (Option.some.inj hhead) hm
  | cons c v ih =>
    refine ⟨fun ht hc => h.1 ht ?_, ih h.2⟩
    -- only the character next to the bracket can become a sign or lose being one
    cases v with
    | nil => exact hs c ht hc
    | cons d v => exact hc

theorem insert_opening (h : Settled tier (v ++ u) after) : Settled tier (v ++ '(' :: u) after := by
  refine h.insert (by cases tier <;> rfl) (by decide) fun c _ hc => ?_
  have hne : (c == '-') = false := by simpa [isSign, opensLevel] using hc
  rw [isSign, hne, Bool.false_and]

theorem insert_closing (h : Settled .multiplicative (v ++ u) after) :
    Settled .multiplicative (v ++ ')' :: u) after :=
  h.insert rfl (by decide) fun _ ht _ => isSign_of_multiplicative ht u

end Settled

/-! ### Sites -/

namespace Cursor

variable {tier : Tier} {before after : List Char} {s : Site}

theorem text_of_site? (h : site? tier before after = some s) :
    s.text = before.reverse ++ after := by
  induction after generalizing before with
  | nil => cases h
  | cons c after ih =>
    rw [site?] at h
    split at h
    · cases h
      rfl
    · rw [ih h]
      simp

theorem holds_of_site? (h : site? tier before after = some s) :
    tier.holds s.symbol = true ∧ isSign s.before s.symbol = false := by
  induction after generalizing before with
  | nil => cases h
  | cons c after ih =>
    rw [site?] at h
    split at h
    · next hc =>
      cases h
      simpa using hc
    · exact ih h

/-- On the way to the next operator of a tier there is none. -/
theorem settled_of_site? (hb : Settled tier before after) (h : site? tier before after = some s) :
    Settled tier s.before (s.symbol :: s.after) := by
  induction after generalizing before with
  | nil => cases h
  | cons c after ih =>
    rw [site?] at h
    split at h
    · cases h
      exact hb
    · next hc => exact ih (hb.skip (by simpa using hc)) h

theorem settled_of_site?_eq_none (hb : Settled tier before after)
    (h : site? tier before after = none) : Settled tier (after.reverse ++ before) [] := by
  induction after generalizing before with
  | nil => exact hb
  | cons c after ih =>
    rw [site?] at h
    split at h
    · cases h
    · next hc =>
      have := ih (hb.skip (by simpa using hc)) h
      simpa using this

end Cursor

namespace Site

/-- The right operand does not begin with a `-`. -/
theorem head_right (s : Site) (rest : List Char) :
    (s.right.1 ++ ')' :: rest).head? ≠ some '-' := by
  rcases operand_of_splitOperand s.after with h | h
  · simp [right, h]
  · obtain ⟨c, text, htext, hc⟩ := h.exists_cons
    rw [right, htext]
    intro hhead
    obtain rfl : c = '-' := Option.some.inj hhead
    rcases hc with hc | hc <;> exact absurd hc (by decide)

/-- Behind an operator that has its pair stands no `-`. -/
theorem head_after_of_isGrouped {s : Site} (h : s.isGrouped = true) :
    s.after.head? ≠ some '-' := by
  obtain ⟨rest, hrest⟩ : ∃ rest, s.right.2 = ')' :: rest := by
    rw [isGrouped, Bool.and_eq_true, beq_iff_eq, beq_iff_eq] at h
    exact List.head?_eq_some_iff.mp h.2
  rw [← s.right_append, hrest]
  exact s.head_right rest

/-- The operator of a step is settled behind it. -/
theorem settled_resume {tier : Tier} {s : Site}
    (h : Settled tier s.before (s.symbol :: s.after)) :
    Settled tier s.resume.before s.resume.after := by
  rw [resume]
  split
  · next hg => exact ⟨fun _ _ => head_after_of_isGrouped hg, h⟩
  · rw [← s.left_append] at h
    refine ⟨fun _ _ => s.head_right s.right.2, ?_⟩
    exact h.insert_opening.of_head fun hm => hm

/-- The tight operators stay settled, whatever tier a step belongs to. -/
theorem settled_text_resume {s : Site} (h : Settled .multiplicative s.text.reverse []) :
    Settled .multiplicative s.resume.text.reverse [] := by
  by_cases hg : s.isGrouped = true
  · rwa [text_resume_of_isGrouped hg]
  · rw [text_resume_of_not_isGrouped (Bool.eq_false_iff.mpr hg)]
    rw [text_eq] at h
    simp only [List.reverse_append, List.reverse_cons, List.reverse_reverse, List.append_assoc,
      List.cons_append, List.nil_append] at h ⊢
    -- the closing bracket first, which stands in front in the reversed text
    have hclose : Settled .multiplicative ((s.right.2.reverse ++ ')' ::
        (s.right.1.reverse ++ s.symbol :: s.left.1)) ++ s.left.2) [] := by
      simpa using h.insert_closing
    simpa using hclose.insert_opening

end Site

/-! ### Passes -/

/-- An operand is awaited behind an opening bracket or an operator. -/
theorem Scan.Reads.opening_or_operator {s s' : Scan} {c : Char} (h : Reads s c s')
    (hp : s'.place.awaitsOperand = true) : c = '(' ∨ ∃ op : Operator, c = op.symbol := by
  cases h with
  | digit hc hp' => cases hp
  | opening hp' => exact .inl rfl
  | closing hp' => cases hp
  | sign => exact .inr ⟨.sub, rfl⟩
  | operator op hp' => exact .inr ⟨op, rfl⟩

/-- No operator of the tier before a cursor is followed by a `-`.  In the second pass no tight
operator is, wherever it stands. -/
structure Cursor.IsSettled (tier : Tier) (c : Cursor) : Prop where
  visited : Settled tier c.before c.after
  tight : tier = .additive → Settled .multiplicative c.text.reverse []

/-- What is known about the operator that a pass comes to. -/
structure Site.IsSettled (tier : Tier) (s : Site) : Prop where
  holds : tier.holds s.symbol = true
  noSign : isSign s.before s.symbol = false
  visited : Settled tier s.before (s.symbol :: s.after)
  tight : tier = .additive → Settled .multiplicative s.text.reverse []

namespace Site.IsSettled

variable {tier : Tier} {s : Site}

theorem resume (h : s.IsSettled tier) : s.resume.IsSettled tier where
  visited := settled_resume h.visited
  tight ht := settled_text_resume (h.tight ht)

/-- A `-` that is no sign does not stand behind an operator. -/
theorem isSign_before (h : s.IsSettled tier) (hs : s.symbol = '-') {op : Operator}
    {before : List Char} (hb : s.before = op.symbol :: before) :
    isSign before op.symbol = true := by
  rw [← Bool.not_eq_false]
  intro hop
  have htier : tier = .additive := by
    have hsub : s.symbol = Operator.sub.symbol := hs
    have hholds := h.holds
    rw [hsub, Tier.holds_symbol, beq_iff_eq] at hholds
    exact hholds.symm
  have hvisited := h.visited
  have htight := h.tight htier
  rw [text, hs, hb, List.reverse_append, List.reverse_cons, List.reverse_reverse,
    List.append_assoc, List.singleton_append] at htight
  rw [htier, hs, hb] at hvisited
  -- the operator is of the tier of this pass, or the other pass was there before
  cases hop' : op.tier with
  | additive => exact hvisited.1 (by simp [hop']) hop rfl
  | multiplicative => exact htight.append.2.1 (by simp [hop']) hop rfl

/-- An operator that has no left operand cannot be grouped into a formula. -/
theorem left_ne_nil (h : s.IsSettled tier) (hg : s.isGrouped = false)
    (ha : Scan.Accepts s.resume.text) : s.left.1 ≠ [] := by
  intro hnil
  obtain ⟨op, hop, -⟩ := Tier.holds_eq_true.mp h.holds
  have hleft : s.left.2 = s.before := by simpa [hnil] using s.left_append
  obtain ⟨last, hrun, -⟩ := ha
  rw [text_resume_of_not_isGrouped hg, hnil, hleft, hop] at hrun
  obtain ⟨s₀, houter, hrun⟩ := Scan.exists_run_of_run_append hrun
  obtain ⟨s₁, hopen, hrun⟩ := Scan.exists_reads_of_run_cons hrun
  obtain ⟨s₂, hread, -⟩ := Scan.exists_reads_of_run_cons hrun
  obtain ⟨hp, rfl⟩ := Scan.reads_opening hopen
  -- behind the new bracket the operator could only be a sign
  obtain rfl : op = .sub := ((Scan.reads_operator hread).2 rfl).2
  have hnoSign := h.noSign
  cases hb : s.before with
  | nil =>
    rw [hop, hb] at hnoSign
    cases hnoSign
  | cons c before =>
    rw [hb, List.reverse_cons] at houter
    obtain ⟨_, hlast⟩ := Scan.exists_reads_last houter
    rcases hlast.opening_or_operator hp with rfl | ⟨op', rfl⟩
    · rw [hop, hb] at hnoSign
      cases hnoSign
    · -- this operator is a sign, and would belong to the left operand
      have hsign := h.isSign_before hop hb
      have hd : splitOperand ')' '(' (op'.symbol :: before) = ([], op'.symbol :: before) := by
        simp [splitOperand, op'.symbol_ne_closing]
      rw [left, hb, hd] at hnil
      simp [splitSign, hsign] at hnil

/-- A text that is accepted after a step was accepted before it. -/
theorem accepts_of_resume (h : s.IsSettled tier) (ha : Scan.Accepts s.resume.text) :
    Scan.Accepts s.text := by
  cases hg : s.isGrouped with
  | true => rwa [text_resume_of_isGrouped hg] at ha
  | false =>
    have hne : s.left.1.reverse ≠ [] := List.reverse_ne_nil_iff.mpr (h.left_ne_nil hg ha)
    obtain ⟨op, hop, -⟩ := Tier.holds_eq_true.mp h.holds
    rw [text_resume_of_not_isGrouped hg, hop] at ha
    rw [text_eq, hop]
    exact Scan.accepts_of_enclosed s.leftOperand hne (operand_of_splitOperand s.after) ha

end Site.IsSettled

namespace Cursor

variable {tier : Tier} {c : Cursor}

theorem IsSettled.of_site? {s : Site} (h : c.IsSettled tier)
    (hs : site? tier c.before c.after = some s) : s.IsSettled tier where
  holds := (holds_of_site? hs).1
  noSign := (holds_of_site? hs).2
  visited := settled_of_site? h.visited hs
  tight ht := by
    rw [text_of_site? hs]
    exact h.tight ht

theorem IsSettled.initial (tier : Tier) (text : List Char)
    (h : tier = .additive → Settled .multiplicative text.reverse []) :
    IsSettled tier ⟨[], text⟩ :=
  ⟨trivial, h⟩

/-- What a whole pass leaves: no operator of its tier is followed by a `-`, and a text that is
accepted then was accepted before. -/
theorem IsSettled.finish (h : c.IsSettled tier) :
    Settled tier (c.finish tier).reverse [] ∧
      (tier = .additive → Settled .multiplicative (c.finish tier).reverse []) ∧
      (Scan.Accepts (c.finish tier) → Scan.Accepts c.text) := by
  fun_induction Cursor.finish tier c with
  | case1 c c' hn _ ih =>
    obtain ⟨s, hs, rfl⟩ := Option.map_eq_some_iff.mp hn
    have hsite := h.of_site? hs
    obtain ⟨hvisited, htight, haccepts⟩ := ih hsite.resume
    refine ⟨hvisited, htight, ?_⟩
    intro ha
    have htext : s.text = c.text := text_of_site? hs
    rw [← htext]
    exact hsite.accepts_of_resume (haccepts ha)
  | case2 c hn =>
    have hnone : site? tier c.before c.after = none := Option.map_eq_none_iff.mp hn
    refine ⟨?_, h.tight, id⟩
    rw [Cursor.text, List.reverse_append, List.reverse_reverse]
    exact settled_of_site?_eq_none h.visited hnone

end Cursor

/-- **Grouping does not mend a text**: no operator of the grouped text is followed by a `-`, and if
it is accepted, so was the text. -/
theorem settled_group (text : List Char) :
    (∀ tier, Settled tier (group text).reverse []) ∧
      (Scan.Accepts (group text) → Scan.Accepts text) := by
  obtain ⟨htight, -, haccepts⟩ :=
    (Cursor.IsSettled.initial .multiplicative text fun h => absurd h (by decide)).finish
  obtain ⟨hloose, htight', haccepts'⟩ :=
    (Cursor.IsSettled.initial .additive _ fun _ => htight).finish
  rw [group_eq]
  constructor
  · intro tier
    cases tier with
    | additive => exact hloose
    | multiplicative => exact htight' rfl
  · intro ha
    exact haccepts (haccepts' ha)

/-! ### Nested texts -/

/-- No level begins behind a text that ends with an operand. -/
theorem Scan.opensLevel_of_run {s s' : Scan} {text : List Char}
    (hrun : s.run text = some s') (hp : s.place.awaitsOperand = true)
    (hp' : s'.place.awaitsOperand = false) (before : List Char) :
    opensLevel (text.reverse ++ before) = false := by
  rcases List.eq_nil_or_concat text with rfl | ⟨u, c, rfl⟩
  · cases hrun
    rw [hp] at hp'
    cases hp'
  · rw [List.concat_eq_append] at hrun
    obtain ⟨s₁, hr⟩ := exists_reads_last hrun
    have hc : c ≠ '(' := by
      rintro rfl
      rw [(reads_opening hr).2] at hp'
      cases hp'
    simp [opensLevel, hc]

/-- A nested text is read through, if no operator in it is followed by a `-`, and if it begins with
one only where a sign may stand. -/
theorem run_of_nested {part : Part} {text : List Char} {e : Expr} (h : Nested part text e)
    {before after : List Char} (hs : ∀ tier, Settled tier (text.reverse ++ before) after)
    (place : Place) (depth : Nat) (hp : place.awaitsOperand = true)
    (hstart : text.head? = some '-' → place = .start) :
    ∃ p : Place, p.awaitsOperand = false ∧ Scan.run ⟨place, depth⟩ text = some ⟨p, depth⟩ := by
  induction h generalizing before after place depth with
  | digits run => exact ⟨.digit, rfl, Scan.run_digitRun hp run⟩
  | negative run =>
    obtain rfl := hstart rfl
    refine ⟨.digit, rfl, ?_⟩
    rw [Scan.run_cons_of_reads .sign]
    exact Scan.run_digitRun rfl run
  | group hi ih =>
    obtain ⟨p, hp', hrun⟩ := ih (fun tier => (hs tier).inner) .start (depth + 1) rfl fun _ => rfl
    exact ⟨.close, rfl, Scan.run_group hp hp' hrun⟩
  | @negation text e hi ih =>
    obtain rfl := hstart rfl
    have hgroup : ∀ tier,
        Settled tier (('(' :: (text ++ [')'])).reverse ++ '-' :: before) after := by
      intro tier
      simpa using hs tier
    obtain ⟨p, hp', hrun⟩ :=
      ih (fun tier => (hgroup tier).inner) .start (depth + 1) rfl fun _ => rfl
    refine ⟨.close, rfl, ?_⟩
    rw [Scan.run_cons_of_reads .sign]
    exact Scan.run_group rfl hp' hrun
  | single _ ih => exact ih hs place depth hp hstart
  | @operation left right l r op hl hr ihl ihr =>
    have hright : ∀ tier,
        Settled tier (right.reverse ++ op.symbol :: (left.reverse ++ before)) after := by
      intro tier
      simpa using hs tier
    have hop := fun tier => (hright tier).append
    have hhead : left.head? = some '-' → place = .start := by
      intro h
      exact hstart (by simp [h])
    -- behind an operand `op` is no sign, so that no `-` follows it
    obtain ⟨p, hp', hrun⟩ := ihl (fun tier => (hop tier).2) place depth hp hhead
    have hsign : isSign (left.reverse ++ before) op.symbol = false := by
      rw [isSign, Scan.opensLevel_of_run hrun hp hp', Bool.and_false]
    have hno : right.head? ≠ some '-' := by
      intro h
      exact (hop op.tier).1 (by simp) hsign (by simp [h])
    obtain ⟨p', hp'', hrun'⟩ :=
      ihr hright .operator depth rfl fun h => absurd h hno
    refine ⟨p', hp'', ?_⟩
    rw [Scan.run_append, hrun, Option.bind_some, Scan.run_cons_of_reads (.operator op hp'), hrun']

/-! ### The two acceptors -/

/-- Where a grouped text can be read, the text was a formula. -/
theorem accepts_of_ofGrouped_group {text : List Char} {e : Expr}
    (h : Expr.ofGrouped (group text) = .ok e) : Scan.Accepts text := by
  obtain ⟨hsettled, haccepts⟩ := settled_group text
  have hs : ∀ tier, Settled tier ((group text).reverse ++ []) [] := by
    intro tier
    rw [List.append_nil]
    exact hsettled tier
  obtain ⟨p, hp, hrun⟩ :=
    run_of_nested (nested_of_ofGrouped h) hs .start 0 rfl fun _ => rfl
  exact haccepts ⟨⟨p, 0⟩, hrun, Scan.isComplete_iff.mpr ⟨rfl, hp⟩⟩

/-- No part of a formula is malformed, and of other texts no part is looked at. -/
theorem ne_malformed (text part : List Char) :
    Expr.parse text ≠ .error (.malformed part) ∧ evaluate text ≠ .error (.malformed part) := by
  by_cases hex : ∃ d : Derivation .level, d.text = Text.dropBlanks text
  · obtain ⟨d, hd⟩ := hex
    rw [parse_of_derivation d hd, evaluate_of_derivation d hd]
    constructor
    · intro h
      cases h
    · intro h
      cases Expr.eq_divisionByZero_of_eval h
  · rw [parse_of_not_derivable hex, evaluate_of_not_derivable hex]
    constructor
    · intro h
      cases h
    · intro h
      cases h

/-- **The texts that can be read when they are grouped are the formulas**, so no formula is
malformed.  Without the grouping, other texts can be read as well. -/
theorem reads_iff_isValid :
    (∀ text : List Char, (∀ c ∈ text, Text.isBlank c = false) →
      ((∃ e, Expr.ofGrouped (group text) = .ok e) ↔ isValid text = true)) ∧
    (∀ text part : List Char,
      Expr.parse text ≠ .error (.malformed part) ∧ evaluate text ≠ .error (.malformed part)) ∧
    ∃ text : List Char, (∀ c ∈ text, Text.isBlank c = false) ∧ isValid text = false ∧
      ∃ e, Expr.ofGrouped text = .ok e := by
  refine ⟨fun text hblank => ?_, ne_malformed, ?_⟩
  · have hdrop : Text.dropBlanks text = text := Text.dropBlanks_eq_self.mpr hblank
    constructor
    · rintro ⟨e, he⟩
      rw [isValid_iff_accepts, hdrop]
      exact accepts_of_ofGrouped_group he
    · intro hvalid
      obtain ⟨d, hd⟩ := isValid_iff_exists_derivation.mp hvalid
      rw [← hdrop, ← hd]
      exact ⟨d.tree, ofGrouped_group_text d⟩
  · -- a sign behind an operator
    let two : DigitRun := ⟨['2'], by decide⟩
    let three : DigitRun := ⟨['3'], by decide⟩
    have hnested := Nested.operation .mul (.digits two) (.single (.negative three))
    exact ⟨['2', '*', '-', '3'], Text.dropBlanks_eq_self.mp rfl, rfl, _,
      ofGrouped_of_nested hnested⟩

/-- Grouping finds no operand between the two operators. -/
theorem not_reads_sign_behind_operator :
    (∀ c ∈ "2*-3".toList, Text.isBlank c = false) ∧
      ¬∃ e, Expr.ofGrouped (group "2*-3".toList) = .ok e := by
  have hblank : ∀ c ∈ "2*-3".toList, Text.isBlank c = false :=
    Text.dropBlanks_eq_self.mp rfl
  have hvalid : isValid "2*-3".toList = false := rfl
  refine ⟨hblank, fun h => ?_⟩
  rw [(reads_iff_isValid.1 _ hblank).mp h] at hvalid
  cases hvalid

end ExactCalc.Formula
