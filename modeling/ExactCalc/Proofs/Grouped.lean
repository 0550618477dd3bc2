/-
What a grouped formula looks like.

* `Site.HasPair` — an operator stands with its two operands directly between two partners;
* `Site.Enclosed.hasPair` — in a formula, an operator that is grouped has both operands;
* `Site.HasPair.eq_of_outer`, `Site.HasPair.eq_of_rest` — a bracket belongs to one operator;
* `FullyGrouped` — each operator has a pair of its own, and no level has two operators;
* `fullyGrouped_group` — so it is in a formula that was grouped, and the pairs are counted.
-/
import ExactCalc.Proofs.Idempotence
import ExactCalc.Proofs.Levels

namespace ExactCalc.Formula

/-! ### Pairs of operators -/

/-- The operator of a site stands with its operands directly between two brackets that are partners.
What stands before the pair is `outer`, reversed, and what stands behind it is `rest`. -/
structure Site.HasPair (s : Site) (outer left right rest : List Char) : Prop where
  before : s.before = left.reverse ++ '(' :: outer
  after : s.after = right ++ ')' :: rest
  /-- A run of digits or a group, with a sign or without. -/
  leftOperand : ∃ sign operand, left = sign ++ operand ∧ (sign = [] ∨ sign = ['-']) ∧
    Operand operand
  /-- A run of digits or a group. -/
  rightOperand : Operand right
  closes : splitAtPartner '(' ')' 0 (left ++ s.symbol :: s.after) =
    some (left ++ s.symbol :: right, rest)
  opens : splitAtPartner ')' '(' 0 (right.reverse ++ s.symbol :: s.before) =
    some (right.reverse ++ s.symbol :: left.reverse, outer)

theorem mem_sitesFrom {before after : List Char} {s : Site} (h : s ∈ sitesFrom before after) :
    s.text = before.reverse ++ after ∧ ∃ tier, s.IsOperator tier := by
  induction after generalizing before with
  | nil => cases h
  | cons c after ih =>
    rw [sitesFrom] at h
    split at h
    · next hc =>
      rw [Bool.and_eq_true, Bool.not_eq_true'] at hc
      obtain ⟨op, hop⟩ := Option.isSome_iff_exists.mp hc.1
      rcases List.mem_cons.mp h with rfl | h
      · exact ⟨rfl, op.tier, by simp [Tier.holds, hop], hc.2⟩
      · simpa using ih h
    · simpa using ih h

/-- The operators of a text are sites of it. -/
theorem mem_operatorSites {text : List Char} {s : Site} (h : s ∈ operatorSites text) :
    s.text = text ∧ ∃ tier, s.IsOperator tier :=
  mem_sitesFrom h

/-- An operand is read up to the operator behind it, so it is known from the text. -/
theorem Operand.eq_of_append_operator {u v x y : List Char} {op op' : Operator} (hu : Operand u)
    (hv : Operand v) (h : u ++ op.symbol :: x = v ++ op'.symbol :: y) : u = v := by
  have hsplit := OptionalOperand.splitOperand (.inr hu) op.isDigit_symbol op.symbol_ne_opening x
  rw [h, OptionalOperand.splitOperand (.inr hv) op'.isDigit_symbol op'.symbol_ne_opening y]
    at hsplit
  exact (congrArg Prod.fst hsplit).symm

theorem Operand.head?_ne_sign {u : List Char} (h : Operand u) (x : List Char) :
    (u ++ x).head? ≠ some '-' := by
  obtain ⟨c, rest, rfl, hc⟩ := h.exists_cons
  intro heq
  obtain rfl : c = '-' := by simpa using heq
  exact absurd hc (by decide)

/-- An operand with its sign is known from the text, too. -/
theorem eq_of_signed_append_operator {sign sign' u v x y : List Char} {op op' : Operator}
    (hsign : sign = [] ∨ sign = ['-']) (hsign' : sign' = [] ∨ sign' = ['-']) (hu : Operand u)
    (hv : Operand v) (h : sign ++ u ++ op.symbol :: x = sign' ++ v ++ op'.symbol :: y) :
    sign ++ u = sign' ++ v := by
  rcases hsign with rfl | rfl <;> rcases hsign' with rfl | rfl
  · exact hu.eq_of_append_operator hv h
  · have h : u ++ op.symbol :: x = '-' :: (v ++ op'.symbol :: y) := h
    exact absurd (congrArg List.head? h) (hu.head?_ne_sign _)
  · have h : '-' :: (u ++ op.symbol :: x) = v ++ op'.symbol :: y := h
    exact absurd (congrArg List.head? h.symm) (hv.head?_ne_sign _)
  · exact congrArg ('-' :: ·) (hu.eq_of_append_operator hv (List.cons.inj h).2)

namespace Site

variable {s s' : Site} {tier tier' : Tier}
variable {outer left right rest outer' left' right' rest' : List Char}

theorem IsOperator.exists_symbol (h : s.IsOperator tier) :
    ∃ op : Operator, s.symbol = op.symbol := by
  obtain ⟨op, hop, -⟩ := Tier.holds_eq_true.mp h.holds
  exact ⟨op, hop⟩

/-- **In a formula, an operator that is grouped has both operands**, and the brackets round them are
partners. -/
theorem Enclosed.hasPair (h : s.Enclosed outer left right rest) (hs : s.IsOperator tier)
    (ha : Scan.Accepts s.text) : s.HasPair outer left right rest := by
  obtain ⟨op, hop⟩ := hs.exists_symbol
  obtain ⟨before, c, after⟩ := s
  obtain rfl : c = op.symbol := hop
  obtain rfl : before = left.reverse ++ '(' :: outer := h.before
  obtain rfl : after = right ++ ')' :: rest := h.after
  have htext : (Site.mk (left.reverse ++ '(' :: outer) op.symbol (right ++ ')' :: rest)).text =
      outer.reverse ++ '(' :: (left ++ op.symbol :: (right ++ ')' :: rest)) := by
    simp [text]
  rw [htext] at ha
  -- the scan up to the opening bracket, the operator and the closing bracket
  obtain ⟨z, hrun, -⟩ := ha
  obtain ⟨z₀, -, hrun⟩ := Scan.exists_run_of_run_append hrun
  obtain ⟨z₁, hopen, hrun⟩ := Scan.exists_reads_of_run_cons hrun
  obtain ⟨z₂, hleft, hrun⟩ := Scan.exists_run_of_run_append hrun
  obtain ⟨z₃, hoperator, hrun⟩ := Scan.exists_reads_of_run_cons hrun
  obtain ⟨z₄, hright, hrun⟩ := Scan.exists_run_of_run_append hrun
  obtain ⟨z₅, hclose, -⟩ := Scan.exists_reads_of_run_cons hrun
  obtain ⟨-, rfl⟩ := Scan.reads_opening hopen
  obtain ⟨rfl, hawaits⟩ := Scan.reads_operator hoperator
  have hroperand : Operand right := by
    rcases h.operand with rfl | hr
    · -- a closing bracket cannot follow the operator
      cases hright
      cases (Scan.reads_closing hclose).1
    · exact hr
  have hloperand : ∃ sign operand, left = sign ++ operand ∧ (sign = [] ∨ sign = ['-']) ∧
      Operand operand := by
    obtain ⟨sign, operand, rfl, hsign, rfl | ho⟩ := h.signedOperand
    · exfalso
      rcases hsign with rfl | rfl
      · -- behind the bracket, the operator would be a sign
        cases hleft
        obtain ⟨-, rfl⟩ := hawaits rfl
        cases hs.noSign
      · -- behind a sign, no operator can stand
        obtain ⟨z', hminus, hleft⟩ := Scan.exists_reads_of_run_cons hleft
        cases hleft
        have hsub : Scan.Reads ⟨.start, z₀.depth + 1⟩ Operator.sub.symbol z₂ := hminus
        obtain ⟨rfl, -⟩ := Scan.reads_operator hsub
        cases (hawaits rfl).1
    · exact ⟨sign, operand, rfl, hsign, ho⟩
  have hbalanced := balanced_operation h.signedOperand op h.operand
  refine ⟨rfl, rfl, hloperand, hroperand, ?_, ?_⟩
  · exact (splitAtPartner_eq_some_iff (by decide)).mpr ⟨by simp, hbalanced⟩
  · have hreverse := hbalanced.reverse
    exact (splitAtPartner_eq_some_iff (by decide)).mpr ⟨by simp, by simpa using hreverse⟩

namespace HasPair

/-- An opening bracket belongs to one operator. -/
theorem eq_of_outer (h : s.HasPair outer left right rest)
    (h' : s'.HasPair outer' left' right' rest') (hs : s.IsOperator tier)
    (hs' : s'.IsOperator tier') (htext : s.text = s'.text)
    (hlen : outer.length = outer'.length) : s = s' := by
  have heq : outer.reverse ++ '(' :: (left ++ s.symbol :: s.after) =
      outer'.reverse ++ '(' :: (left' ++ s'.symbol :: s'.after) := by
    simpa [text, h.before, h'.before] using htext
  obtain ⟨houter, htail⟩ := List.append_inj heq (by simpa using hlen)
  obtain rfl : outer = outer' := List.reverse_inj.mp houter
  obtain ⟨op, hop⟩ := hs.exists_symbol
  obtain ⟨op', hop'⟩ := hs'.exists_symbol
  obtain ⟨sign, u, hleft, hsign, hu⟩ := h.leftOperand
  obtain ⟨sign', v, hleft', hsign', hv⟩ := h'.leftOperand
  rw [hleft, hleft', hop, hop'] at htail
  have hsame : left = left' := by
    rw [hleft, hleft']
    exact eq_of_signed_append_operator hsign hsign' hu hv (List.cons.inj htail).2
  exact eq_of_text_eq htext (by rw [h.before, h'.before, hsame])

/-- A closing bracket belongs to one operator, because it has one partner. -/
theorem eq_of_rest (h : s.HasPair outer left right rest)
    (h' : s'.HasPair outer' left' right' rest') (hs : s.IsOperator tier)
    (hs' : s'.IsOperator tier') (htext : s.text = s'.text)
    (hlen : rest.length = rest'.length) : s = s' := by
  have heq : rest.reverse ++ ')' :: (right.reverse ++ s.symbol :: s.before) =
      rest'.reverse ++ ')' :: (right'.reverse ++ s'.symbol :: s'.before) := by
    simpa [text, h.after, h'.after] using congrArg List.reverse htext
  obtain ⟨-, htail⟩ := List.append_inj heq (by simpa using hlen)
  have hopens := h.opens
  rw [(List.cons.inj htail).2, h'.opens, Option.some.injEq, Prod.mk.injEq] at hopens
  exact h.eq_of_outer h' hs hs' htext (congrArg List.length hopens.2.symm)

end HasPair

end Site

/-! ### Grouped formulas -/

/-- Each operator of a text has a pair of its own, and no level has two operators. -/
structure FullyGrouped (text : List Char) : Prop where
  pair : ∀ s ∈ operatorSites text, ∃ outer left right rest, s.HasPair outer left right rest
  /-- The pairs of two operators have neither bracket in common. -/
  distinct : ∀ s ∈ operatorSites text, ∀ s' ∈ operatorSites text, s ≠ s' →
    ∀ outer left right rest outer' left' right' rest',
      s.HasPair outer left right rest → s'.HasPair outer' left' right' rest' →
        outer.length ≠ outer'.length ∧ rest.length ≠ rest'.length
  /-- The whole text is a level, and so is the inside of each pair. -/
  level : ∀ level ∈ text :: groups text, (ownOperators level).length ≤ 1

theorem fullyGrouped_group_text (d : Derivation .level) : FullyGrouped (group d.text) where
  pair := by
    intro s hs
    obtain ⟨htext, tier, hop⟩ := mem_operatorSites hs
    obtain ⟨outer, left, right, rest, henc⟩ :=
      Site.isGrouped_iff_enclosed.mp (isGrouped_of_text_eq_group htext hop)
    -- in any text the operator is grouped by now, and that no operand is missing is for the scan
    have haccepts : Scan.Accepts s.text := by
      rw [htext, group_text]
      exact Scan.exists_derivation_iff.mp ⟨d.grouped, rfl⟩
    exact ⟨outer, left, right, rest, henc.hasPair hop haccepts⟩
  distinct := by
    intro s hs s' hs' hne outer left right rest outer' left' right' rest' h h'
    obtain ⟨htext, tier, hop⟩ := mem_operatorSites hs
    obtain ⟨htext', tier', hop'⟩ := mem_operatorSites hs'
    have heq : s.text = s'.text := htext.trans htext'.symm
    constructor
    · exact fun hlen => hne (h.eq_of_outer h' hop hop' heq hlen)
    · exact fun hlen => hne (h.eq_of_rest h' hop hop' heq hlen)
  level := by
    have hgroup : group d.text = d.grouped.text := group_text d
    have hexplicit := d.isExplicit_grouped
    rw [hgroup, Derivation.groups_text]
    intro level hlevel
    rcases List.mem_cons.mp hlevel with rfl | hlevel
    · rw [Derivation.length_ownOperators, hexplicit.outermost]
      exact Nat.zero_le 1
    · obtain ⟨inner, hinner, rfl⟩ := List.mem_map.mp hlevel
      rw [Derivation.length_ownOperators]
      exact Derivation.groupsSatisfy_iff.mp hexplicit.groups inner hinner

/-- The pairs of a grouped text: one for each operator, and those that held none before. -/
theorem length_groups_group_text (d : Derivation .level) :
    (groups (group d.text)).length =
      (operatorSites d.text).length +
        (groups d.text).countP fun inner => ownOperators inner = [] := by
  have hgroup : group d.text = d.grouped.text := group_text d
  have hbare : ∀ inner : Derivation .level,
      ownOperators inner.text = [] ↔ inner.operators = [] := by
    intro inner
    rw [← List.length_eq_zero_iff, inner.length_ownOperators, List.length_eq_zero_iff]
  rw [hgroup, Derivation.groups_text, Derivation.groups_text, Derivation.length_operatorSites,
    List.length_map, Derivation.length_innerLevels_grouped, List.countP_map]
  refine congrArg _ (List.countP_congr fun inner _ => ?_)
  simp [hbare]

/-- **Grouping a formula gives each of its operators a pair of its own and adds no other pair.** -/
theorem fullyGrouped_group {text : List Char} (hvalid : isValid text = true)
    (hblank : ∀ c ∈ text, Text.isBlank c = false) :
    FullyGrouped (group text) ∧
      (groups (group text)).length = (operatorSites text).length +
        (groups text).countP fun inner => ownOperators inner = [] := by
  obtain ⟨d, hd⟩ := isValid_iff_exists_derivation.mp hvalid
  rw [Text.dropBlanks_eq_self.mpr hblank] at hd
  subst hd
  exact ⟨fullyGrouped_group_text d, length_groups_group_text d⟩

/-- Four operators get a pair each, and the pair round `12` stays. -/
theorem fullyGrouped_group_nested :
    isValid "(12)*(3+4*5)-6".toList = true ∧
      FullyGrouped (group "(12)*(3+4*5)-6".toList) ∧
      (groups (group "(12)*(3+4*5)-6".toList)).length = 5 := by
  have hvalid : isValid "(12)*(3+4*5)-6".toList = true := by decide +kernel
  have hblank : ∀ c ∈ "(12)*(3+4*5)-6".toList, Text.isBlank c = false :=
    Text.dropBlanks_eq_self.mp (by decide +kernel)
  have hcount : (operatorSites "(12)*(3+4*5)-6".toList).length +
      (groups "(12)*(3+4*5)-6".toList).countP (fun inner => ownOperators inner = []) = 5 := by
    decide +kernel
  obtain ⟨hgrouped, hlength⟩ := fullyGrouped_group hvalid hblank
  exact ⟨hvalid, hgrouped, hlength.trans hcount⟩

end ExactCalc.Formula
