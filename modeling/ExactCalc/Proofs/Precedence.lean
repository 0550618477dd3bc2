/-
Grouping keeps the meaning and leaves one operator to a level.

* `Derivation.operators_regroup` — a pass takes the operators of its tier out of a level;
* `Derivation.GroupsSatisfy` — a property of the operators of each group;
* `Derivation.reading_regroup` — the multiplicative pass keeps what a level means;
* `Derivation.tree_regroup` — so does the additive pass, behind the multiplicative one;
* `Derivation.IsExplicit` — no level has two operators, and the outermost has none;
* `Derivation.isExplicit_grouped`, `Derivation.tree_grouped` — both passes together.
-/
import ExactCalc.Proofs.Regrouping

namespace ExactCalc.Formula.Derivation

variable {part : Part} {tier : Tier} {enclosed : Bool}

/-! ### The operators of a level -/

@[simp]
theorem operators_wrap (before : Derivation .level) (op : Operator)
    (operand : Derivation .operand) : (before.wrap op operand).operators = before.operators := by
  cases before <;> rfl

/-- A pass leaves a level the operators of the other tier. -/
theorem operators_regroup (tier : Tier) (d : Derivation part) :
    (d.regroup tier false).operators = d.operators.filter fun op => op.tier ≠ tier := by
  induction d with
  | digits run => rfl
  | group inner => rfl
  | first signed operand => rfl
  | more before op operand ih =>
    by_cases ht : op.tier = tier
    · rw [regroup_more_of_wrap ht (by simp), operators_wrap, ih]
      simp [operators, ht]
    · rw [regroup_more_of_keep fun hc => absurd hc ht, operators, ih]
      simp [operators, ht]

@[simp]
theorem operators_operand (operand : Derivation .operand) : operand.operators = [] := by
  cases operand <;> rfl

/-- Before the only operator of a level there is none. -/
theorem operators_eq_nil_of_length {before : Derivation .level} {op : Operator}
    {operand : Derivation .operand} (h : (more before op operand).operators.length ≤ 1) :
    before.operators = [] := by
  rw [operators, List.length_append, List.length_singleton] at h
  exact List.length_eq_zero_iff.mp (by omega)

/-- Between brackets of its own, a level keeps one operator or those of the other tier. -/
theorem operators_regroup_enclosed (tier : Tier) (d : Derivation .level) :
    (d.regroup tier true).operators = (d.operators.filter fun op => op.tier ≠ tier) ∨
      (d.regroup tier true).operators.length = 1 := by
  cases d with
  | first signed operand => exact .inl rfl
  | more before op operand =>
    by_cases ht : op.tier = tier
    · by_cases hb : (before.regroup tier false).operators = []
      · rw [regroup_more_of_keep fun _ => ⟨rfl, hb⟩]
        exact .inr (by simp [operators, hb])
      · rw [regroup_more_of_wrap ht fun hc => hb hc.2, operators_wrap, operators_regroup]
        exact .inl (by simp [operators, ht])
    · rw [regroup_more_of_keep fun hc => absurd hc ht, operators, operators_regroup]
      exact .inl (by simp [operators, ht])

/-- Each group has operators of its own with a property. -/
def GroupsSatisfy (p : List Operator → Prop) : {part : Part} → Derivation part → Prop
  | _, digits _ => True
  | _, group inner => p inner.operators ∧ inner.GroupsSatisfy p
  | _, first _ operand => operand.GroupsSatisfy p
  | _, more before _ operand => before.GroupsSatisfy p ∧ operand.GroupsSatisfy p

theorem groupsSatisfy_true (d : Derivation part) : d.GroupsSatisfy fun _ => True := by
  induction d with
  | digits => trivial
  | group inner ih => exact ⟨trivial, ih⟩
  | first signed operand ih => exact ih
  | more before op operand ihb ihp => exact ⟨ihb, ihp⟩

theorem GroupsSatisfy.wrap {p : List Operator → Prop} {before : Derivation .level} {op : Operator}
    {operand : Derivation .operand} (hb : before.GroupsSatisfy p)
    (ho : operand.GroupsSatisfy p) (hp : p [op]) : (before.wrap op operand).GroupsSatisfy p := by
  cases before with
  | first signed left => exact ⟨hp, hb, ho⟩
  | more before op₀ left => exact ⟨hb.1, hp, hb.2, ho⟩

/-- What a pass makes of the groups: those it adds have one operator. -/
theorem GroupsSatisfy.regroup {p q : List Operator → Prop}
    (hinner : ∀ inner : Derivation .level,
      p inner.operators → q (inner.regroup tier true).operators)
    (hone : ∀ op, q [op]) {d : Derivation part} (h : d.GroupsSatisfy p) :
    (d.regroup tier enclosed).GroupsSatisfy q := by
  induction d generalizing enclosed with
  | digits => trivial
  | group inner ih => exact ⟨hinner inner h.1, ih h.2⟩
  | first signed operand ih => exact ih h
  | more before op operand ihb ihp =>
    rw [Derivation.regroup]
    split
    · exact GroupsSatisfy.wrap (ihb h.1) (ihp h.2) (hone op)
    · exact ⟨ihb h.1, ihp h.2⟩

/-- The operators of a level behind the multiplicative pass. -/
def TermsGrouped (operators : List Operator) : Prop :=
  operators.length ≤ 1 ∨ ∀ op ∈ operators, op.tier = .additive

theorem tier_ne_multiplicative {op : Operator} :
    op.tier ≠ .multiplicative ↔ op.tier = .additive := by
  cases op.tier <;> simp

theorem additive_of_mem_filter (operators : List Operator) :
    ∀ op ∈ operators.filter (fun op => op.tier ≠ .multiplicative), op.tier = .additive := by
  intro op hop
  exact tier_ne_multiplicative.mp (by simpa using (List.mem_filter.mp hop).2)

/-- Outside brackets the multiplicative pass leaves additive operators alone. -/
theorem additive_of_mem_regroup (d : Derivation .level) :
    ∀ op ∈ (d.regroup .multiplicative false).operators, op.tier = .additive := by
  rw [operators_regroup]
  exact additive_of_mem_filter d.operators

theorem termsGrouped_regroup (inner : Derivation .level) :
    TermsGrouped (inner.regroup .multiplicative true).operators := by
  rcases operators_regroup_enclosed .multiplicative inner with h | h
  · rw [h]
    exact .inr (additive_of_mem_filter _)
  · exact .inl (by omega)

theorem termsGrouped_operand (operand : Derivation .operand) : TermsGrouped operand.operators :=
  .inl (by simp)

theorem operators_regroup_additive {d : Derivation .level}
    (h : ∀ op ∈ d.operators, op.tier = .additive) : (d.regroup .additive false).operators = [] := by
  rw [operators_regroup, List.filter_eq_nil_iff]
  intro op hop
  simp [h op hop]

theorem length_operators_regroup_additive {inner : Derivation .level}
    (h : TermsGrouped inner.operators) : (inner.regroup .additive true).operators.length ≤ 1 := by
  rcases operators_regroup_enclosed .additive inner with heq | heq
  · rw [heq]
    rcases h with h | h
    · exact Nat.le_trans (List.length_filter_le _ _) h
    · rw [List.filter_eq_nil_iff.mpr fun op hop => by simp [h op hop]]
      exact Nat.zero_le 1
  · omega

/-! ### The meaning of a level -/

theorem reading_more (before : Derivation .level) (op : Operator) (operand : Derivation .operand) :
    (more before op operand).reading = before.reading.extend op operand.tree := rfl

theorem reading_group (inner : Derivation .level) :
    (group inner).reading = ⟨none, inner.tree⟩ := rfl

theorem reading_first (signed : Bool) (operand : Derivation .operand) :
    (first signed operand).reading = ⟨none, (first signed operand).tree⟩ := by
  cases signed <;> cases operand <;> rfl

/-- Without an operator before it, any operator joins the operands on its two sides. -/
theorem tree_more_of_operators_eq_nil {before : Derivation .level} (h : before.operators = [])
    (op : Operator) (operand : Derivation .operand) :
    (more before op operand).tree = .binary op before.tree operand.tree := by
  cases before with
  | more before op₀ left => simp [operators] at h
  | first signed left =>
    cases ht : op.tier with
    | additive => exact tree_more_additive _ _ ht
    | multiplicative =>
      rw [tree, reading_more_multiplicative _ _ ht, reading_first]
      rfl

/-- A tight operator may get brackets with the term before it, if that is a single operand. -/
theorem reading_wrap {before : Derivation .level} {op : Operator}
    (hb : ∀ op₀ ∈ before.operators, op₀.tier = .additive) (ht : op.tier = .multiplicative)
    (operand : Derivation .operand) :
    (before.wrap op operand).reading = (more before op operand).reading := by
  rw [reading_more_multiplicative _ _ ht]
  cases before with
  | first signed left =>
    rw [wrap, reading_first, tree_unsigned, tree_group, tree_more_of_operators_eq_nil rfl,
      reading_first]
  | more before op₀ left =>
    have h₀ : op₀.tier = .additive := hb op₀ (by simp [operators])
    have hinner :
        (more (first false left) op operand).tree = .binary op left.tree operand.tree := by
      rw [tree_more_of_operators_eq_nil rfl, tree_unsigned]
    rw [wrap, reading_more, reading_more, tree_group, hinner]
    simp [Reading.extend_of_additive _ _ h₀]

/-- A level that is a single operand may get brackets with what follows. -/
theorem tree_wrap {before : Derivation .level} (hb : before.operators = []) (op : Operator)
    (operand : Derivation .operand) :
    (before.wrap op operand).tree = (more before op operand).tree := by
  cases before with
  | first signed left => rw [wrap, tree_unsigned, tree_group]
  | more before op₀ left => simp [operators] at hb

/-- The tree of a signed operand follows from the tree of the operand, if the two kinds of operands
are kept apart. -/
theorem tree_first_regroup {signed : Bool} {operand : Derivation .operand}
    (h : (operand.regroup tier false).tree = operand.tree) :
    (first signed (operand.regroup tier false)).tree = (first signed operand).tree := by
  cases signed with
  | false => rw [tree_unsigned, tree_unsigned, h]
  | true =>
    cases operand with
    | digits run => rfl
    | group inner =>
      rw [Derivation.regroup, tree_group, tree_group] at h
      rw [Derivation.regroup, tree_signed_group, tree_signed_group, h]

/-- **The multiplicative pass keeps the meaning.** -/
theorem reading_regroup (d : Derivation part) (enclosed : Bool) :
    (d.regroup .multiplicative enclosed).reading = d.reading := by
  induction d generalizing enclosed with
  | digits run => rfl
  | group inner ih =>
    have htree : (inner.regroup .multiplicative true).tree = inner.tree :=
      congrArg Reading.tree (ih true)
    rw [Derivation.regroup, reading_group, reading_group, htree]
  | first signed operand ih =>
    have htree : (operand.regroup .multiplicative false).tree = operand.tree :=
      congrArg Reading.tree (ih false)
    rw [Derivation.regroup, reading_first, tree_first_regroup htree, ← reading_first]
  | more before op operand ihb ihp =>
    have hmore : (more (before.regroup .multiplicative false) op
        (operand.regroup .multiplicative false)).reading = (more before op operand).reading := by
      rw [reading_more, reading_more, ihb false]
      exact congrArg (before.reading.extend op) (congrArg Reading.tree (ihp false))
    rw [Derivation.regroup]
    split
    · next h =>
      -- the operators before `op` that are left are additive, so the pair holds a whole term
      exact (reading_wrap before.additive_of_mem_regroup h.1 _).trans hmore
    · exact hmore

namespace TermsGrouped

variable {before : Derivation .level} {op : Operator} {operand : Derivation .operand}
variable (h : TermsGrouped (more before op operand).operators)
include h

/-- Behind the multiplicative pass an operator is the only one of its level, or all operators of the
level are additive. -/
theorem cases_more :
    before.operators = [] ∨
      (op.tier = .additive ∧ ∀ op₀ ∈ before.operators, op₀.tier = .additive) := by
  rcases h with hlen | hadd
  · exact .inl (operators_eq_nil_of_length hlen)
  · simp only [operators, List.mem_append, List.mem_singleton] at hadd
    exact .inr ⟨hadd op (.inr rfl), fun op₀ h₀ => hadd op₀ (.inl h₀)⟩

theorem of_more : TermsGrouped before.operators := by
  rcases h.cases_more with hnil | ⟨-, hadd⟩
  · exact .inl (by simp [hnil])
  · exact .inr hadd

/-- The additive pass leaves no operator before the one that it comes to. -/
theorem operators_regroup_before : (before.regroup .additive false).operators = [] := by
  refine operators_regroup_additive fun op₀ h₀ => ?_
  rcases h.cases_more with hnil | ⟨-, hadd⟩
  · simp [hnil] at h₀
  · exact hadd op₀ h₀

/-- An operator joins all that stands before it with the operand behind it. -/
theorem tree_more : (more before op operand).tree = .binary op before.tree operand.tree := by
  rcases h.cases_more with hnil | ⟨ht, -⟩
  · exact tree_more_of_operators_eq_nil hnil op operand
  · exact tree_more_additive before operand ht

end TermsGrouped

/-- **The additive pass keeps the tree**, if no level has a tight operator beside another one. -/
theorem tree_regroup {d : Derivation part} (enclosed : Bool) (h : d.GroupsSatisfy TermsGrouped)
    (hown : TermsGrouped d.operators) :
    (d.regroup .additive enclosed).tree = d.tree := by
  induction d generalizing enclosed with
  | digits run => rfl
  | group inner ih =>
    rw [Derivation.regroup, tree_group, tree_group, ih true h.2 h.1]
  | first signed operand ih =>
    exact tree_first_regroup (ih false h (operand.termsGrouped_operand))
  | more before op operand ihb ihp =>
    -- a loose operator joins all that stands before it, which is its left operand only because the
    -- tight operators have their groups
    have hbefore : (before.regroup .additive false).operators = [] := hown.operators_regroup_before
    have hmore : (more (before.regroup .additive false) op
        (operand.regroup .additive false)).tree = (more before op operand).tree := by
      rw [tree_more_of_operators_eq_nil hbefore, hown.tree_more, ihb false h.1 hown.of_more,
        ihp false h.2 operand.termsGrouped_operand]
    rw [Derivation.regroup]
    split
    · exact (tree_wrap hbefore op _).trans hmore
    · exact hmore

/-! ### Both passes -/

/-- No group has two operators of its own. -/
def SingleOperators (d : Derivation part) : Prop :=
  d.GroupsSatisfy fun operators => operators.length ≤ 1

/-- All operators stand in groups, each in one of its own. -/
structure IsExplicit (d : Derivation .level) : Prop where
  groups : d.SingleOperators
  outermost : d.operators = []

/-- What is grouped already is left as it is. -/
theorem regroup_eq_self (tier : Tier) {d : Derivation part} (h : d.SingleOperators)
    (hown : d.operators = [] ∨ (enclosed = true ∧ d.operators.length ≤ 1)) :
    d.regroup tier enclosed = d := by
  induction d generalizing enclosed with
  | digits run => rfl
  | group inner ih =>
    have hinner : inner.regroup tier true = inner := ih h.2 (.inr ⟨rfl, h.1⟩)
    rw [Derivation.regroup, hinner]
  | first signed operand ih =>
    have hoperand : operand.regroup tier false = operand := ih h (.inl operand.operators_operand)
    rw [Derivation.regroup, hoperand]
  | more before op operand ihb ihp =>
    obtain ⟨he, hbefore⟩ : enclosed = true ∧ before.operators = [] := by
      rcases hown with hnil | ⟨he, hlen⟩
      · simp [operators] at hnil
      · exact ⟨he, operators_eq_nil_of_length hlen⟩
    have hb : before.regroup tier false = before := ihb h.1 (.inl hbefore)
    have ho : operand.regroup tier false = operand := ihp h.2 (.inl operand.operators_operand)
    rw [regroup_more_of_keep fun _ => ⟨he, by rw [hb, hbefore]⟩, hb, ho]

/-- A derivation with all its operators grouped. -/
def grouped (d : Derivation .level) : Derivation .level :=
  (d.regroup .multiplicative false).regroup .additive false

theorem groupsSatisfy_termsGrouped (d : Derivation .level) :
    (d.regroup .multiplicative false).GroupsSatisfy TermsGrouped :=
  GroupsSatisfy.regroup (fun inner _ => termsGrouped_regroup inner)
    (fun _ => .inl (Nat.le_refl 1)) d.groupsSatisfy_true

theorem isExplicit_grouped (d : Derivation .level) : d.grouped.IsExplicit where
  groups := GroupsSatisfy.regroup (fun _ h => length_operators_regroup_additive h)
    (fun _ => Nat.le_refl 1) d.groupsSatisfy_termsGrouped
  outermost := operators_regroup_additive d.additive_of_mem_regroup

theorem IsExplicit.grouped_eq_self {d : Derivation .level} (h : d.IsExplicit) : d.grouped = d := by
  rw [grouped, regroup_eq_self _ h.groups (.inl h.outermost),
    regroup_eq_self _ h.groups (.inl h.outermost)]

theorem tree_grouped (d : Derivation .level) : d.grouped.tree = d.tree := by
  have hterms := d.groupsSatisfy_termsGrouped
  have hown : TermsGrouped (d.regroup .multiplicative false).operators :=
    .inr d.additive_of_mem_regroup
  calc d.grouped.tree = (d.regroup .multiplicative false).tree := tree_regroup false hterms hown
    _ = d.tree := congrArg Reading.tree (d.reading_regroup false)

end ExactCalc.Formula.Derivation
