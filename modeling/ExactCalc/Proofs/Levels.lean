/-
The operators and the brackets of a text, counted.

* `operatorSites` — all binary operators of a text; `ownOperators` — those outside its brackets;
* `groups` — what stands between the two brackets of each pair;
* `Derivation.depths`, `Derivation.innerLevels` — the same for a derivation;
* `Derivation.map_depth_operatorSites`, `Derivation.groups_text` — both agree for a derived text;
* `Derivation.length_innerLevels` — where no level has two operators, how many pairs there are;
* `Derivation.length_innerLevels_grouped` — how many pairs there are in a grouped text.
-/
import ExactCalc.Proofs.Precedence

namespace ExactCalc.Formula

/-- The number of brackets that are open behind the reversed text `before`. -/
def openBrackets (before : List Char) : Nat :=
  before.foldr (fun c depth => depthAfter '(' ')' depth c) 0

/-- The number of brackets that are open at a site. -/
def Site.depth (s : Site) : Nat :=
  openBrackets s.before

/-- The binary operators of a text from a position on.  A sign is no operator. -/
def sitesFrom (before : List Char) : List Char → List Site
  | [] => []
  | c :: after =>
    if (Operator.ofChar? c).isSome && !isSign before c then
      ⟨before, c, after⟩ :: sitesFrom (c :: before) after
    else sitesFrom (c :: before) after

/-- All binary operators of a text, wherever they stand. -/
def operatorSites (text : List Char) : List Site :=
  sitesFrom [] text

/-- The binary operators that a text has outside its brackets. -/
def ownOperators (text : List Char) : List Site :=
  (operatorSites text).filter fun s => s.depth = 0

/-- What stands between the two brackets of each pair, in the order of the opening brackets. -/
def groups : List Char → List (List Char)
  | [] => []
  | c :: rest =>
    if c = '(' then (splitAtPartner '(' ')' 0 rest).toList.map Prod.fst ++ groups rest
    else groups rest

/-! ### Operators -/

section Sites

variable {before after : List Char} {c : Char}

theorem sitesFrom_operator {op : Operator} (h : isSign before op.symbol = false) :
    sitesFrom before (op.symbol :: after) =
      ⟨before, op.symbol, after⟩ :: sitesFrom (op.symbol :: before) after := by
  simp [sitesFrom, h]

/-- Past a character that is no operator, or a sign. -/
theorem sitesFrom_skip (h : Operator.ofChar? c = none ∨ isSign before c = true) :
    sitesFrom before (c :: after) = sitesFrom (c :: before) after := by
  rcases h with h | h <;> simp [sitesFrom, h]

theorem sitesFrom_digits {digits : List Char} (h : ∀ c ∈ digits, c.isDigit = true) :
    sitesFrom before (digits ++ after) = sitesFrom (digits.reverse ++ before) after := by
  induction digits generalizing before with
  | nil => rfl
  | cons c digits ih =>
    have hc : Operator.ofChar? c = none := Operator.ofChar?_of_isDigit (h c List.mem_cons_self)
    rw [List.cons_append, sitesFrom_skip (.inl hc), ih fun d hd => h d (List.mem_cons_of_mem c hd)]
    simp

/-- A balanced text opens no bracket that it does not close. -/
theorem openBrackets_append {text : List Char} (h : Balanced '(' ')' text) (before : List Char) :
    openBrackets (text.reverse ++ before) = openBrackets before := by
  induction h generalizing before with
  | nil => rfl
  | @plain c text hs hp _ ih =>
    rw [List.reverse_cons, List.append_assoc, List.singleton_append, ih]
    simp [openBrackets, depthAfter, hs, hp]
  | @group inner text _ _ ihi ih =>
    have heq : ('(' :: (inner ++ ')' :: text)).reverse ++ before =
        text.reverse ++ ')' :: (inner.reverse ++ '(' :: before) := by simp
    have hclose : openBrackets (')' :: (inner.reverse ++ '(' :: before)) =
        openBrackets (inner.reverse ++ '(' :: before) - 1 := rfl
    have hopen : openBrackets ('(' :: before) = openBrackets before + 1 := rfl
    rw [heq, ih, hclose, ihi, hopen, Nat.add_sub_cancel]

end Sites

namespace Derivation

variable {part : Part}

/-- The depths of all operators, where `depth` brackets are open round the derived text. -/
def depths : {part : Part} → Nat → Derivation part → List Nat
  | _, _, digits _ => []
  | _, depth, group inner => inner.depths (depth + 1)
  | _, depth, first _ operand => operand.depths depth
  | _, depth, more before _ operand => before.depths depth ++ depth :: operand.depths depth

/-- All levels inside groups. -/
def innerLevels : {part : Part} → Derivation part → List (Derivation .level)
  | _, digits _ => []
  | _, group inner => inner :: inner.innerLevels
  | _, first _ operand => operand.innerLevels
  | _, more before _ operand => before.innerLevels ++ operand.innerLevels

theorem le_of_mem_depths (d : Derivation part) {depth n : Nat} (h : n ∈ d.depths depth) :
    depth ≤ n := by
  induction d generalizing depth with
  | digits run => cases h
  | group inner ih => exact Nat.le_of_succ_le (ih h)
  | first signed operand ih => exact ih h
  | more before op operand ihb ihp =>
    rcases List.mem_append.mp h with h | h
    · exact ihb h
    · rcases List.mem_cons.mp h with rfl | h
      · exact Nat.le_refl _
      · exact ihp h

/-- The operators of a level are those at its own depth. -/
theorem count_depths (d : Derivation part) (depth : Nat) :
    (d.depths depth).count depth = d.operators.length := by
  induction d with
  | digits run => rfl
  | group inner =>
    refine List.count_eq_zero.mpr fun h => ?_
    have := inner.le_of_mem_depths h
    omega
  | first signed operand ih =>
    rw [operators_operand] at ih
    exact ih
  | more before op operand ihb ihp =>
    rw [operators_operand] at ihp
    simp [depths, operators, ihb, ihp]

/-- The number of inner levels without an operator of their own. -/
def bareLevels (d : Derivation part) : Nat :=
  d.innerLevels.countP fun inner => inner.operators.isEmpty

theorem bareLevels_group (inner : Derivation .level) :
    (group inner).bareLevels = inner.bareLevels + if inner.operators.isEmpty then 1 else 0 :=
  List.countP_cons

theorem bareLevels_first (signed : Bool) (operand : Derivation .operand) :
    (first signed operand).bareLevels = operand.bareLevels := rfl

theorem bareLevels_more (before : Derivation .level) (op : Operator)
    (operand : Derivation .operand) :
    (more before op operand).bareLevels = before.bareLevels + operand.bareLevels :=
  List.countP_append

/-- Where no level has two operators of its own, there is a group for each operator but those
outside all groups, and one for each level without an operator. -/
theorem length_innerLevels {d : Derivation part} (h : d.SingleOperators) (depth : Nat) :
    d.innerLevels.length + d.operators.length = (d.depths depth).length + d.bareLevels := by
  induction d generalizing depth with
  | digits run => rfl
  | group inner ih =>
    have hown : inner.operators.length ≤ 1 := h.1
    have hinner := ih h.2 (depth + 1)
    simp only [innerLevels, depths, operators, bareLevels_group, List.length_cons, List.length_nil,
      List.isEmpty_iff_length_eq_zero]
    split <;> omega
  | first signed operand ih =>
    have hoperand := ih h depth
    rw [operators_operand] at hoperand
    exact hoperand
  | more before op operand ihb ihp =>
    have hbefore := ihb h.1 depth
    have hoperand := ihp h.2 depth
    simp only [operators_operand, List.length_nil] at hoperand
    simp only [innerLevels, depths, operators, bareLevels_more, List.length_append,
      List.length_cons, List.length_nil]
    omega

/-- The operators of a derived text, one bracket level deeper for each group. -/
theorem map_depth_sitesFrom (d : Derivation part) (before after : List Char)
    (h : part = .level → opensLevel before = true) :
    (sitesFrom before (d.text ++ after)).map Site.depth =
      d.depths (openBrackets before) ++
        (sitesFrom (d.text.reverse ++ before) after).map Site.depth := by
  have hoperand : ∀ {before : List Char}, Part.operand = .level → opensLevel before = true :=
    fun h => absurd h Part.operand_ne_level
  induction d generalizing before after with
  | digits run =>
    rw [text, sitesFrom_digits run.isDigit_of_mem]
    rfl
  | group inner ih =>
    have hinner := ih ('(' :: before) (')' :: after) fun _ => rfl
    rw [text, List.cons_append, List.append_assoc, List.singleton_append,
      sitesFrom_skip (.inl rfl), hinner, sitesFrom_skip (.inl rfl)]
    simp [depths, openBrackets, depthAfter]
  | first signed operand ih =>
    cases signed with
    | true =>
      have hsign : isSign before '-' = true := by simp [isSign, h rfl]
      have hdepth : openBrackets ('-' :: before) = openBrackets before := rfl
      rw [text, List.cons_append, sitesFrom_skip (.inr hsign), ih _ _ hoperand, hdepth]
      simp [depths]
    | false => exact ih before after hoperand
  | more first op operand ihf ihp =>
    have hfirst : openBrackets (first.text.reverse ++ before) = openBrackets before :=
      openBrackets_append first.balanced_text before
    have hop : openBrackets (op.symbol :: (first.text.reverse ++ before)) =
        openBrackets before := by
      rw [← hfirst]
      simp [openBrackets, depthAfter, op.symbol_ne_opening, op.symbol_ne_closing]
    rw [text, List.append_assoc, List.cons_append, ihf _ _ h,
      sitesFrom_operator (isSign_reverse_text first before op.symbol), List.map_cons,
      ihp _ _ hoperand, hop, Site.depth, hfirst]
    simp [depths]

theorem map_depth_operatorSites (d : Derivation .level) :
    (operatorSites d.text).map Site.depth = d.depths 0 := by
  have h := d.map_depth_sitesFrom [] [] fun _ => rfl
  simpa [operatorSites, sitesFrom, openBrackets] using h

theorem length_operatorSites (d : Derivation .level) :
    (operatorSites d.text).length = (d.depths 0).length := by
  rw [← map_depth_operatorSites, List.length_map]

theorem length_ownOperators (d : Derivation .level) :
    (ownOperators d.text).length = d.operators.length := by
  rw [← d.count_depths 0, ← map_depth_operatorSites, ownOperators, ← List.countP_eq_length_filter,
    List.count, List.countP_map]
  rfl

/-! ### Pairs -/

theorem groups_skip {plain : List Char} (h : ∀ c ∈ plain, c ≠ '(') (after : List Char) :
    groups (plain ++ after) = groups after := by
  induction plain with
  | nil => rfl
  | cons c plain ih =>
    rw [List.cons_append, groups, if_neg (h c List.mem_cons_self)]
    exact ih fun d hd => h d (List.mem_cons_of_mem c hd)

theorem groups_append (d : Derivation part) (after : List Char) :
    groups (d.text ++ after) = d.innerLevels.map text ++ groups after := by
  induction d generalizing after with
  | digits run =>
    exact groups_skip (fun c hc => ne_of_isDigit (run.isDigit_of_mem c hc) rfl) after
  | group inner ih =>
    have hsplit : splitAtPartner '(' ')' 0 (inner.text ++ ')' :: after) =
        some (inner.text, after) :=
      (splitAtPartner_eq_some_iff (by decide)).mpr ⟨rfl, inner.balanced_text⟩
    have hclose : groups (')' :: after) = groups after := rfl
    rw [text, List.cons_append, List.append_assoc, List.singleton_append, groups, if_pos rfl,
      hsplit, ih, hclose]
    rfl
  | first signed operand ih =>
    cases signed with
    | true => exact ih after
    | false => exact ih after
  | more before op operand ihb ihp =>
    have hop : ∀ c ∈ [op.symbol], c ≠ '(' := by simp [op.symbol_ne_opening]
    rw [text, List.append_assoc, ihb, ← List.singleton_append, List.append_assoc,
      groups_skip hop, ihp, innerLevels, List.map_append, List.append_assoc]

/-- The pairs of a derived text are those of its groups. -/
theorem groups_text (d : Derivation part) : groups d.text = d.innerLevels.map text := by
  simpa [groups] using d.groups_append []

/-- A property of the operators of each group is one of each inner level. -/
theorem groupsSatisfy_iff {p : List Operator → Prop} {d : Derivation part} :
    d.GroupsSatisfy p ↔ ∀ inner ∈ d.innerLevels, p inner.operators := by
  induction d with
  | digits run => simp [GroupsSatisfy, innerLevels]
  | group inner ih => simp [GroupsSatisfy, innerLevels, ih]
  | first signed operand ih => exact ih
  | more before op operand ihb ihp =>
    simp only [GroupsSatisfy, innerLevels, List.forall_mem_append, ihb, ihp]

/-! ### Grouping -/

section Regroup

variable {tier : Tier} {enclosed : Bool}

theorem length_depths_succ (d : Derivation part) (depth : Nat) :
    (d.depths (depth + 1)).length = (d.depths depth).length := by
  induction d generalizing depth with
  | digits run => rfl
  | group inner ih => exact ih (depth + 1)
  | first signed operand ih => exact ih depth
  | more before op operand ihb ihp => simp [depths, ihb, ihp]

/-- A pair is no operator. -/
theorem length_depths_wrap (before : Derivation .level) (op : Operator)
    (operand : Derivation .operand) (depth : Nat) :
    ((before.wrap op operand).depths depth).length =
      ((more before op operand).depths depth).length := by
  cases before with
  | first signed left => simp [wrap, depths, length_depths_succ]
  | more before op₀ left =>
    simp [wrap, depths, length_depths_succ, Nat.add_assoc]

theorem length_depths_regroup (d : Derivation part) (enclosed : Bool) (depth : Nat) :
    ((d.regroup tier enclosed).depths depth).length = (d.depths depth).length := by
  induction d generalizing enclosed depth with
  | digits run => rfl
  | group inner ih => exact ih true (depth + 1)
  | first signed operand ih => exact ih false depth
  | more before op operand ihb ihp =>
    have hmore : ((more (before.regroup tier false) op (operand.regroup tier false)).depths
        depth).length = ((more before op operand).depths depth).length := by
      simp [depths, ihb, ihp]
    rw [regroup]
    split
    · exact (length_depths_wrap _ op _ depth).trans hmore
    · exact hmore

/-- A pair that is put round an operation has an operator. -/
theorem bareLevels_wrap (before : Derivation .level) (op : Operator)
    (operand : Derivation .operand) :
    (before.wrap op operand).bareLevels = (more before op operand).bareLevels := by
  cases before with
  | first signed left => simp [wrap, bareLevels_group, bareLevels_first, bareLevels_more, operators]
  | more before op₀ left =>
    simp [wrap, bareLevels_group, bareLevels_first, bareLevels_more, operators, Nat.add_assoc]

/-- Between brackets of its own, a level keeps its last operator. -/
theorem operators_regroup_eq_nil (d : Derivation .level) :
    (d.regroup tier true).operators = [] ↔ d.operators = [] := by
  cases d with
  | first signed operand => exact Iff.rfl
  | more before op operand =>
    rw [regroup]
    split
    · next h =>
      have hbefore : (before.regroup tier false).operators ≠ [] := fun hnil => h.2 ⟨rfl, hnil⟩
      simp [operators, hbefore]
    · simp [operators]

theorem bareLevels_regroup (d : Derivation part) (enclosed : Bool) :
    (d.regroup tier enclosed).bareLevels = d.bareLevels := by
  induction d generalizing enclosed with
  | digits run => rfl
  | group inner ih =>
    have hown : (inner.regroup tier true).operators.isEmpty = inner.operators.isEmpty := by
      rw [Bool.eq_iff_iff, List.isEmpty_iff, List.isEmpty_iff, operators_regroup_eq_nil]
    rw [regroup, bareLevels_group, bareLevels_group, ih true, hown]
  | first signed operand ih => exact ih false
  | more before op operand ihb ihp =>
    have hmore : (more (before.regroup tier false) op (operand.regroup tier false)).bareLevels =
        (more before op operand).bareLevels := by
      rw [bareLevels_more, bareLevels_more, ihb false, ihp false]
    rw [regroup]
    split
    · exact (bareLevels_wrap _ op _).trans hmore
    · exact hmore

end Regroup

/-- **Grouping adds a pair for each operator that has none**, and no other pair. -/
theorem length_innerLevels_grouped (d : Derivation .level) :
    d.grouped.innerLevels.length = (d.depths 0).length + d.bareLevels := by
  have hexplicit := d.isExplicit_grouped
  have hlength := length_innerLevels hexplicit.groups 0
  rw [hexplicit.outermost, List.length_nil, Nat.add_zero] at hlength
  rw [hlength, grouped, length_depths_regroup, length_depths_regroup,
    bareLevels_regroup, bareLevels_regroup]

end Derivation

end ExactCalc.Formula
