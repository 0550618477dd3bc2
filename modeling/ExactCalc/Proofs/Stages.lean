/-
A pass, one step at a time.

* `Cursor.advance` — the cursor after any number of steps of a pass;
* `Cursor.Always` — what holds of every text that a pass goes through;
* `Derivation.Stage` — what a pass may have made of a derivation while it is under way;
* `Cursor.always_text` — a pass over a derived text goes through the texts of its stages;
* `Derivation.Stage.reading_eq`, `Derivation.Stage.tree_eq` — no stage changes what is meant;
* `SameMeaning` — a text is a formula with the tree of another one;
* `advance_keeps_meaning` — so the text means the same after each step of either pass.
-/
import ExactCalc.Proofs.Grouped

namespace ExactCalc.Formula

/-! ### Steps of a pass -/

namespace Cursor

variable {tier : Tier} {before after : List Char} {c c' : Cursor} {x : Char}
variable {p : List Char → Prop}

/-- The cursor after a number of steps of a pass, or at the end of the pass if there are fewer. -/
def advance (tier : Tier) : Nat → Cursor → Cursor
  | 0, c => c
  | n + 1, c =>
    match c.next? tier with
    | some c' => advance tier n c'
    | none => c

theorem advance_of_next? (h : c.next? tier = some c') (n : Nat) :
    c.advance tier (n + 1) = c'.advance tier n := by
  rw [advance, h]

theorem advance_of_none (h : c.next? tier = none) (n : Nat) : c.advance tier n = c := by
  cases n with
  | zero => rfl
  | succ n => rw [advance, h]

/-- After as many steps as there are operators to visit, the pass is over. -/
theorem text_advance_pending (tier : Tier) (c : Cursor) (n : Nat) (h : c.pending tier ≤ n) :
    (c.advance tier n).text = c.finish tier := by
  induction n generalizing c with
  | zero =>
    cases hn : c.next? tier with
    | none => rw [advance_of_none hn, finish_of_none hn]
    | some c' =>
      have hlt := pending_of_next? hn
      omega
  | succ n ih =>
    cases hn : c.next? tier with
    | none => rw [advance_of_none hn, finish_of_none hn]
    | some c' =>
      have hlt := pending_of_next? hn
      rw [advance_of_next? hn, finish_of_next? hn]
      exact ih c' (by omega)

/-- Every text that a pass goes through has a property. -/
def Always (tier : Tier) (p : List Char → Prop) (c : Cursor) : Prop :=
  ∀ n, p (c.advance tier n).text

theorem always_of_none (h : c.next? tier = none) (hc : p c.text) : c.Always tier p := by
  intro n
  rw [advance_of_none h]
  exact hc

theorem always_of_next? (h : c.next? tier = some c') (hc : p c.text) (hc' : c'.Always tier p) :
    c.Always tier p := by
  intro n
  cases n with
  | zero => exact hc
  | succ n =>
    rw [advance_of_next? h]
    exact hc' n

/-- A pass goes past a character that is no operator of its tier. -/
theorem always_skip (h : tier.holds x = false ∨ isSign before x = true)
    (hskip : Always tier p ⟨x :: before, after⟩) : Always tier p ⟨before, x :: after⟩ := by
  have htext : Cursor.text ⟨x :: before, after⟩ = Cursor.text ⟨before, x :: after⟩ := by
    simp [text]
  -- from both positions the next operator is the same
  have hnext : next? tier ⟨before, x :: after⟩ = next? tier ⟨x :: before, after⟩ := by
    rcases h with h | h <;> simp [next?, site?, h]
  have hstart : p (Cursor.text ⟨before, x :: after⟩) := by
    rw [← htext]
    exact hskip 0
  cases hn : next? tier ⟨x :: before, after⟩ with
  | none => exact always_of_none (hnext.trans hn) hstart
  | some c' =>
    refine always_of_next? (hnext.trans hn) hstart fun n => ?_
    have hn' := hskip (n + 1)
    rwa [advance_of_next? hn] at hn'

theorem always_skip_append {skipped : List Char} (h : ∀ x ∈ skipped, tier.holds x = false)
    (hskip : Always tier p ⟨skipped.reverse ++ before, after⟩) :
    Always tier p ⟨before, skipped ++ after⟩ := by
  induction skipped generalizing before with
  | nil => exact hskip
  | cons x skipped ih =>
    refine always_skip (.inl (h x List.mem_cons_self)) ?_
    refine ih (fun y hy => h y (List.mem_cons_of_mem x hy)) ?_
    simpa using hskip

/-- A pass goes on from a site. -/
theorem always_site (hx : tier.holds x = true) (hs : isSign before x = false)
    (hstart : p (before.reverse ++ x :: after))
    (hresume : Always tier p (Site.resume ⟨before, x, after⟩)) :
    Always tier p ⟨before, x :: after⟩ := by
  have hnext : next? tier ⟨before, x :: after⟩ = some (Site.resume ⟨before, x, after⟩) := by
    simp [next?, site?, hx, hs]
  exact always_of_next? hnext hstart hresume

end Cursor

/-! ### Stages -/

namespace Derivation

variable {part : Part} {tier : Tier} {enclosed : Bool}

/-- What a pass may have made of a derivation while it is under way.  In a level that is being
visited, what stands before the operator that was visited last is regrouped, the operand behind that
operator is under way, and all that follows is as it was. -/
inductive Stage (tier : Tier) :
    {part : Part} → (enclosed : Bool) → Derivation part → Derivation part → Prop where
  | untouched {part : Part} (enclosed : Bool) (d : Derivation part) : Stage tier enclosed d d
  | group {enclosed : Bool} {inner inner' : Derivation .level} (h : Stage tier true inner inner') :
      Stage tier enclosed (group inner) (group inner')
  | first {enclosed : Bool} (signed : Bool) {operand operand' : Derivation .operand}
      (h : Stage tier false operand operand') :
      Stage tier enclosed (first signed operand) (first signed operand')
  | before {enclosed : Bool} {before before' : Derivation .level} (op : Operator)
      (operand : Derivation .operand) (h : Stage tier false before before') :
      Stage tier enclosed (more before op operand) (more before' op operand)
  | keep {enclosed : Bool} (before : Derivation .level) {op : Operator}
      {operand operand' : Derivation .operand} (h : Stage tier false operand operand') :
      Stage tier enclosed (more before op operand) (more (before.regroup tier false) op operand')
  | wrap {enclosed : Bool} (before : Derivation .level) {op : Operator}
      {operand operand' : Derivation .operand} (ht : op.tier = tier)
      (h : Stage tier false operand operand') :
      Stage tier enclosed (more before op operand)
        ((before.regroup tier false).wrap op operand')

namespace Stage

/-- The last stage is the regrouped derivation. -/
theorem regroup (tier : Tier) (enclosed : Bool) (d : Derivation part) :
    Stage tier enclosed d (d.regroup tier enclosed) := by
  induction d generalizing enclosed with
  | digits run => exact .untouched _ _
  | group inner ih => exact .group (ih true)
  | first signed operand ih => exact .first signed (ih false)
  | more before op operand ihb ihp =>
    rw [Derivation.regroup]
    split
    · next h => exact .wrap before h.1 (ihp false)
    · exact .keep before (ihp false)

/-- A level without operators gets none. -/
theorem operators_eq_nil {d d' : Derivation part} (h : Stage tier enclosed d d')
    (hnil : d.operators = []) : d'.operators = [] := by
  cases h with
  | untouched => exact hnil
  | group h => rfl
  | first signed h => rfl
  | before op operand h => simp [operators] at hnil
  | keep before h => simp [operators] at hnil
  | wrap before ht h => simp [operators] at hnil

/-- A sign belongs to the operand as before, because digits stay digits and a group a group. -/
theorem tree_first {operand operand' : Derivation .operand}
    (h : Stage tier enclosed operand operand') (htree : operand'.tree = operand.tree)
    (signed : Bool) :
    (Derivation.first signed operand').tree = (Derivation.first signed operand).tree := by
  cases signed with
  | false => rw [tree_unsigned, tree_unsigned, htree]
  | true =>
    cases h with
    | untouched => rfl
    | group h =>
      rw [tree_group, tree_group] at htree
      rw [tree_signed_group, tree_signed_group, htree]

/-- **No stage of the multiplicative pass changes what is meant.** -/
theorem reading_eq {d d' : Derivation part} (h : Stage .multiplicative enclosed d d') :
    d'.reading = d.reading := by
  induction h with
  | untouched => rfl
  | group _ ih =>
    have htree := congrArg Reading.tree ih
    rw [reading_group, reading_group]
    exact congrArg (Reading.mk none) htree
  | first signed h ih => rw [reading_first, reading_first, h.tree_first (congrArg Reading.tree ih)]
  | before op operand _ ih => rw [reading_more, reading_more, ih]
  | @keep _ before op operand operand' _ ih =>
    rw [reading_more, reading_more, before.reading_regroup]
    exact congrArg (before.reading.extend op) (congrArg Reading.tree ih)
  | @wrap _ before op operand operand' ht _ ih =>
    -- the operators before `op` that are left are additive, so the pair holds a whole term
    rw [reading_wrap before.additive_of_mem_regroup ht, reading_more, reading_more,
      before.reading_regroup]
    exact congrArg (before.reading.extend op) (congrArg Reading.tree ih)

/-- **No stage of the additive pass changes the tree**, if no level has a tight operator beside
another one. -/
theorem tree_eq {d d' : Derivation part} (h : Stage .additive enclosed d d')
    (hd : d.GroupsSatisfy TermsGrouped) (hown : TermsGrouped d.operators) : d'.tree = d.tree := by
  induction h with
  | untouched => rfl
  | group _ ih => rw [tree_group, tree_group, ih hd.2 hd.1]
  | @first _ signed operand _ h ih => exact h.tree_first (ih hd operand.termsGrouped_operand) signed
  | @before _ before before' op operand h ih =>
    have hbefore : before'.tree = before.tree := ih hd.1 hown.of_more
    rcases hown.cases_more with hnil | ⟨ht, -⟩
    · rw [tree_more_of_operators_eq_nil (h.operators_eq_nil hnil),
        tree_more_of_operators_eq_nil hnil, hbefore]
    · rw [tree_more_additive _ _ ht, tree_more_additive _ _ ht, hbefore]
  | @keep _ before op operand operand' _ ih =>
    rw [tree_more_of_operators_eq_nil hown.operators_regroup_before, hown.tree_more,
      tree_regroup false hd.1 hown.of_more, ih hd.2 operand.termsGrouped_operand]
  | @wrap _ before op operand operand' ht _ ih =>
    rw [tree_wrap hown.operators_regroup_before,
      tree_more_of_operators_eq_nil hown.operators_regroup_before, hown.tree_more,
      tree_regroup false hd.1 hown.of_more, ih hd.2 operand.termsGrouped_operand]

end Stage

end Derivation

/-! ### Passes over derived texts -/

namespace Cursor

variable {tier : Tier} {before after : List Char} {enclosed : Bool} {p : List Char → Prop}

/-- From the last operator of a level on, a pass goes through the stages of the operand behind it.
The operator stays a plain one, has its pair already, or gets one. -/
theorem always_operator (hs : Surrounds before after enclosed) (first : Derivation .level)
    (op : Operator) (operand : Derivation .operand)
    (hoperand : ∀ before after : List Char,
      (∀ operand', Derivation.Stage tier false operand operand' →
        p (before.reverse ++ (operand'.text ++ after))) →
      Always tier p ⟨(operand.regroup tier false).text.reverse ++ before, after⟩ →
      Always tier p ⟨before, operand.text ++ after⟩)
    (hp : ∀ d', Derivation.Stage tier enclosed (first.more op operand) d' →
      p (before.reverse ++ (d'.text ++ after)))
    (hrest : Always tier p
      ⟨((first.more op operand).regroup tier enclosed).text.reverse ++ before, after⟩) :
    Always tier p ⟨(first.regroup tier false).text.reverse ++ before,
      op.symbol :: (operand.text ++ after)⟩ := by
  -- where no pair is added, the text of a stage stands as it is
  have hkeep : ∀ operand', Derivation.Stage tier false operand operand' →
      p ((op.symbol :: ((first.regroup tier false).text.reverse ++ before)).reverse ++
        (operand'.text ++ after)) := by
    intro operand' hstage
    simpa [Derivation.text] using hp _ (.keep first hstage)
  by_cases ht : op.tier = tier
  · have hholds : tier.holds op.symbol = true := by simp [ht]
    refine always_site hholds (isSign_reverse_text _ _ _) ?_ ?_
    · simpa [Derivation.text] using hp _ (.before op operand (.regroup tier false first))
    by_cases hg : enclosed = true ∧ (first.regroup tier false).operators = []
    · rw [Site.resume, if_pos ((Site.isGrouped_text hs _ op operand).mpr hg)]
      refine hoperand _ _ hkeep ?_
      rw [Derivation.regroup_more_of_keep fun _ => hg] at hrest
      simpa [Derivation.text] using hrest
    · obtain ⟨left, hresume, htext⟩ := Site.resume_text_of_wrap hs (first.regroup tier false) op
        operand hg
      rw [hresume]
      refine hoperand _ _ ?_ ?_
      · intro operand' hstage
        have hreverse := congrArg List.reverse (htext operand')
        simp only [List.reverse_append, List.reverse_cons, List.reverse_reverse,
          List.append_assoc, List.singleton_append] at hreverse
        have hwrap := hp _ (.wrap first ht hstage)
        rw [← List.append_assoc, hreverse] at hwrap
        simpa using hwrap
      · refine always_skip (.inl (not_holds_close tier)) ?_
        rwa [Derivation.regroup_more_of_wrap ht hg, htext] at hrest
  · have hholds : tier.holds op.symbol = false := by simp [ht]
    refine always_skip (.inl hholds) (hoperand _ _ hkeep ?_)
    rw [Derivation.regroup_more_of_keep fun hc => absurd hc ht] at hrest
    simpa [Derivation.text] using hrest

/-- **A pass over a derived text goes through the texts of its stages**, and then on behind it. -/
theorem always_text {part : Part} (d : Derivation part) (enclosed : Bool)
    (h : part = .level → Surrounds before after enclosed)
    (hp : ∀ d', Derivation.Stage tier enclosed d d' → p (before.reverse ++ (d'.text ++ after)))
    (hrest : Always tier p ⟨(d.regroup tier enclosed).text.reverse ++ before, after⟩) :
    Always tier p ⟨before, d.text ++ after⟩ := by
  have hoperand : ∀ {before after : List Char} {enclosed : Bool},
      Part.operand = .level → Surrounds before after enclosed :=
    fun h => absurd h Part.operand_ne_level
  induction d generalizing enclosed before after with
  | digits run =>
    exact always_skip_append (fun c hc => tier.holds_of_isDigit (run.isDigit_of_mem c hc)) hrest
  | group inner ih =>
    have hopen : tier.holds '(' = false := by cases tier <;> rfl
    rw [Derivation.text, List.cons_append, List.append_assoc, List.singleton_append]
    -- between its brackets, a level is enclosed
    refine always_skip (.inl hopen) (ih true (fun _ => surrounds_group before after) ?_ ?_)
    · intro inner' hstage
      simpa [Derivation.text] using hp _ (.group hstage)
    · refine always_skip (.inl (not_holds_close tier)) ?_
      simpa [Derivation.regroup, Derivation.text] using hrest
  | first signed operand ih =>
    cases signed with
    | true =>
      have hsign : isSign before '-' = true := by simp [isSign, (h rfl).opens]
      rw [Derivation.text, List.cons_append]
      refine always_skip (.inr hsign) (ih false hoperand ?_ ?_)
      · intro operand' hstage
        simpa [Derivation.text] using hp _ (.first true hstage)
      · simpa [Derivation.regroup, Derivation.text] using hrest
    | false => exact ih false hoperand (fun _ hstage => hp _ (.first false hstage)) hrest
  | more first op operand ihf ihp =>
    have hs := h rfl
    rw [Derivation.text, List.append_assoc, List.cons_append]
    refine ihf false (fun _ => hs.operator op (operand.text ++ after)) ?_ ?_
    · intro first' hstage
      simpa [Derivation.text] using hp _ (.before op operand hstage)
    · refine always_operator hs first op operand ?_ hp hrest
      intro before after hp hrest
      exact ihp false hoperand hp hrest

/-- After each step of a pass over a derived text, the text is that of a stage. -/
theorem exists_stage_advance (tier : Tier) (d : Derivation .level) (n : Nat) :
    ∃ d', Derivation.Stage tier false d d' ∧ d'.text = (advance tier n ⟨[], d.text⟩).text := by
  have halways : Always tier (fun text => ∃ d', Derivation.Stage tier false d d' ∧ d'.text = text)
      ⟨[], d.text ++ []⟩ := by
    refine always_text d false (fun _ => surrounds_nil) ?_ ?_
    · intro d' hstage
      exact ⟨d', hstage, by simp⟩
    · refine always_of_none rfl ⟨d.regroup tier false, .regroup tier false d, ?_⟩
      simp [text]
  rw [List.append_nil] at halways
  exact halways n

end Cursor

/-! ### The meaning of a text on its way -/

/-- The grammar gives a text a tree.  It gives no text two (`tree_eq_of_text_eq`). -/
def HasTree (text : List Char) (tree : Expr) : Prop :=
  ∃ d : Derivation .level, d.text = text ∧ d.tree = tree

/-- A text is a formula and has the tree that another text has. -/
structure SameMeaning (text text' : List Char) : Prop where
  isValid : isValid text' = true
  hasTree_iff : ∀ tree, HasTree text' tree ↔ HasTree text tree

theorem Derivation.hasTree_iff (d : Derivation .level) {tree : Expr} :
    HasTree d.text tree ↔ d.tree = tree := by
  constructor
  · rintro ⟨d', htext, rfl⟩
    exact tree_eq_of_text_eq htext.symm
  · rintro rfl
    exact ⟨d, rfl, rfl⟩

theorem Derivation.sameMeaning {d d' : Derivation .level} (h : d'.tree = d.tree) :
    SameMeaning d.text d'.text where
  isValid := isValid_text d'
  hasTree_iff := by
    intro tree
    rw [hasTree_iff, hasTree_iff, h]

theorem sameMeaning_advance_multiplicative (d : Derivation .level) (n : Nat) :
    SameMeaning d.text (Cursor.advance .multiplicative n ⟨[], d.text⟩).text := by
  obtain ⟨d', hstage, htext⟩ := Cursor.exists_stage_advance .multiplicative d n
  rw [← htext]
  exact Derivation.sameMeaning (congrArg Reading.tree hstage.reading_eq)

/-- The additive pass begins with the levels that the multiplicative one has left. -/
theorem sameMeaning_advance_additive (d : Derivation .level) (n : Nat) :
    SameMeaning d.text
      (Cursor.advance .additive n ⟨[], groupTier d.text .multiplicative⟩).text := by
  rw [groupTier_text]
  obtain ⟨d', hstage, htext⟩ :=
    Cursor.exists_stage_advance .additive (d.regroup .multiplicative false) n
  have hlevels := d.groupsSatisfy_termsGrouped
  have hown : Derivation.TermsGrouped (d.regroup .multiplicative false).operators :=
    .inr d.additive_of_mem_regroup
  have hfirst : (d.regroup .multiplicative false).tree = d.tree :=
    congrArg Reading.tree (d.reading_regroup false)
  rw [← htext]
  exact Derivation.sameMeaning ((hstage.tree_eq hlevels hown).trans hfirst)

/-- Behind the multiplicative pass each tight operator has its pair. -/
theorem hasPair_of_groupTier (d : Derivation .level) {s : Site}
    (htext : s.text = groupTier d.text .multiplicative)
    (hs : Tier.multiplicative.holds s.symbol = true) :
    ∃ outer left right rest, s.HasPair outer left right rest := by
  have hop : s.IsOperator .multiplicative := ⟨hs, isSign_of_multiplicative hs s.before⟩
  have hinitial : Cursor.Explicit .multiplicative ⟨[], d.text⟩ :=
    .initial d.text fun h => absurd h (by decide)
  have hgrouped : s.isGrouped = true := hinitial.finish.1 s htext hop
  have haccepts : Scan.Accepts s.text := by
    rw [htext, groupTier_text]
    exact Scan.exists_derivation_iff.mp ⟨_, rfl⟩
  obtain ⟨outer, left, right, rest, henc⟩ := Site.isGrouped_iff_enclosed.mp hgrouped
  exact ⟨outer, left, right, rest, henc.hasPair hop haccepts⟩

/-- **After each step of the two passes over a formula, the text is a formula with the same tree.**
When the multiplicative pass is over, each tight operator stands with its operands between two
brackets that are partners. -/
theorem advance_keeps_meaning {text : List Char} (hvalid : isValid text = true)
    (hblank : ∀ c ∈ text, Text.isBlank c = false) :
    (∀ n, SameMeaning text (Cursor.advance .multiplicative n ⟨[], text⟩).text) ∧
      (∀ n, SameMeaning text
        (Cursor.advance .additive n ⟨[], groupTier text .multiplicative⟩).text) ∧
      ∀ s : Site, s.text = groupTier text .multiplicative →
        Tier.multiplicative.holds s.symbol = true →
          ∃ outer left right rest, s.HasPair outer left right rest := by
  obtain ⟨d, hd⟩ := isValid_iff_exists_derivation.mp hvalid
  rw [Text.dropBlanks_eq_self.mpr hblank] at hd
  subst hd
  exact ⟨sameMeaning_advance_multiplicative d, sameMeaning_advance_additive d,
    fun s htext hs => hasPair_of_groupTier d htext hs⟩

/-- A chain of products in the middle of the first pass, and a group in the middle of the second
one. -/
theorem advance_keeps_meaning_midway :
    SameMeaning "6*5/4-1".toList "(6*5)/4-1".toList ∧
      SameMeaning "-2*(3-4-5)+6".toList "(-2*((3-4)-5))+6".toList := by
  have hblank₁ : ∀ c ∈ "6*5/4-1".toList, Text.isBlank c = false :=
    Text.dropBlanks_eq_self.mp (by decide +kernel)
  have hblank₂ : ∀ c ∈ "-2*(3-4-5)+6".toList, Text.isBlank c = false :=
    Text.dropBlanks_eq_self.mp (by decide +kernel)
  have hproduct : groupTier "-2*(3-4-5)+6".toList .multiplicative = "(-2*(3-4-5))+6".toList := by
    rw [groupTier, ← Cursor.text_advance_pending .multiplicative _ 1 (by decide +kernel)]
    decide +kernel
  have hfirst := (advance_keeps_meaning (by decide +kernel) hblank₁).1 1
  have hsecond := (advance_keeps_meaning (by decide +kernel) hblank₂).2.1 1
  have hstep₁ : (Cursor.advance .multiplicative 1 ⟨[], "6*5/4-1".toList⟩).text =
      "(6*5)/4-1".toList := by
    decide +kernel
  have hstep₂ : (Cursor.advance .additive 1 ⟨[], "(-2*(3-4-5))+6".toList⟩).text =
      "(-2*((3-4)-5))+6".toList := by
    decide +kernel
  rw [hstep₁] at hfirst
  rw [hproduct, hstep₂] at hsecond
  exact ⟨hfirst, hsecond⟩

end ExactCalc.Formula
