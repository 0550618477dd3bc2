/-
Each operator is visited once.

* `IsOperatorAt` — at a position of a text stands an operator that is no sign;
* `operatorsFrom` — the positions of the operators of a tier, in their order;
* `Cursor.Visits` — what a pass visits, told by where it stands in the text before the pass;
* `Cursor.exists_visits` — a pass visits the operators of its tier that are ahead of it;
* `Cursor.Visits.operatorsFrom_finish` — the first pass leaves the second one the operators that it
  had before;
* `exists_visits_group` — both passes together, and how long the text gets.

Design notes: a step moves the characters that are still to be visited, and each character keeps its
name: the position where it stood first.  An inserted bracket makes a sign of an operator only if
that operator has just been visited.
-/
import ExactCalc.Proofs.Partners

namespace ExactCalc.Formula

/-- At position `i` of a text stands an operator that is no sign.  A sign is a `-` at the start or
right behind an opening bracket. -/
def IsOperatorAt (text : List Char) (i : Nat) : Prop :=
  ∃ op : Operator, text[i]? = some op.symbol ∧
    ¬(op = .sub ∧ (i = 0 ∨ text[i - 1]? = some '('))

/-- The positions of the operators of a tier in the text `after`, in front of which stands the
reversed text `before`.  A sign is no operator. -/
def operatorsFrom (tier : Tier) (before after : List Char) : List Nat :=
  ((sitesFrom before after).filter fun s => tier.holds s.symbol).map fun s => s.before.length

section Positions

variable {tier : Tier} {before before' after : List Char} {c : Char}

theorem operatorsFrom_cons (tier : Tier) (before : List Char) (c : Char) (after : List Char) :
    operatorsFrom tier before (c :: after) =
      (if tier.holds c = true ∧ isSign before c = false then [before.length] else []) ++
        operatorsFrom tier (c :: before) after := by
  by_cases hc : tier.holds c = true
  · obtain ⟨op, rfl, -⟩ := Tier.holds_eq_true.mp hc
    cases hs : isSign before op.symbol with
    | true => simp [operatorsFrom, sitesFrom_skip (.inr hs)]
    | false => simp [operatorsFrom, sitesFrom_operator hs, hc]
  · rw [if_neg fun h => hc h.1, List.nil_append, operatorsFrom, sitesFrom]
    split
    · simp [operatorsFrom, hc]
    · rfl

theorem operatorsFrom_skip (h : tier.holds c = false) :
    operatorsFrom tier before (c :: after) = operatorsFrom tier (c :: before) after := by
  simp [operatorsFrom_cons, h]

theorem operatorsFrom_append (before u v : List Char) :
    operatorsFrom tier before (u ++ v) =
      operatorsFrom tier before u ++ operatorsFrom tier (u.reverse ++ before) v := by
  induction u generalizing before with
  | nil => rfl
  | cons c u ih =>
    rw [List.cons_append, operatorsFrom_cons, operatorsFrom_cons, ih, List.append_assoc]
    simp

/-- A part of a text has the same operators wherever it stands, if its first character is a sign in
both places or in neither. -/
theorem operatorsFrom_map {u : List Char} {m : Nat → Nat}
    (hhead : ∀ c ∈ u.head?, isSign before' c = isSign before c)
    (hm : ∀ i < u.length, m (before.length + i) = before'.length + i) :
    operatorsFrom tier before' u = (operatorsFrom tier before u).map m := by
  induction u generalizing before before' with
  | nil => rfl
  | cons c u ih =>
    have hfirst : m before.length = before'.length := hm 0 (Nat.succ_pos _)
    have hrest : operatorsFrom tier (c :: before') u =
        (operatorsFrom tier (c :: before) u).map m := by
      refine ih (fun d _ => rfl) fun i hi => ?_
      have hpos : (c :: before).length + i = before.length + (i + 1) := by
        simp
        omega
      rw [hpos, hm (i + 1) (Nat.succ_lt_succ hi), List.length_cons]
      omega
    rw [operatorsFrom_cons, operatorsFrom_cons, hhead c rfl, hrest, List.map_append]
    split <;> simp [hfirst]

theorem le_of_mem_operatorsFrom {i : Nat} (h : i ∈ operatorsFrom tier before after) :
    before.length ≤ i := by
  induction after generalizing before with
  | nil => cases h
  | cons c after ih =>
    rw [operatorsFrom_cons, List.mem_append] at h
    rcases h with h | h
    · split at h
      · exact Nat.le_of_eq (List.mem_singleton.mp h).symm
      · cases h
    · exact Nat.le_of_succ_le (ih h)

/-- The positions come in their order, so that none comes twice. -/
theorem nodup_operatorsFrom (tier : Tier) (before after : List Char) :
    (operatorsFrom tier before after).Nodup := by
  induction after generalizing before with
  | nil => exact List.nodup_nil
  | cons c after ih =>
    rw [operatorsFrom_cons]
    split
    · refine List.nodup_cons.mpr ⟨fun hmem => ?_, ih _⟩
      have hle := le_of_mem_operatorsFrom hmem
      simp at hle
    · exact ih _

theorem mem_operatorsFrom {i : Nat} :
    i ∈ operatorsFrom tier before after ↔ ∃ x c y, after = x ++ c :: y ∧
      i = before.length + x.length ∧ tier.holds c = true ∧
        isSign (x.reverse ++ before) c = false := by
  induction after generalizing before with
  | nil =>
    constructor
    · intro h
      cases h
    · rintro ⟨x, c, y, h, -⟩
      simp at h
  | cons d after ih =>
    rw [operatorsFrom_cons, List.mem_append, ih]
    constructor
    · rintro (h | ⟨x, c, y, rfl, rfl, hc, hs⟩)
      · split at h
        · next hd => exact ⟨[], d, after, rfl, List.mem_singleton.mp h, hd⟩
        · cases h
      · exact ⟨d :: x, c, y, rfl, by simp; omega, hc, by simpa using hs⟩
    · rintro ⟨x, c, y, heq, rfl, hc, hs⟩
      rcases List.cons_eq_append_iff.mp heq with ⟨rfl, hy⟩ | ⟨x, rfl, rfl⟩
      · obtain ⟨rfl, rfl⟩ := List.cons.inj hy
        left
        rw [if_pos ⟨hc, hs⟩]
        exact List.mem_singleton_self _
      · right
        exact ⟨x, c, y, rfl, by simp; omega, hc, by simpa using hs⟩

/-- What makes a sign of a `-`, by its position. -/
theorem isSign_reverse_eq_true {x : List Char} :
    isSign x.reverse c = true ↔
      c = '-' ∧ (x.length = 0 ∨ (x ++ c :: after)[x.length - 1]? = some '(') := by
  rw [isSign, Bool.and_eq_true, beq_iff_eq]
  refine and_congr_right fun _ => ?_
  rcases List.eq_nil_or_concat x with rfl | ⟨x, d, rfl⟩
  · simp [opensLevel]
  · simp [opensLevel]

/-- The positions of a tier in a whole text. -/
theorem mem_operatorsFrom_nil {text : List Char} {i : Nat} :
    i ∈ operatorsFrom tier [] text ↔
      ∃ op : Operator, op.tier = tier ∧ text[i]? = some op.symbol ∧
        ¬(op = .sub ∧ (i = 0 ∨ text[i - 1]? = some '(')) := by
  have hsub : ∀ op : Operator, op.symbol = '-' ↔ op = .sub := by
    intro op
    cases op <;> decide
  rw [mem_operatorsFrom]
  constructor
  · rintro ⟨x, c, y, rfl, rfl, hc, hs⟩
    obtain ⟨op, rfl, ht⟩ := Tier.holds_eq_true.mp hc
    rw [List.append_nil, ← Bool.not_eq_true, isSign_reverse_eq_true, hsub] at hs
    exact ⟨op, ht, by simp, by simpa using hs⟩
  · rintro ⟨op, rfl, hget, hs⟩
    obtain ⟨x, y, rfl, rfl⟩ := exists_eq_append_of_getElem? hget
    refine ⟨x, op.symbol, y, rfl, by simp, by simp, ?_⟩
    rw [List.append_nil, ← Bool.not_eq_true, isSign_reverse_eq_true, hsub]
    exact hs

end Positions

/-! ### Steps -/

namespace Site

variable {tier : Tier} {s : Site}

theorem moves_of_isGrouped (hg : s.isGrouped = true) : s.moves = id :=
  if_pos hg

theorem moves_of_not_isGrouped (hg : s.isGrouped = false) :
    s.moves =
      shift s.left.2.length (s.left.2.length + (s.left.1.length + (s.right.1.length + 1))) :=
  if_neg (Bool.eq_false_iff.mp hg)

theorem length_before (s : Site) : s.before.length = s.left.1.length + s.left.2.length := by
  rw [← List.length_append, s.left_append]

/-- A step leaves the operators that are ahead of it as they are, of whatever tier they are. -/
theorem operatorsFrom_resume (hs : s.IsOperator tier) (tier' : Tier) :
    operatorsFrom tier' s.resume.before s.resume.after =
      (operatorsFrom tier' (s.symbol :: s.before) s.after).map s.moves := by
  by_cases hg : s.isGrouped = true
  · rw [moves_of_isGrouped hg, List.map_id, resume, if_pos hg]
  have hlen := s.length_before
  obtain ⟨op, hop⟩ := hs.exists_symbol
  have hafter : s.after = s.right.1 ++ s.right.2 := s.right_append.symm
  rw [moves_of_not_isGrouped (Bool.eq_false_iff.mpr hg), resume, if_neg hg, hafter,
    operatorsFrom_append, operatorsFrom_append, List.map_append,
    operatorsFrom_skip (Cursor.not_holds_close tier')]
  congr 1
  · -- the right operand is behind one of the brackets
    refine operatorsFrom_map (fun _ _ => rfl) fun i hi => ?_
    simp only [List.length_cons, List.length_append]
    rw [shift_of_between (by omega) (by omega)]
    omega
  · -- the rest is behind both, and in neither text does a level begin there
    have hopens : opensLevel (s.right.1.reverse ++ s.symbol :: s.before) = false := by
      rw [hop]
      exact opensLevel_operation s.optionalOperand_right op s.before
    refine operatorsFrom_map (fun c _ => ?_) fun i hi => ?_
    · rw [isSign, isSign, hopens]
      rfl
    · simp only [List.length_cons, List.length_append, List.length_reverse]
      rw [shift_of_le (by omega) (by omega)]
      omega

/-- A bracket in front of a left operand makes no sign of its first character. -/
theorem isSign_opening_left (s : Site) :
    ∀ c ∈ s.left.1.reverse.head?, isSign ('(' :: s.left.2) c = isSign s.left.2 c := by
  intro c hc
  obtain ⟨sign, operand, hleft, hoperand, rfl | ⟨rfl, hopens⟩⟩ := s.leftOperand
  · rw [hleft, List.nil_append] at hc
    rcases hoperand with rfl | hoperand
    · cases hc
    · -- an operand does not begin with a `-`
      obtain ⟨d, rest, rfl, hd⟩ := hoperand.exists_cons
      obtain rfl : d = c := Option.some.inj hc
      have hne : d ≠ '-' := by
        rintro rfl
        rcases hd with hd | hd <;> exact absurd hd (by decide)
      have hminus : (d == '-') = false := beq_eq_false_iff_ne.mpr hne
      rw [isSign, isSign, hminus]
      rfl
  · rw [List.reverse_reverse] at hopens
    rw [isSign, isSign, hopens]
    rfl

/-- A step that groups a tight operator leaves all additive ones as they are, also those before
it. -/
theorem operatorsFrom_text_resume (hs : s.IsOperator .multiplicative) :
    operatorsFrom .additive [] s.resume.text = (operatorsFrom .additive [] s.text).map s.moves := by
  have hskip : Tier.additive.holds s.symbol = false := by
    obtain ⟨op, hop, ht⟩ := Tier.holds_eq_true.mp hs.holds
    simp [hop, ht]
  have hahead := operatorsFrom_resume hs .additive
  have hbehind : operatorsFrom .additive [] s.resume.before.reverse =
      (operatorsFrom .additive [] s.before.reverse).map s.moves := by
    by_cases hg : s.isGrouped = true
    · rw [moves_of_isGrouped hg, List.map_id, resume, if_pos hg, List.reverse_cons,
        operatorsFrom_append, operatorsFrom_skip hskip]
      exact List.append_nil _
    · have hlen := s.length_before
      have hbefore : s.before.reverse = s.left.2.reverse ++ s.left.1.reverse := by
        rw [← List.reverse_append, s.left_append]
      have hnew : s.resume.before.reverse =
          s.left.2.reverse ++ '(' :: (s.left.1.reverse ++ [s.symbol]) := by
        simp [resume, hg]
      have hopen : Tier.additive.holds '(' = false := rfl
      have hsymbol : ∀ before : List Char, operatorsFrom .additive before [s.symbol] = [] :=
        fun before => operatorsFrom_skip hskip
      rw [moves_of_not_isGrouped (Bool.eq_false_iff.mpr hg), hnew, hbefore, operatorsFrom_append,
        operatorsFrom_append, operatorsFrom_skip hopen, operatorsFrom_append, hsymbol,
        List.append_nil, List.map_append, List.reverse_reverse, List.append_nil]
      congr 1
      · refine operatorsFrom_map (fun _ _ => rfl) fun i hi => ?_
        rw [List.length_reverse] at hi
        rw [shift_of_lt (by simpa using hi)]
      · refine operatorsFrom_map s.isSign_opening_left fun i hi => ?_
        rw [List.length_reverse] at hi
        rw [shift_of_between (by omega) (by omega), List.length_cons]
        omega
  rw [Cursor.text, text, operatorsFrom_append, operatorsFrom_append, hbehind, List.map_append,
    List.reverse_reverse, List.reverse_reverse, List.append_nil, List.append_nil, hahead,
    operatorsFrom_skip hskip]

/-- A step makes a text longer by two characters, or leaves it as it is. -/
theorem length_text_resume (s : Site) :
    s.resume.text.length = s.text.length ∨ s.resume.text.length = s.text.length + 2 := by
  cases hg : s.isGrouped with
  | true => exact .inl (congrArg List.length (text_resume_of_isGrouped hg))
  | false =>
    right
    rw [text_resume_of_not_isGrouped hg, text_eq]
    simp only [List.length_append, List.length_cons, List.length_reverse]
    omega

end Site

/-! ### Passes -/

namespace Cursor

variable {tier : Tier} {c c' : Cursor} {visited : List Nat} {f : Nat → Nat}

/-- A pass from a cursor visits the operators at the positions `visited` of the text, one after the
other, and moves the character at position `i` to position `f i`. -/
inductive Visits (tier : Tier) : Cursor → List Nat → (Nat → Nat) → Prop where
  | finish {c : Cursor} (h : site? tier c.before c.after = none) : Visits tier c [] id
  /-- What is visited later is told by where it stands before the step. -/
  | step {c : Cursor} {s : Site} {later : List Nat} {f : Nat → Nat}
      (h : site? tier c.before c.after = some s)
      (hlater : Visits tier s.resume (later.map s.moves) f) :
      Visits tier c (s.before.length :: later) (f ∘ s.moves)

/-- Where no operator comes next, none is ahead. -/
theorem operatorsFrom_of_site?_eq_none {before after : List Char}
    (h : site? tier before after = none) : operatorsFrom tier before after = [] := by
  induction after generalizing before with
  | nil => rfl
  | cons x after ih =>
    rw [site?] at h
    split at h
    · cases h
    · next hx =>
      have hx : ¬(tier.holds x = true ∧ isSign before x = false) := by simpa using hx
      rw [operatorsFrom_cons, if_neg hx, ih h]
      rfl

/-- The operator that comes next is the first one ahead. -/
theorem operatorsFrom_of_site? {before after : List Char} {s : Site}
    (h : site? tier before after = some s) :
    operatorsFrom tier before after =
      s.before.length :: operatorsFrom tier (s.symbol :: s.before) s.after := by
  induction after generalizing before with
  | nil => cases h
  | cons x after ih =>
    rw [site?] at h
    split at h
    · next hx =>
      cases h
      have hx : tier.holds x = true ∧ isSign before x = false := by simpa using hx
      rw [operatorsFrom_cons, if_pos hx]
      rfl
    · next hx =>
      have hx : ¬(tier.holds x = true ∧ isSign before x = false) := by simpa using hx
      rw [operatorsFrom_cons, if_neg hx, ih h]
      rfl

/-- **A pass visits the operators of its tier that are ahead, each of them once and no others.** -/
theorem exists_visits (tier : Tier) (c : Cursor) :
    ∃ f, Visits tier c (operatorsFrom tier c.before c.after) f := by
  fun_induction Cursor.finish tier c with
  | case1 c c' hn _ ih =>
    obtain ⟨s, hs, rfl⟩ := Option.map_eq_some_iff.mp hn
    have hop : s.IsOperator tier := ⟨(holds_of_site? hs).1, (holds_of_site? hs).2⟩
    obtain ⟨f, hf⟩ := ih
    rw [Site.operatorsFrom_resume hop] at hf
    rw [operatorsFrom_of_site? hs]
    exact ⟨f ∘ s.moves, .step hs hf⟩
  | case2 c hn =>
    have hnone : site? tier c.before c.after = none := Option.map_eq_none_iff.mp hn
    rw [operatorsFrom_of_site?_eq_none hnone]
    exact ⟨id, .finish hnone⟩

namespace Visits

theorem extends_finish (h : Visits tier c visited f) : Extends c.text (c.finish tier) f := by
  induction h with
  | @finish c hnone =>
    rw [finish_of_none (Option.map_eq_none_iff.mpr hnone)]
    exact .refl c.text
  | @step c s later f hs _ ih =>
    have hstep := Site.extends_resume ⟨(holds_of_site? hs).1, (holds_of_site? hs).2⟩
    have htext : s.text = c.text := text_of_site? hs
    rw [htext] at hstep
    rw [finish_of_next? (Option.map_eq_some_iff.mpr ⟨s, hs, rfl⟩)]
    exact hstep.trans ih

/-- Each visit makes the text longer by two characters, or by none. -/
theorem exists_length_finish (h : Visits tier c visited f) :
    ∃ k ≤ visited.length, (c.finish tier).length = c.text.length + 2 * k := by
  induction h with
  | @finish c hnone =>
    rw [finish_of_none (Option.map_eq_none_iff.mpr hnone)]
    exact ⟨0, Nat.le_refl 0, rfl⟩
  | @step c s later f hs _ ih =>
    obtain ⟨k, hk, hlen⟩ := ih
    have htext : s.text = c.text := text_of_site? hs
    rw [finish_of_next? (Option.map_eq_some_iff.mpr ⟨s, hs, rfl⟩), hlen, ← htext]
    rw [List.length_map] at hk
    rcases s.length_text_resume with hstep | hstep
    · exact ⟨k, Nat.le_succ_of_le hk, by rw [hstep]⟩
    · exact ⟨k + 1, Nat.succ_le_succ hk, by rw [hstep]; omega⟩

/-- **The multiplicative pass makes no additive operator and takes none away.** -/
theorem operatorsFrom_finish (h : Visits .multiplicative c visited f) :
    operatorsFrom .additive [] (c.finish .multiplicative) =
      (operatorsFrom .additive [] c.text).map f := by
  generalize htier : Tier.multiplicative = tier at h
  induction h with
  | @finish c hnone =>
    subst htier
    rw [finish_of_none (Option.map_eq_none_iff.mpr hnone), List.map_id]
  | @step c s later f hs _ ih =>
    subst htier
    have hop : s.IsOperator .multiplicative := ⟨(holds_of_site? hs).1, (holds_of_site? hs).2⟩
    have htext : s.text = c.text := text_of_site? hs
    rw [finish_of_next? (Option.map_eq_some_iff.mpr ⟨s, hs, rfl⟩), ih,
      Site.operatorsFrom_text_resume hop, htext, List.map_map]

end Visits

/-- A step leaves fewer operators to visit, and the text does not get shorter. -/
theorem pending_lt_and_length_le (h : c.next? tier = some c') :
    c'.pending tier < c.pending tier ∧ c.text.length ≤ c'.text.length := by
  refine ⟨pending_of_next? h, ?_⟩
  obtain ⟨s, hs, rfl⟩ := Option.map_eq_some_iff.mp h
  have htext : s.text = c.text := text_of_site? hs
  rw [← htext]
  rcases s.length_text_resume with hlen | hlen <;> omega

end Cursor

/-! ### Both passes -/

/-- The operators of a text are those of the one tier and those of the other. -/
theorem mem_operators_iff {text : List Char} {i : Nat} :
    i ∈ operatorsFrom .multiplicative [] text ++ operatorsFrom .additive [] text ↔
      IsOperatorAt text i := by
  rw [List.mem_append, mem_operatorsFrom_nil, mem_operatorsFrom_nil, IsOperatorAt]
  constructor
  · rintro (⟨op, -, hop⟩ | ⟨op, -, hop⟩)
    · exact ⟨op, hop⟩
    · exact ⟨op, hop⟩
  · rintro ⟨op, hop⟩
    cases ht : op.tier with
    | multiplicative => exact .inl ⟨op, ht, hop⟩
    | additive => exact .inr ⟨op, ht, hop⟩

theorem nodup_operators (text : List Char) :
    (operatorsFrom .multiplicative [] text ++ operatorsFrom .additive [] text).Nodup := by
  refine List.nodup_append.mpr ⟨nodup_operatorsFrom _ _ _, nodup_operatorsFrom _ _ _, ?_⟩
  rintro i hi j hj rfl
  obtain ⟨op, ht, hop, -⟩ := mem_operatorsFrom_nil.mp hi
  obtain ⟨op', ht', hop', -⟩ := mem_operatorsFrom_nil.mp hj
  rw [hop, Option.some.injEq] at hop'
  have hsame : op = op' := Operator.symbol_injective hop'
  rw [hsame, ht'] at ht
  cases ht

/-- **Grouping ends and visits each operator of a text once, whatever the text.**  Each step leaves
fewer characters of its tier ahead.  The first pass visits the operators at the positions `first`,
the second one those at the positions `second`, where `f` says where the first pass has moved them,
and these are all operators that are no signs.  So each of them adds two characters at most. -/
theorem exists_visits_group (text : List Char) :
    (∀ tier (c c' : Cursor), c.next? tier = some c' →
      c'.pending tier < c.pending tier ∧ c.text.length ≤ c'.text.length) ∧
    ∃ first second f g,
      Cursor.Visits .multiplicative ⟨[], text⟩ first f ∧
      Cursor.Visits .additive ⟨[], groupTier text .multiplicative⟩ (second.map f) g ∧
      Extends text (group text) (g ∘ f) ∧
      (first ++ second).Nodup ∧
      (∀ i, i ∈ first ++ second ↔ IsOperatorAt text i) ∧
      ∃ k ≤ (first ++ second).length, (group text).length = text.length + 2 * k := by
  refine ⟨fun _ _ _ => Cursor.pending_lt_and_length_le, ?_⟩
  obtain ⟨f, hf⟩ := Cursor.exists_visits .multiplicative ⟨[], text⟩
  obtain ⟨g, hg⟩ := Cursor.exists_visits .additive ⟨[], groupTier text .multiplicative⟩
  have hbetween : operatorsFrom .additive [] (groupTier text .multiplicative) =
      (operatorsFrom .additive [] text).map f := hf.operatorsFrom_finish
  have hextends := hf.extends_finish.trans hg.extends_finish
  obtain ⟨k₁, hk₁, hlen₁⟩ := hf.exists_length_finish
  obtain ⟨k₂, hk₂, hlen₂⟩ := hg.exists_length_finish
  rw [hbetween] at hg hk₂
  refine ⟨_, _, f, g, hf, hg, hextends, nodup_operators text, fun _ => mem_operators_iff,
    k₁ + k₂, ?_, ?_⟩
  · rw [List.length_map] at hk₂
    rw [List.length_append]
    exact Nat.add_le_add hk₁ hk₂
  · have hfirst : (groupTier text .multiplicative).length = text.length + 2 * k₁ := hlen₁
    have hsecond : (group text).length = (groupTier text .multiplicative).length + 2 * k₂ := hlen₂
    omega

/-- The text of operators alone gets longer in its first step, and one operator is left. -/
theorem exists_visits_group_operators_only :
    Cursor.next? .multiplicative ⟨[], "-*/".toList⟩ = some ⟨"*-(".toList, ")/".toList⟩ ∧
      Cursor.pending .multiplicative ⟨"*-(".toList, ")/".toList⟩ <
        Cursor.pending .multiplicative ⟨[], "-*/".toList⟩ ∧
      Cursor.text ⟨[], "-*/".toList⟩ = "-*/".toList ∧
      Cursor.text ⟨"*-(".toList, ")/".toList⟩ = "(-*)/".toList := by
  have hnext : Cursor.next? .multiplicative ⟨[], "-*/".toList⟩ =
      some ⟨"*-(".toList, ")/".toList⟩ := rfl
  exact ⟨hnext, ((exists_visits_group "-*/".toList).1 _ _ _ hnext).1, rfl, rfl⟩

end ExactCalc.Formula
