/-
A pair round one operation leaves the others grouped.

* `Balanced.replace` — in a balanced text, a balanced part may be replaced by another;
* `Balanced.exists_partner` — the end of a balanced text, with one more closing bracket behind it,
  holds the partner of what is open;
* `OptionalOperand`, `SignedOperand` — what may stand behind and before an operator;
* `Site.Enclosed`, `Site.isGrouped_iff_enclosed` — the operator stands with its operands directly
  between two brackets;
* `Site.isGrouped_wrap_after`, `Site.isGrouped_wrap_before`, `Site.isGrouped_inside` — an operator
  stays grouped when a pair is put round an operation behind it, before it, or round itself.

Design notes: an operation is balanced, so that a pair round it crosses no other pair.  What would
still do harm is a pair that begins or ends between an operand and its operator, or that makes an
operator of a sign.
-/
import ExactCalc.Proofs.Enclosing

namespace ExactCalc.Formula

variable {same partner : Char}

/-! ### Balanced parts -/

section Partner

variable (hne : same ≠ partner)
include hne

/-- A bracket has one partner. -/
theorem Balanced.eq_of_append_partner {s t x y : List Char} (hs : Balanced same partner s)
    (ht : Balanced same partner t) (h : s ++ partner :: x = t ++ partner :: y) :
    s = t ∧ x = y := by
  have hsplit : splitAtPartner same partner 0 (s ++ partner :: x) = some (s, x) :=
    (splitAtPartner_eq_some_iff hne).mpr ⟨rfl, hs⟩
  rw [h, (splitAtPartner_eq_some_iff hne).mpr ⟨rfl, ht⟩] at hsplit
  simpa [eq_comm] using hsplit

/-- The partner of a bracket stands before a balanced part or behind it, and then any other balanced
part leaves it where it is. -/
theorem splitAtPartner_replace {seg seg' : List Char} (hseg : Balanced same partner seg)
    (hseg' : Balanced same partner seg') {depth : Nat} {u v inner rest : List Char}
    (h : splitAtPartner same partner depth (u ++ (seg ++ v)) = some (inner, rest)) :
    (∃ w, u = inner ++ partner :: w) ∨
      ∃ v', inner = u ++ (seg ++ v') ∧
        splitAtPartner same partner depth (u ++ (seg' ++ v)) =
          some (u ++ (seg' ++ v'), rest) := by
  rcases splitAtPartner_append_cases same partner depth u with ⟨inner', w, hu, hall⟩ | ⟨k, hall⟩
  · rw [hall] at h
    cases h
    exact .inl ⟨w, hu⟩
  · rw [hall, splitAtPartner_append hne hseg, Option.map_map] at h
    obtain ⟨⟨v', rest'⟩, hv, heq⟩ := Option.map_eq_some_iff.mp h
    simp only [Function.comp_apply, Prod.map, id_eq, Prod.mk.injEq] at heq
    obtain ⟨rfl, rfl⟩ := heq
    refine .inr ⟨v', rfl, ?_⟩
    rw [hall, splitAtPartner_append hne hseg', hv]
    rfl

/-- A balanced text up to a partner ends before a balanced part, or it holds that part. -/
theorem Balanced.before_or_around {seg u v inner rest : List Char}
    (hseg : Balanced same partner seg) (hi : Balanced same partner inner)
    (h : u ++ (seg ++ v) = inner ++ partner :: rest) :
    (∃ w, u = inner ++ partner :: w) ∨
      ∃ v', inner = u ++ (seg ++ v') ∧ v = v' ++ partner :: rest := by
  have hsplit : splitAtPartner same partner 0 (u ++ (seg ++ v)) = some (inner, rest) :=
    (splitAtPartner_eq_some_iff hne).mpr ⟨h, hi⟩
  rcases splitAtPartner_replace hne hseg hseg hsplit with hw | ⟨v', hv', -⟩
  · exact .inl hw
  · refine .inr ⟨v', hv', ?_⟩
    rw [hv'] at h
    simpa using h

/-- In a balanced text, a balanced part may be replaced by another. -/
theorem Balanced.replace {seg seg' u v : List Char} (h : Balanced same partner (u ++ (seg ++ v)))
    (hseg : Balanced same partner seg) (hseg' : Balanced same partner seg') :
    Balanced same partner (u ++ (seg' ++ v)) := by
  have hsplit : splitAtPartner same partner 0 (u ++ (seg ++ (v ++ [partner]))) =
      some (u ++ (seg ++ v), []) :=
    (splitAtPartner_eq_some_iff hne).mpr ⟨by simp, h⟩
  rcases splitAtPartner_replace hne hseg hseg' hsplit with ⟨w, hw⟩ | ⟨v', hv', hsplit'⟩
  · -- the bracket that is found stands behind the whole text
    have hlen := congrArg List.length hw
    simp only [List.length_append, List.length_cons] at hlen
    omega
  · obtain rfl : v = v' := by simpa using hv'
    exact ((splitAtPartner_eq_some_iff hne).mp hsplit').2

end Partner

/-- The end of a balanced text holds, with one more closing bracket behind it, the partner of what
is open. -/
theorem Balanced.exists_partner {x y : List Char} (h : Balanced same partner (x ++ y)) :
    ∃ inner w, y ++ [partner] = inner ++ partner :: w ∧ Balanced same partner inner := by
  generalize hxy : x ++ y = text at h
  induction h generalizing x y with
  | nil =>
    obtain ⟨-, rfl⟩ := List.append_eq_nil_iff.mp hxy
    exact ⟨[], [], rfl, .nil⟩
  | @plain c text hs hp h ih =>
    rcases List.append_eq_cons_iff.mp hxy with ⟨-, rfl⟩ | ⟨x', -, hx'⟩
    · exact ⟨c :: text, [], rfl, .plain hs hp h⟩
    · exact ih hx'.symm
  | @group inner text hi h ihi ih =>
    rcases List.append_eq_cons_iff.mp hxy with ⟨-, rfl⟩ | ⟨x', -, hx'⟩
    · exact ⟨_, [], rfl, .group hi h⟩
    -- `y` begins inside the group, at its closing bracket, or behind it
    rcases List.append_eq_append_iff.mp hx' with ⟨z, -, hz⟩ | ⟨z, hz, hy⟩
    · rcases List.cons_eq_append_iff.mp hz with ⟨-, rfl⟩ | ⟨z', -, hz'⟩
      · exact ⟨[], text ++ [partner], rfl, .nil⟩
      · exact ih hz'.symm
    · obtain ⟨inner', w, hw, hb⟩ := ihi hz.symm
      refine ⟨inner', w ++ (text ++ [partner]), ?_, hb⟩
      have happ := congrArg (· ++ (text ++ [partner])) hw
      simpa [hy] using happ

/-! ### Operands -/

/-- An operand or nothing. -/
def OptionalOperand (text : List Char) : Prop :=
  text = [] ∨ Operand text

/-- An operand or nothing, with a sign in front of it or without. -/
def SignedOperand (text : List Char) : Prop :=
  ∃ sign operand, text = sign ++ operand ∧ (sign = [] ∨ sign = ['-']) ∧ OptionalOperand operand

theorem LeftOperand.signedOperand {outer left : List Char} (h : LeftOperand outer left) :
    SignedOperand left := by
  obtain ⟨sign, operand, hleft, hoperand, hsign⟩ := h
  refine ⟨sign, operand, hleft, ?_, hoperand⟩
  rcases hsign with hsign | ⟨hsign, -⟩
  · exact .inl hsign
  · exact .inr hsign

theorem Operand.balanced {text : List Char} (h : Operand text) : Balanced '(' ')' text := by
  obtain run | hi := h
  · exact run.balanced rfl rfl
  · exact hi.enclose

theorem OptionalOperand.balanced {text : List Char} (h : OptionalOperand text) :
    Balanced '(' ')' text := by
  rcases h with rfl | h
  · exact .nil
  · exact h.balanced

theorem SignedOperand.balanced {text : List Char} (h : SignedOperand text) :
    Balanced '(' ')' text := by
  obtain ⟨sign, operand, rfl, rfl | rfl, ho⟩ := h
  · exact ho.balanced
  · exact .plain (by decide) (by decide) ho.balanced

/-- An operand is read up to a character that neither continues nor begins one. -/
theorem OptionalOperand.splitOperand {text : List Char} (h : OptionalOperand text) {c : Char}
    (hd : c.isDigit = false) (hc : c ≠ '(') (rest : List Char) :
    splitOperand '(' ')' (text ++ c :: rest) = (text, c :: rest) := by
  rcases h with rfl | run | hi
  · simp [Formula.splitOperand, hc, hd]
  · refine splitOperand_digits rfl run.property.1 run.isDigit_of_mem ?_
    rintro _ ⟨⟩
    exact hd
  · simpa using splitOperand_group (by decide) hi (c :: rest)

theorem OptionalOperand.splitOperand_reverse {text : List Char} (h : OptionalOperand text)
    {c : Char} (hd : c.isDigit = false) (hc : c ≠ ')') (rest : List Char) :
    Formula.splitOperand ')' '(' (text.reverse ++ c :: rest) = (text.reverse, c :: rest) := by
  rcases h with rfl | run | hi
  · simp [Formula.splitOperand, hc, hd]
  · refine splitOperand_digits rfl run.reverse.property.1 run.reverse.isDigit_of_mem ?_
    rintro _ ⟨⟩
    exact hd
  · simpa using splitOperand_group (by decide) hi.reverse (c :: rest)

section Operation

variable {left right x y : List Char} {op : Operator}

theorem balanced_operation (hl : SignedOperand left) (op : Operator) (hr : OptionalOperand right) :
    Balanced '(' ')' (left ++ op.symbol :: right) :=
  hl.balanced.append (.plain op.symbol_ne_opening op.symbol_ne_closing hr.balanced)

/-- An operation does not begin with the group that begins a text. -/
theorem SignedOperand.not_group_eq {inner : List Char} (hl : SignedOperand left)
    (hi : Balanced '(' ')' inner) : '(' :: (inner ++ [')']) ≠ left ++ op.symbol :: right := by
  intro h
  obtain ⟨sign, operand, rfl, rfl | rfl, rfl | run | hi'⟩ := hl
  · simp [op.symbol_ne_opening.symm] at h
  · obtain ⟨c, digits, hrun, hc⟩ := run.exists_cons
    simp only [hrun, List.nil_append, List.cons_append, List.cons.injEq] at h
    rw [← h.1] at hc
    exact absurd hc (by decide)
  · simp only [List.nil_append, List.cons_append, List.append_assoc, List.cons.injEq,
      true_and] at h
    have := (hi.eq_of_append_partner (by decide) hi' h).2
    simp at this
  all_goals simp at h

/-- An operation does not end with the group that ends a text. -/
theorem OptionalOperand.not_group_eq {inner : List Char} (hr : OptionalOperand right)
    (hi : Balanced '(' ')' inner) : '(' :: (inner ++ [')']) ≠ left ++ op.symbol :: right := by
  intro h
  have hrev : ')' :: (inner.reverse ++ ['(']) = right.reverse ++ op.symbol :: left.reverse := by
    simpa using congrArg List.reverse h
  rcases hr with rfl | run | hi'
  · simp [op.symbol_ne_closing.symm] at hrev
  · obtain ⟨c, digits, hrun, hc⟩ := run.reverse.exists_cons
    have hrun : run.val.reverse = c :: digits := hrun
    simp only [hrun, List.cons_append, List.cons.injEq] at hrev
    rw [← hrev.1] at hc
    exact absurd hc (by decide)
  · simp only [List.reverse_cons, List.reverse_append, List.reverse_nil, List.nil_append,
      List.append_assoc, List.cons_append, List.cons.injEq, true_and] at hrev
    have := (hi.reverse.eq_of_append_partner (by decide) hi'.reverse hrev).2
    simp at this

/-- An operand that holds an operation is a group with the operation inside. -/
theorem Operand.exists_group (h : Operand (x ++ (left ++ op.symbol :: right ++ y)))
    (hl : SignedOperand left) (hr : OptionalOperand right) :
    ∃ x' y', x = '(' :: x' ∧ y = y' ++ [')'] ∧
      Balanced '(' ')' (x' ++ (left ++ op.symbol :: right ++ y')) := by
  generalize htext : x ++ (left ++ op.symbol :: right ++ y) = text at h
  obtain run | @⟨inner, hi⟩ := h
  · have hd := run.isDigit_of_mem op.symbol (by simp [← htext])
    simp at hd
  rcases x with _ | ⟨c, x'⟩
  · have heq : '(' :: (inner ++ [')']) = left ++ op.symbol :: (right ++ y) := by
      simpa using htext.symm
    exact absurd heq (hl.not_group_eq hi)
  rcases List.eq_nil_or_concat y with rfl | ⟨y', d, rfl⟩
  · have heq : '(' :: (inner ++ [')']) = (c :: x' ++ left) ++ op.symbol :: right := by
      simpa using htext.symm
    exact absurd heq (hr.not_group_eq hi)
  · have heq : c :: (x' ++ (left ++ op.symbol :: right ++ y') ++ [d]) =
        '(' :: (inner ++ [')']) := by
      simpa using htext
    obtain ⟨rfl, htail⟩ := List.cons.inj heq
    obtain ⟨rfl, hd⟩ := List.append_inj' htail rfl
    obtain ⟨rfl, -⟩ := List.cons.inj hd
    exact ⟨x', y', rfl, by simp, hi⟩

/-- An operand does not begin with an operation. -/
theorem OptionalOperand.ne_operation_append {text : List Char} (h : OptionalOperand text)
    (hl : SignedOperand left) (hr : OptionalOperand right) :
    text ≠ left ++ op.symbol :: right ++ y := by
  rintro rfl
  rcases h with hnil | h
  · simp at hnil
  · have h : Operand ([] ++ (left ++ op.symbol :: right ++ y)) := h
    obtain ⟨x', -, hx', -⟩ := h.exists_group hl hr
    simp at hx'

/-- An operand stays one when an operation in it gets a pair. -/
theorem Operand.wrap (h : Operand (x ++ (left ++ op.symbol :: right ++ y)))
    (hl : SignedOperand left) (hr : OptionalOperand right) :
    Operand (x ++ ('(' :: (left ++ op.symbol :: right ++ [')']) ++ y)) := by
  obtain ⟨x', y', rfl, rfl, hi⟩ := h.exists_group hl hr
  have hop := balanced_operation hl op hr
  have hi' := hi.replace (by decide) hop hop.enclose
  simpa using Operand.group hi'

/-- An operand with its sign stays one, too, if the operator in it is not the sign. -/
theorem SignedOperand.wrap (h : SignedOperand (x ++ (left ++ op.symbol :: right ++ y)))
    (hl : SignedOperand left) (hr : OptionalOperand right)
    (hsign : x = [] → left = [] → op.symbol ≠ '-') :
    SignedOperand (x ++ ('(' :: (left ++ op.symbol :: right ++ [')']) ++ y)) := by
  obtain ⟨sign, operand, heq, rfl | rfl, ho⟩ := h
  · -- without a sign, all is one operand
    obtain rfl : x ++ (left ++ op.symbol :: right ++ y) = operand := heq
    rcases ho with hnil | ho
    · simp at hnil
    · exact ⟨[], _, rfl, .inl rfl, .inr (ho.wrap hl hr)⟩
  rcases x with _ | ⟨c, x⟩
  · -- the sign would be that of the operation, but an operand does not begin with the rest of it
    exfalso
    obtain ⟨sign', operand', rfl, rfl | rfl, ho'⟩ := hl
    · rcases ho' with rfl | run | hi
      · exact hsign rfl rfl (by simpa using congrArg List.head? heq)
      · obtain ⟨c, digits, hrun, hc⟩ := run.exists_cons
        obtain rfl : c = '-' := by simpa [hrun] using congrArg List.head? heq
        exact absurd hc (by decide)
      · simp at heq
    · have hl' : SignedOperand operand' := ⟨[], operand', rfl, .inl rfl, ho'⟩
      exact ho.ne_operation_append hl' hr (by simpa using heq.symm)
  · obtain ⟨rfl, rfl⟩ : c = '-' ∧ operand = x ++ (left ++ op.symbol :: right ++ y) := by
      simpa [eq_comm] using heq
    rcases ho with hnil | ho
    · simp at hnil
    · exact ⟨['-'], _, rfl, .inr rfl, .inr (ho.wrap hl hr)⟩

end Operation

/-! ### Sites -/

namespace Site

/-- The operator of a site stands with its operands directly between two brackets.  What stands
before them is `outer`, reversed, and what stands behind them is `rest`. -/
structure Enclosed (s : Site) (outer left right rest : List Char) : Prop where
  before : s.before = left.reverse ++ '(' :: outer
  signedOperand : SignedOperand left
  after : s.after = right ++ ')' :: rest
  operand : OptionalOperand right

variable {s : Site} {outer left right rest : List Char}

theorem optionalOperand_right (s : Site) : OptionalOperand s.right.1 :=
  operand_of_splitOperand s.after

theorem Enclosed.left_eq (h : s.Enclosed outer left right rest) :
    s.left = (left.reverse, '(' :: outer) := by
  obtain ⟨sign, operand, hleft, hs, ho⟩ := h.signedOperand
  rcases hs with rfl | rfl
  · have hbefore : s.before = operand.reverse ++ '(' :: outer := by simp [h.before, hleft]
    rw [Site.left, hbefore, ho.splitOperand_reverse rfl (by decide)]
    simp [hleft, splitSign_of_opensLevel, opensLevel]
  · have hbefore : s.before = operand.reverse ++ '-' :: '(' :: outer := by simp [h.before, hleft]
    rw [Site.left, hbefore, ho.splitOperand_reverse rfl (by decide)]
    simp [hleft, splitSign_sign, opensLevel]

theorem Enclosed.right_eq (h : s.Enclosed outer left right rest) :
    s.right = (right, ')' :: rest) := by
  rw [Site.right, h.after, h.operand.splitOperand rfl (by decide)]

/-- **An operator is grouped exactly if it stands with its operands between two brackets.** -/
theorem isGrouped_iff_enclosed :
    s.isGrouped = true ↔ ∃ outer left right rest, s.Enclosed outer left right rest := by
  constructor
  · intro h
    rw [isGrouped, Bool.and_eq_true, beq_iff_eq, beq_iff_eq] at h
    obtain ⟨outer, houter⟩ := List.head?_eq_some_iff.mp h.1
    obtain ⟨rest, hrest⟩ := List.head?_eq_some_iff.mp h.2
    refine ⟨outer, s.left.1.reverse, s.right.1, rest, ?_, s.leftOperand.signedOperand, ?_,
      s.optionalOperand_right⟩
    · rw [List.reverse_reverse, ← houter, s.left_append]
    · rw [← hrest, s.right_append]
  · rintro ⟨outer, left, right, rest, h⟩
    rw [isGrouped, h.left_eq, h.right_eq]
    rfl

section Wrap

variable {before after u v x y a a' b b' : List Char} {c : Char} {op : Operator}

/-- An operator stays grouped when an operation behind it gets a pair. -/
theorem isGrouped_wrap_after (hl : SignedOperand left) (hr : OptionalOperand right)
    (h : (Site.mk before c (u ++ (left ++ op.symbol :: right ++ v))).isGrouped = true) :
    (Site.mk before c (u ++ ('(' :: (left ++ op.symbol :: right ++ [')']) ++ v))).isGrouped =
      true := by
  rw [isGrouped_iff_enclosed] at h ⊢
  obtain ⟨outer, left', right', rest, henc⟩ := h
  have hop := balanced_operation hl op hr
  rcases hop.before_or_around (by decide) henc.operand.balanced henc.after with
    ⟨w, rfl⟩ | ⟨v', rfl, rfl⟩
  · refine ⟨outer, left', right', w ++ ('(' :: (left ++ op.symbol :: right ++ [')']) ++ v),
      henc.before, henc.signedOperand, ?_, henc.operand⟩
    simp
  · -- the right operand holds the operation
    rcases henc.operand with hnil | ho
    · simp at hnil
    · refine ⟨outer, left', _, rest, henc.before, henc.signedOperand, ?_, .inr (ho.wrap hl hr)⟩
      simp

/-- An operator stays grouped when an operation before it gets a pair. -/
theorem isGrouped_wrap_before (hl : SignedOperand left) (hr : OptionalOperand right)
    (hsign : isSign (left.reverse ++ u) op.symbol = false)
    (h : (Site.mk (v.reverse ++ ((left ++ op.symbol :: right).reverse ++ u)) c
      after).isGrouped = true) :
    (Site.mk (v.reverse ++ (('(' :: (left ++ op.symbol :: right ++ [')'])).reverse ++ u)) c
      after).isGrouped = true := by
  rw [isGrouped_iff_enclosed] at h ⊢
  obtain ⟨outer, left', right', rest, henc⟩ := h
  have hop := (balanced_operation hl op hr).reverse
  rcases hop.before_or_around (by decide) henc.signedOperand.balanced.reverse henc.before with
    ⟨w, hw⟩ | ⟨v', hv', rfl⟩
  · refine ⟨w ++ (('(' :: (left ++ op.symbol :: right ++ [')'])).reverse ++ u), left', right', rest,
      ?_, henc.signedOperand, henc.after, henc.operand⟩
    show v.reverse ++ _ = _
    rw [hw, List.append_assoc, List.cons_append]
  · -- the left operand holds the operation
    have hleft : left' = v'.reverse ++ (left ++ op.symbol :: right ++ v) := by
      simpa using congrArg List.reverse hv'
    have hw : v'.reverse = [] → left = [] → op.symbol ≠ '-' := by
      intro hnil hleft hop
      rw [List.reverse_eq_nil_iff.mp hnil, hleft, hop] at hsign
      simp [isSign, opensLevel] at hsign
    have hsigned := henc.signedOperand
    rw [hleft] at hsigned
    refine ⟨outer, _, right', rest, ?_, hsigned.wrap hl hr hw, henc.after, henc.operand⟩
    simp

/-- Whether an operator in a group is grouped does not depend on what is outside the group. -/
theorem isGrouped_inside (hb : Balanced '(' ')' (x ++ c :: y))
    (h : (Site.mk (x.reverse ++ '(' :: a) c (y ++ ')' :: b)).isGrouped = true) :
    (Site.mk (x.reverse ++ '(' :: a') c (y ++ ')' :: b')).isGrouped = true := by
  rw [isGrouped_iff_enclosed] at h ⊢
  obtain ⟨outer, left', right', rest, henc⟩ := h
  -- both brackets stand inside the group, or they are those of the group
  have hbefore : ∃ w, x.reverse ++ ['('] = left'.reverse ++ '(' :: w := by
    have hrev : Balanced ')' '(' ((y.reverse ++ [c]) ++ x.reverse) := by
      simpa using hb.reverse
    obtain ⟨inner, w, hw, hinner⟩ := hrev.exists_partner
    have heq : left'.reverse ++ '(' :: outer = inner ++ '(' :: (w ++ a) := by
      rw [← henc.before]
      simpa using congrArg (· ++ a) hw
    have := (henc.signedOperand.balanced.reverse.eq_of_append_partner (by decide) hinner heq).1
    exact ⟨w, by rw [hw, this]⟩
  have hafter : ∃ w, y ++ [')'] = right' ++ ')' :: w := by
    have hb' : Balanced '(' ')' ((x ++ [c]) ++ y) := by simpa using hb
    obtain ⟨inner, w, hw, hinner⟩ := hb'.exists_partner
    have heq : right' ++ ')' :: rest = inner ++ ')' :: (w ++ b) := by
      rw [← henc.after]
      simpa using congrArg (· ++ b) hw
    have := (henc.operand.balanced.eq_of_append_partner (by decide) hinner heq).1
    exact ⟨w, by rw [hw, this]⟩
  obtain ⟨w, hw⟩ := hbefore
  obtain ⟨w', hw'⟩ := hafter
  refine ⟨w ++ a', left', right', w' ++ b', ?_, henc.signedOperand, ?_, henc.operand⟩
  · simpa using congrArg (· ++ a') hw
  · simpa using congrArg (· ++ b') hw'

end Wrap

end Site

end ExactCalc.Formula
