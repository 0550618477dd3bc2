/-
Grouping is idempotent, whatever the text.

* `Site.IsOperator` — the symbol of a site is an operator of a tier and no sign;
* `Site.Origin`, `Site.exists_origin` — an operator of the text behind a step is the one that got
  its pair, or it was there before, and is grouped if it was;
* `Cursor.Explicit` — all operators that a pass has visited are grouped;
* `isGrouped_of_text_eq_group` — in a grouped text all operators are grouped;
* `group_group` — to group a grouped text changes nothing.
-/
import ExactCalc.Proofs.Pairing
import ExactCalc.Proofs.Rejection

namespace ExactCalc.Formula

/-- A character in a text of two parts stands in the one or in the other. -/
theorem mem_parts_of_append_eq {α : Type} {u w p q : List α} {c : α} (h : u ++ w = p ++ c :: q) :
    (∃ z, u = p ++ c :: z ∧ q = z ++ w) ∨ ∃ z, p = u ++ z ∧ w = z ++ c :: q := by
  rcases List.append_eq_append_iff.mp h with ⟨z, hp, hw⟩ | ⟨z, hu, hq⟩
  · exact .inr ⟨z, hp, hw⟩
  · rcases List.cons_eq_append_iff.mp hq with ⟨rfl, rfl⟩ | ⟨z', rfl, hq'⟩
    · exact .inr ⟨[], by simpa using hu.symm, rfl⟩
    · exact .inl ⟨z', hu, hq'⟩

theorem isSign_append_congr {x y : List Char} (h : opensLevel x = opensLevel y) (z : List Char)
    (c : Char) : isSign (z ++ x) c = isSign (z ++ y) c := by
  rcases z with _ | ⟨d, z⟩
  · rw [List.nil_append, List.nil_append, isSign, isSign, h]
  · rfl

/-- No level begins behind an operation. -/
theorem opensLevel_operation {right : List Char} (hr : OptionalOperand right) (op : Operator)
    (before : List Char) : opensLevel (right.reverse ++ op.symbol :: before) = false := by
  rcases hr with rfl | run | hi
  · simp [opensLevel, op.symbol_ne_opening]
  · obtain ⟨c, digits, hrun, hc⟩ := run.reverse.exists_cons
    have hrun : run.val.reverse = c :: digits := hrun
    simp [hrun, opensLevel, ne_of_isDigit hc]
  · simp [opensLevel]

theorem Tier.ne_of_holds {tier : Tier} {c d : Char} (hc : tier.holds c = true)
    (hd : tier.holds d = false) : c ≠ d := by
  rintro rfl
  rw [hc] at hd
  cases hd

/-- An operator in an operand stands in a group. -/
theorem OptionalOperand.exists_group {x y : List Char} {c : Char} {tier : Tier}
    (h : OptionalOperand (x ++ c :: y)) (hc : tier.holds c = true) :
    ∃ a b, x = '(' :: a ∧ y = b ++ [')'] ∧ Balanced '(' ')' (a ++ c :: b) := by
  obtain ⟨op, rfl, -⟩ := Tier.holds_eq_true.mp hc
  rcases h with hnil | h
  · simp at hnil
  · have hl : SignedOperand [] := ⟨[], [], rfl, .inl rfl, .inl rfl⟩
    have h : Operand (x ++ ([] ++ op.symbol :: [] ++ y)) := by simpa using h
    obtain ⟨a, b, hx, hy, hb⟩ := h.exists_group hl (.inl rfl)
    exact ⟨a, b, hx, hy, by simpa using hb⟩

/-- With a sign in front of the operand, it may also be that sign. -/
theorem SignedOperand.exists_group {x y : List Char} {c : Char} {tier : Tier}
    (h : SignedOperand (x ++ c :: y)) (hc : tier.holds c = true) :
    (x = [] ∧ c = '-') ∨
      ∃ sign a b, x = sign ++ '(' :: a ∧ y = b ++ [')'] ∧ Balanced '(' ')' (a ++ c :: b) := by
  obtain ⟨sign, operand, heq, rfl | rfl, ho⟩ := h
  · obtain rfl : x ++ c :: y = operand := heq
    exact .inr ⟨[], ho.exists_group hc⟩
  · rcases x with _ | ⟨d, x⟩
    · exact .inl ⟨rfl, by simpa using congrArg List.head? heq⟩
    · obtain ⟨rfl, rfl⟩ : d = '-' ∧ x ++ c :: y = operand := by simpa using heq
      obtain ⟨a, b, rfl, hy, hb⟩ := ho.exists_group hc
      exact .inr ⟨['-'], a, b, rfl, hy, hb⟩

namespace Site

/-- The symbol of a site is an operator of a tier. -/
structure IsOperator (tier : Tier) (s : Site) : Prop where
  holds : tier.holds s.symbol = true
  noSign : isSign s.before s.symbol = false

/-- A site is where an operator was before a step.  It is grouped if it was grouped there. -/
structure Origin (tier : Tier) (old : List Char) (t s : Site) : Prop where
  text : t.text = old
  isOperator : t.IsOperator tier
  isGrouped : t.isGrouped = true → s.isGrouped = true

theorem eq_of_text_eq {s t : Site} (h : t.text = s.text)
    (hlen : t.before.length = s.before.length) : t = s := by
  rcases s with ⟨before, c, after⟩
  rcases t with ⟨before', c', after'⟩
  obtain ⟨hbefore, htail⟩ := List.append_inj h (by simpa using hlen)
  have hbefore : before' = before := List.reverse_inj.mp hbefore
  have htail : c' :: after' = c :: after := htail
  simp_all

/-- Where a site can be in a text in which an operation has got a pair: in one of the four parts
that are as before, or at the operator. -/
inductive Location (outer left : List Char) (op : Operator) (right rest : List Char) :
    Site → Prop where
  | outer {before z : List Char} {c : Char} (h : outer.reverse = before.reverse ++ c :: z) :
      Location outer left op right rest
        ⟨before, c, z ++ ('(' :: (left ++ op.symbol :: right ++ [')']) ++ rest)⟩
  | left {z z' : List Char} {c : Char} (h : left = z ++ c :: z') :
      Location outer left op right rest
        ⟨z.reverse ++ '(' :: outer, c, z' ++ op.symbol :: (right ++ ')' :: rest)⟩
  | operator :
      Location outer left op right rest
        ⟨left.reverse ++ '(' :: outer, op.symbol, right ++ ')' :: rest⟩
  | right {z z' : List Char} {c : Char} (h : right = z ++ c :: z') :
      Location outer left op right rest
        ⟨z.reverse ++ op.symbol :: (left.reverse ++ '(' :: outer), c, z' ++ ')' :: rest⟩
  | rest {z after : List Char} {c : Char} (h : rest = z ++ c :: after) :
      Location outer left op right rest
        ⟨z.reverse ++ (('(' :: (left ++ op.symbol :: right ++ [')'])).reverse ++ outer), c, after⟩

section Step

variable {tier : Tier} {outer left right rest before after z : List Char} {op : Operator} {c : Char}

theorem location_of_text_eq {s : Site} (ho : s.symbol ≠ '(') (hc : s.symbol ≠ ')')
    (h : s.text = outer.reverse ++ ('(' :: (left ++ op.symbol :: right ++ [')']) ++ rest)) :
    Location outer left op right rest s := by
  rcases s with ⟨before, c, after⟩
  have ho : c ≠ '(' := ho
  have hc : c ≠ ')' := hc
  -- the parts from left to right, the three single characters included
  rcases mem_parts_of_append_eq h.symm with ⟨z, hz, hafter⟩ | ⟨_ | ⟨d, z⟩, hbefore, h₁⟩
  · obtain rfl : after = _ := hafter
    exact .outer hz
  · exact absurd (List.cons.inj h₁).1.symm ho
  obtain ⟨rfl, h₂⟩ : '(' = d ∧ left ++ op.symbol :: (right ++ ')' :: rest) = z ++ c :: after := by
    simpa using h₁
  obtain rfl : before = z.reverse ++ '(' :: outer := by
    simpa using congrArg List.reverse hbefore
  rcases mem_parts_of_append_eq h₂ with ⟨z', hz, rfl⟩ | ⟨_ | ⟨d, z'⟩, rfl, h₃⟩
  · exact .left hz
  · obtain ⟨rfl, rfl⟩ := List.cons.inj h₃
    rw [List.append_nil]
    exact .operator
  obtain ⟨rfl, h₄⟩ := List.cons.inj h₃
  rcases mem_parts_of_append_eq h₄ with ⟨z'', hz, rfl⟩ | ⟨_ | ⟨d, z''⟩, rfl, h₅⟩
  · simpa using Location.right hz
  · exact absurd (List.cons.inj h₅).1.symm hc
  · obtain ⟨rfl, hz⟩ := List.cons.inj h₅
    simpa using Location.rest hz

/-- An operator before the operation. -/
theorem origin_outer (hl : SignedOperand left) (hr : OptionalOperand right)
    (houter : outer.reverse = before.reverse ++ c :: z)
    (hc : (Site.mk before c after).IsOperator tier) :
    Origin tier (outer.reverse ++ (left ++ op.symbol :: right ++ rest))
      ⟨before, c, z ++ (left ++ op.symbol :: right ++ rest)⟩
      ⟨before, c, z ++ ('(' :: (left ++ op.symbol :: right ++ [')']) ++ rest)⟩ where
  text := by simp [houter, Site.text]
  isOperator := ⟨hc.holds, hc.noSign⟩
  isGrouped := isGrouped_wrap_after hl hr

/-- An operator in a group that is part of the operation. -/
theorem origin_inside {x y u u' v w : List Char} (hb : Balanced '(' ')' (x ++ c :: y))
    (hc : (Site.mk (x.reverse ++ '(' :: u') c after).IsOperator tier) :
    Origin tier (u.reverse ++ '(' :: (x ++ c :: (y ++ ')' :: v)))
      ⟨x.reverse ++ '(' :: u, c, y ++ ')' :: v⟩ ⟨x.reverse ++ '(' :: u', c, y ++ ')' :: w⟩ where
  text := by simp [Site.text]
  isOperator := by
    refine ⟨hc.holds, ?_⟩
    have hopens : opensLevel ('(' :: u') = opensLevel ('(' :: u) := rfl
    exact (isSign_append_congr hopens x.reverse c).symm.trans hc.noSign
  isGrouped := isGrouped_inside hb

/-- An operator behind the operation. -/
theorem origin_rest (hl : SignedOperand left) (hr : OptionalOperand right)
    (hsign : isSign (left.reverse ++ outer) op.symbol = false)
    (hc : (Site.mk (z.reverse ++ (('(' :: (left ++ op.symbol :: right ++ [')'])).reverse ++ outer))
      c after).IsOperator tier) :
    Origin tier (outer.reverse ++ (left ++ op.symbol :: right ++ (z ++ c :: after)))
      ⟨z.reverse ++ ((left ++ op.symbol :: right).reverse ++ outer), c, after⟩
      ⟨z.reverse ++ (('(' :: (left ++ op.symbol :: right ++ [')'])).reverse ++ outer), c,
        after⟩ where
  text := by simp [Site.text]
  isOperator := by
    refine ⟨hc.holds, ?_⟩
    -- behind either text no level begins
    have hold : opensLevel ((left ++ op.symbol :: right).reverse ++ outer) = false := by
      simpa using opensLevel_operation hr op (left.reverse ++ outer)
    have hnew : opensLevel (('(' :: (left ++ op.symbol :: right ++ [')'])).reverse ++ outer) =
        false := by
      simp [opensLevel]
    exact (isSign_append_congr (hnew.trans hold.symm) z.reverse c).symm.trans hc.noSign
  isGrouped := isGrouped_wrap_before hl hr hsign

/-- An operator in the left operand.  It is not the sign of that operand, because a sign is still
one behind the new bracket. -/
theorem exists_origin_left {z' : List Char} (hl : SignedOperand (z ++ c :: z'))
    (hc : (Site.mk (z.reverse ++ '(' :: outer) c
      (z' ++ op.symbol :: (right ++ ')' :: rest))).IsOperator tier) :
    ∃ t, Origin tier (outer.reverse ++ (z ++ c :: z' ++ op.symbol :: right ++ rest)) t
        ⟨z.reverse ++ '(' :: outer, c, z' ++ op.symbol :: (right ++ ')' :: rest)⟩ ∧
      t.before.length < ((z ++ c :: z').reverse ++ outer).length := by
  rcases hl.exists_group hc.holds with ⟨rfl, rfl⟩ | ⟨sign, a, b, rfl, rfl, hb⟩
  · cases hc.noSign
  · refine ⟨⟨a.reverse ++ '(' :: (sign.reverse ++ outer), c,
      b ++ ')' :: op.symbol :: (right ++ rest)⟩, ?_, ?_⟩
    · have horigin := origin_inside (u := sign.reverse ++ outer)
        (v := op.symbol :: (right ++ rest)) (w := op.symbol :: (right ++ ')' :: rest)) hb
        (by simpa using hc)
      simpa using horigin
    · simp
      omega

/-- An operator in the right operand. -/
theorem exists_origin_right {z' : List Char} (hr : OptionalOperand (z ++ c :: z'))
    (hc : (Site.mk (z.reverse ++ op.symbol :: (left.reverse ++ '(' :: outer)) c
      (z' ++ ')' :: rest)).IsOperator tier) :
    ∃ t, Origin tier (outer.reverse ++ (left ++ op.symbol :: (z ++ c :: z') ++ rest)) t
        ⟨z.reverse ++ op.symbol :: (left.reverse ++ '(' :: outer), c, z' ++ ')' :: rest⟩ ∧
      (left.reverse ++ outer).length + 1 <
        (z.reverse ++ op.symbol :: (left.reverse ++ '(' :: outer)).length := by
  obtain ⟨a, b, rfl, rfl, hb⟩ := hr.exists_group hc.holds
  refine ⟨⟨a.reverse ++ '(' :: op.symbol :: (left.reverse ++ outer), c, b ++ ')' :: rest⟩, ?_, ?_⟩
  · have horigin := origin_inside (u := op.symbol :: (left.reverse ++ outer))
      (v := rest) (w := ')' :: rest) hb (by simpa using hc)
    simpa using horigin
  · simp
    omega

/-- **Where the operators of a text with one more pair come from.**  Those that were there before
stand before the operator of that pair or behind it, as they did. -/
theorem exists_origin (hl : SignedOperand left) (hr : OptionalOperand right)
    (hsign : isSign (left.reverse ++ outer) op.symbol = false) {s : Site}
    (hs : s.IsOperator tier)
    (htext : s.text = outer.reverse ++ ('(' :: (left ++ op.symbol :: right ++ [')']) ++ rest)) :
    s.isGrouped = true ∨
      ∃ t, Origin tier (outer.reverse ++ (left ++ op.symbol :: right ++ rest)) t s ∧
        (t.before.length < (left.reverse ++ outer).length ∨
          (left.reverse ++ outer).length + 1 < s.before.length) := by
  have hopen : s.symbol ≠ '(' := Tier.ne_of_holds hs.holds (by cases tier <;> rfl)
  have hclose : s.symbol ≠ ')' := Tier.ne_of_holds hs.holds (Cursor.not_holds_close tier)
  rcases location_of_text_eq hopen hclose htext with
    houter | @⟨z, z', c, rfl⟩ | _ | @⟨z, z', c, rfl⟩ | hrest
  -- before the pair, in the left operand, the operator of the pair, in the right operand, behind it
  · refine .inr ⟨_, origin_outer hl hr houter hs, .inl ?_⟩
    have hlen := congrArg List.length houter
    simp at hlen ⊢
    omega
  · obtain ⟨t, ht, hlen⟩ := exists_origin_left hl hs
    exact .inr ⟨t, ht, .inl hlen⟩
  · exact .inl (isGrouped_iff_enclosed.mpr ⟨outer, left, right, rest, rfl, hl, rfl, hr⟩)
  · obtain ⟨t, ht, hlen⟩ := exists_origin_right hr hs
    exact .inr ⟨t, ht, .inr hlen⟩
  · subst hrest
    refine .inr ⟨_, origin_rest hl hr hsign hs, .inr ?_⟩
    simp
    omega

end Step

/-- The same for a step of a pass. -/
theorem exists_origin_of_resume {tier : Tier} {s t : Site} (hs : s.IsOperator tier)
    (hg : s.isGrouped = false) {tier' : Tier} (ht : t.IsOperator tier')
    (htext : t.text = s.resume.text) :
    t.isGrouped = true ∨
      ∃ u, Origin tier' s.text u t ∧
        (u.before.length < s.before.length ∨ s.before.length + 1 < t.before.length) := by
  obtain ⟨op, hop, -⟩ := Tier.holds_eq_true.mp hs.holds
  have hbefore : s.left.1.reverse.reverse ++ s.left.2 = s.before := by
    rw [List.reverse_reverse, s.left_append]
  have hsign : isSign (s.left.1.reverse.reverse ++ s.left.2) op.symbol = false := by
    rw [hbefore, ← hop]
    exact hs.noSign
  have hnew : t.text = s.left.2.reverse ++
      ('(' :: (s.left.1.reverse ++ op.symbol :: s.right.1 ++ [')']) ++ s.right.2) := by
    rw [htext, text_resume_of_not_isGrouped hg, hop]
    simp
  have hold : s.text = s.left.2.reverse ++
      (s.left.1.reverse ++ op.symbol :: s.right.1 ++ s.right.2) := by
    rw [text_eq, hop]
    simp
  have := exists_origin s.leftOperand.signedOperand s.optionalOperand_right hsign ht hnew
  rwa [← hold, hbefore] at this

end Site

/-! ### Passes -/

namespace Cursor

variable {tier : Tier}

/-- An operator up to a character that is none stands before that character. -/
theorem before_of_not_operator {before after : List Char} {c : Char}
    (hc : ¬(tier.holds c && !isSign before c) = true) {t : Site}
    (htext : t.text = before.reverse ++ c :: after) (ht : t.IsOperator tier)
    (hlt : t.before.length < before.length + 1) : t.before.length < before.length := by
  rcases Nat.lt_succ_iff_lt_or_eq.mp hlt with hlt | heq
  · exact hlt
  · exfalso
    obtain rfl : t = ⟨before, c, after⟩ := Site.eq_of_text_eq htext heq
    exact hc (by simp [ht.holds, ht.noSign])

/-- Between the cursor and the next operator of a tier there is none. -/
theorem before_of_site? {before after : List Char} {s : Site}
    (h : site? tier before after = some s) {t : Site} (htext : t.text = before.reverse ++ after)
    (ht : t.IsOperator tier) (hlt : t.before.length < s.before.length) :
    t.before.length < before.length := by
  induction after generalizing before with
  | nil => cases h
  | cons c after ih =>
    rw [site?] at h
    by_cases hc : (tier.holds c && !isSign before c) = true
    · rw [if_pos hc] at h
      cases h
      exact hlt
    · rw [if_neg hc] at h
      exact before_of_not_operator hc htext ht (ih h (by simpa using htext))

/-- Where no operator of a tier comes next, all stand before the cursor. -/
theorem before_of_site?_eq_none {before after : List Char}
    (h : site? tier before after = none) {t : Site} (htext : t.text = before.reverse ++ after)
    (ht : t.IsOperator tier) : t.before.length < before.length := by
  induction after generalizing before with
  | nil =>
    have hlen := congrArg List.length htext
    simp [Site.text] at hlen
    omega
  | cons c after ih =>
    rw [site?] at h
    by_cases hc : (tier.holds c && !isSign before c) = true
    · rw [if_pos hc] at h
      cases h
    · rw [if_neg hc] at h
      exact before_of_not_operator hc htext ht (ih h (by simpa using htext))

/-- The operators of a tier that stand before the cursor are grouped.  In the second pass all tight
operators are, wherever they stand. -/
structure Explicit (tier : Tier) (c : Cursor) : Prop where
  visited : ∀ t : Site, t.text = c.text → t.IsOperator tier →
    t.before.length < c.before.length → t.isGrouped = true
  tight : tier = .additive → ∀ t : Site, t.text = c.text → t.IsOperator .multiplicative →
    t.isGrouped = true

/-- **A step leaves the visited operators grouped**, and groups the one it comes to. -/
theorem Explicit.resume {c : Cursor} (h : c.Explicit tier) {s : Site}
    (hs : site? tier c.before c.after = some s) : s.resume.Explicit tier := by
  have htext : s.text = c.text := text_of_site? hs
  have hop : s.IsOperator tier := ⟨(holds_of_site? hs).1, (holds_of_site? hs).2⟩
  have hvisited : ∀ t : Site, t.text = s.text → t.IsOperator tier →
      t.before.length < s.before.length → t.isGrouped = true := by
    intro t ht hto hlt
    have ht : t.text = c.text := ht.trans htext
    exact h.visited t ht hto (before_of_site? hs ht hto hlt)
  by_cases hg : s.isGrouped = true
  · have hresume : s.resume = ⟨s.symbol :: s.before, s.after⟩ := if_pos hg
    have htext' : s.resume.text = s.text := Site.text_resume_of_isGrouped hg
    refine ⟨fun t ht hto hlt => ?_, fun hadd t ht hto => ?_⟩
    · have ht : t.text = s.text := ht.trans htext'
      rw [hresume] at hlt
      rcases Nat.lt_succ_iff_lt_or_eq.mp hlt with hlt | heq
      · exact hvisited t ht hto hlt
      · rwa [Site.eq_of_text_eq ht heq]
    · exact h.tight hadd t (ht.trans (htext'.trans htext)) hto
  · have hg : s.isGrouped = false := Bool.eq_false_iff.mpr hg
    have hlen : s.resume.before.length = s.before.length + 2 := by
      have hleft := congrArg List.length s.left_append
      rw [List.length_append] at hleft
      simp [Site.resume, hg]
      omega
    refine ⟨fun t ht hto hlt => ?_, fun hadd t ht hto => ?_⟩
    · rcases Site.exists_origin_of_resume hop hg hto ht with hgrouped | ⟨u, hu, hpos⟩
      · exact hgrouped
      · exact hu.isGrouped (hvisited u hu.text hu.isOperator (by omega))
    · rcases Site.exists_origin_of_resume hop hg hto ht with hgrouped | ⟨u, hu, -⟩
      · exact hgrouped
      · exact hu.isGrouped (h.tight hadd u (hu.text.trans htext) hu.isOperator)

theorem Explicit.initial (text : List Char)
    (h : tier = .additive → ∀ t : Site, t.text = text → t.IsOperator .multiplicative →
      t.isGrouped = true) : Explicit tier ⟨[], text⟩ :=
  ⟨fun _ _ _ hlt => absurd hlt (Nat.not_lt_zero _), h⟩

/-- What a whole pass leaves: the operators of its tier are grouped, the tight ones still are. -/
theorem Explicit.finish {c : Cursor} (h : c.Explicit tier) :
    (∀ t : Site, t.text = c.finish tier → t.IsOperator tier → t.isGrouped = true) ∧
      (tier = .additive → ∀ t : Site, t.text = c.finish tier → t.IsOperator .multiplicative →
        t.isGrouped = true) := by
  fun_induction Cursor.finish tier c with
  | case1 c c' hn _ ih =>
    obtain ⟨s, hs, rfl⟩ := Option.map_eq_some_iff.mp hn
    exact ih (h.resume hs)
  | case2 c hn =>
    have hnone : site? tier c.before c.after = none := Option.map_eq_none_iff.mp hn
    refine ⟨fun t ht hto => ?_, h.tight⟩
    exact h.visited t ht hto (before_of_site?_eq_none hnone ht hto)

/-- A pass changes nothing if all operators of its tier are grouped. -/
theorem finish_eq_text {c : Cursor}
    (h : ∀ t : Site, t.text = c.text → t.IsOperator tier → t.isGrouped = true) :
    c.finish tier = c.text := by
  fun_induction Cursor.finish tier c with
  | case1 c c' hn _ ih =>
    obtain ⟨s, hs, rfl⟩ := Option.map_eq_some_iff.mp hn
    have hop : s.IsOperator tier := ⟨(holds_of_site? hs).1, (holds_of_site? hs).2⟩
    have htext : s.resume.text = c.text :=
      (Site.text_resume_of_isGrouped (h s (text_of_site? hs) hop)).trans (text_of_site? hs)
    rw [htext] at ih
    exact ih h
  | case2 c hn => rfl

end Cursor

/-- **In a grouped text all operators are grouped.** -/
theorem isGrouped_of_text_eq_group {tier : Tier} {text : List Char} {t : Site}
    (htext : t.text = group text) (ht : t.IsOperator tier) : t.isGrouped = true := by
  have hinitial : Cursor.Explicit .multiplicative ⟨[], text⟩ :=
    .initial text fun h => absurd h (by decide)
  have hfirst := hinitial.finish
  have hbetween : Cursor.Explicit .additive ⟨[], groupTier text .multiplicative⟩ :=
    .initial _ fun _ => hfirst.1
  have hsecond := hbetween.finish
  rw [group_eq] at htext
  rcases tier with _ | _
  · exact hsecond.1 t htext ht
  · exact hsecond.2 rfl t htext ht

/-- **Grouping a grouped text changes nothing**, whatever the text was. -/
theorem group_group (text : List Char) : group (group text) = group text := by
  have hpass : ∀ tier, groupTier (group text) tier = group text := fun tier =>
    Cursor.finish_eq_text fun _ htext ht => isGrouped_of_text_eq_group htext ht
  rw [group_eq (group text), hpass, hpass]

end ExactCalc.Formula
