/-
Grouping puts pairs into a text and leaves the partners as they are.

* `closing?` — the position of the bracket that closes the one at a position;
* `Extends` — a text with pairs put in: the old characters are there, in their order, what is new
  are brackets, and an old bracket has the partner that it had;
* `Extends.refl`, `Extends.trans` — no pairs, and pairs put in one after the other;
* `extends_enclose` — one pair round a balanced part;
* `Site.moves`, `Site.extends_resume` — a step, and where it moves each character;
* `Cursor.exists_extends_finish` — the same for a pass;
* `exists_extends_group` — so it is for both passes, whatever the text.
-/
import ExactCalc.Proofs.Grouped
import Mathlib.Data.Set.Card

namespace ExactCalc.Formula

/-- The position of the bracket that closes the opening bracket at position `i`. -/
def closing? (text : List Char) (i : Nat) : Option Nat :=
  (splitAtPartner '(' ')' 0 (text.drop (i + 1))).map fun parts => i + 1 + parts.1.length

/-- The positions of a character in a text, where they do not come from an older text. -/
def added (new : List Char) (f : Nat → Nat) (c : Char) : Set Nat :=
  {j | new[j]? = some c ∧ j ∉ Set.range f}

/-- The text `new` is `old` with brackets put in.  The character at position `i` of `old` is at
position `f i` of `new`. -/
structure Extends (old new : List Char) (f : Nat → Nat) : Prop where
  strictMono : StrictMono f
  -- behind the end of `old` there is no character in either text
  getElem? : ∀ i, new[f i]? = old[i]?
  isBracket : ∀ c, ∀ j ∈ added new f c, c = '(' ∨ c = ')'
  encard_added : (added new f '(').encard = (added new f ')').encard
  /-- A bracket without a partner has none in the new text either. -/
  closing? : ∀ i, old[i]? = some '(' → closing? new (f i) = (closing? old i).map f

namespace Extends

variable {old mid new : List Char} {f g : Nat → Nat}

theorem refl (text : List Char) : Extends text text id where
  strictMono := strictMono_id
  getElem? _ := rfl
  isBracket _ j hj := absurd ⟨j, rfl⟩ hj.2
  encard_added := by simp [added]
  closing? i _ := by simp

/-- What is new after two changes is new after the second one, or it was after the first. -/
theorem added_comp (hg : Extends mid new g) (c : Char) :
    added new (g ∘ f) c = added new g c ∪ g '' added mid f c := by
  ext j
  constructor
  · rintro ⟨hj, hnot⟩
    by_cases hrange : j ∈ Set.range g
    · obtain ⟨k, rfl⟩ := hrange
      rw [hg.getElem?] at hj
      refine .inr ⟨k, ⟨hj, ?_⟩, rfl⟩
      rintro ⟨i, rfl⟩
      exact hnot ⟨i, rfl⟩
    · exact .inl ⟨hj, hrange⟩
  · rintro (⟨hj, hnot⟩ | ⟨k, ⟨hk, hnot⟩, rfl⟩)
    · refine ⟨hj, ?_⟩
      rintro ⟨i, rfl⟩
      exact hnot ⟨f i, rfl⟩
    · refine ⟨(hg.getElem? k).trans hk, ?_⟩
      rintro ⟨i, hi⟩
      exact hnot ⟨i, hg.strictMono.injective hi⟩

theorem encard_added_comp (hg : Extends mid new g) (f : Nat → Nat) (c : Char) :
    (added new (g ∘ f) c).encard = (added new g c).encard + (added mid f c).encard := by
  have hdisjoint : Disjoint (added new g c) (g '' added mid f c) := by
    rw [Set.disjoint_left]
    rintro _ hj ⟨k, -, rfl⟩
    exact hj.2 ⟨k, rfl⟩
  rw [hg.added_comp, Set.encard_union_eq hdisjoint, hg.strictMono.injective.encard_image]

/-- Brackets put into a text in which brackets were put before. -/
theorem trans (hf : Extends old mid f) (hg : Extends mid new g) : Extends old new (g ∘ f) where
  strictMono := hg.strictMono.comp hf.strictMono
  getElem? i := (hg.getElem? (f i)).trans (hf.getElem? i)
  isBracket c j hj := by
    rw [hg.added_comp] at hj
    rcases hj with hj | ⟨k, hk, -⟩
    · exact hg.isBracket c j hj
    · exact hf.isBracket c k hk
  encard_added := by
    rw [hg.encard_added_comp, hg.encard_added_comp, hg.encard_added, hf.encard_added]
  closing? i hi := by
    have hmid : mid[f i]? = some '(' := (hf.getElem? i).trans hi
    rw [Function.comp_apply, hg.closing? _ hmid, hf.closing? i hi, Option.map_map]

end Extends

/-! ### One pair -/

/-- Where position `i` is when brackets were put in before the positions `a` and `b`. -/
def shift (a b i : Nat) : Nat :=
  if i < a then i else if i < b then i + 1 else i + 2

section Shift

variable {a b i : Nat}

theorem shift_of_lt (h : i < a) : shift a b i = i :=
  if_pos h

theorem shift_of_between (ha : a ≤ i) (hb : i < b) : shift a b i = i + 1 := by
  rw [shift, if_neg (Nat.not_lt.mpr ha), if_pos hb]

theorem shift_of_le (hab : a ≤ b) (h : b ≤ i) : shift a b i = i + 2 := by
  rw [shift, if_neg (Nat.not_lt.mpr (hab.trans h)), if_neg (Nat.not_lt.mpr h)]

theorem strictMono_shift (a b : Nat) : StrictMono (shift a b) := by
  intro i j hij
  unfold shift
  split_ifs <;> omega

/-- The new positions are those of the two brackets. -/
theorem not_mem_range_shift (hab : a ≤ b) {j : Nat} :
    j ∉ Set.range (shift a b) ↔ j = a ∨ j = b + 1 := by
  constructor
  · intro h
    by_contra hj
    rw [not_or] at hj
    rcases Nat.lt_or_ge j a with ha | ha
    · exact h ⟨j, shift_of_lt ha⟩
    rcases Nat.lt_or_ge j (b + 1) with hb | hb
    · exact h ⟨j - 1, by rw [shift_of_between] <;> omega⟩
    · exact h ⟨j - 2, by rw [shift_of_le hab] <;> omega⟩
  · rintro (rfl | rfl) ⟨i, hi⟩
    · unfold shift at hi
      split_ifs at hi <;> omega
    · unfold shift at hi
      split_ifs at hi <;> omega

end Shift

theorem closing?_eq {text after : List Char} {i : Nat} (before : List Char)
    (htext : text = before ++ '(' :: after) (hi : before.length = i) :
    closing? text i =
      (splitAtPartner '(' ')' 0 after).map fun parts => i + 1 + parts.1.length := by
  subst htext hi
  simp [closing?]

/-- A bracket in a balanced text has its partner there. -/
theorem Balanced.exists_closing {x y : List Char} (h : Balanced '(' ')' (x ++ '(' :: y)) :
    ∃ inner rest, y = inner ++ ')' :: rest ∧ Balanced '(' ')' inner := by
  obtain ⟨inner, w, hw, hi⟩ := h.exists_partner
  cases hi with
  | nil => simp at hw
  | plain ho => exact absurd (List.cons.inj hw).1.symm ho
  | @group inner rest hi =>
    have hw : y ++ [')'] = inner ++ ')' :: (rest ++ ')' :: w) := by simpa using hw
    rcases mem_parts_of_append_eq hw with ⟨z, hz, -⟩ | ⟨z, -, hz⟩
    · exact ⟨inner, z, hz, hi⟩
    · have hlen := congrArg List.length hz
      simp at hlen
      omega

section Enclose

variable {outer seg rest : List Char}

/-- In front of a balanced part, the partner is looked for past the part and the pair round it. -/
theorem closing?_enclose_outer (hseg : Balanced '(' ')' seg) {x z : List Char}
    (houter : outer = x ++ '(' :: z) :
    closing? (outer ++ ('(' :: (seg ++ [')']) ++ rest)) x.length =
      (closing? (outer ++ (seg ++ rest)) x.length).map
        (shift outer.length (outer.length + seg.length)) := by
  have hne : '(' ≠ ')' := by decide
  have hlen : outer.length = x.length + 1 + z.length := by
    simp [houter]
    omega
  have hnewtext : outer ++ ('(' :: (seg ++ [')']) ++ rest) =
      x ++ '(' :: (z ++ ('(' :: (seg ++ [')']) ++ rest)) := by
    simp [houter]
  have holdtext : outer ++ (seg ++ rest) = x ++ '(' :: (z ++ (seg ++ rest)) := by
    simp [houter]
  rw [closing?_eq x hnewtext rfl, closing?_eq x holdtext rfl]
  rcases splitAtPartner_append_cases '(' ')' 0 z with ⟨inner, w, rfl, hall⟩ | ⟨k, hall⟩
  · -- the partner stands before the part
    have hlt : x.length + 1 + inner.length < outer.length := by
      simp [hlen]
    rw [hall, hall, Option.map_some, Option.map_some, Option.map_some, shift_of_lt hlt]
  · -- it is looked for behind the part, and both new brackets come before it
    rw [hall, hall, splitAtPartner_append hne hseg.enclose, splitAtPartner_append hne hseg]
    simp only [Option.map_map]
    refine congrArg (Option.map · _) (funext fun parts => ?_)
    have hle : outer.length + seg.length ≤ x.length + 1 + (z ++ (seg ++ parts.1)).length := by
      simp [hlen]
      omega
    simp only [Function.comp_apply, Prod.map, id_eq]
    rw [shift_of_le (Nat.le_add_right _ _) hle]
    simp
    omega

/-- In a balanced part, the partner stands there, too, and both move by one. -/
theorem closing?_enclose_inside (hseg : Balanced '(' ')' seg) {x y : List Char}
    (hx : seg = x ++ '(' :: y) :
    closing? (outer ++ ('(' :: (seg ++ [')']) ++ rest)) (outer.length + x.length + 1) =
      (closing? (outer ++ (seg ++ rest)) (outer.length + x.length)).map
        (shift outer.length (outer.length + seg.length)) := by
  have hne : '(' ≠ ')' := by decide
  rw [hx] at hseg
  obtain ⟨inner, w, rfl, hi⟩ := hseg.exists_closing
  have hsplit : ∀ after, splitAtPartner '(' ')' 0 (inner ++ ')' :: after) = some (inner, after) :=
    fun after => (splitAtPartner_eq_some_iff hne).mpr ⟨rfl, hi⟩
  have hold : outer ++ (seg ++ rest) = (outer ++ x) ++ '(' :: (inner ++ ')' :: (w ++ rest)) := by
    simp [hx]
  have hnew : outer ++ ('(' :: (seg ++ [')']) ++ rest) =
      (outer ++ '(' :: x) ++ '(' :: (inner ++ ')' :: (w ++ ')' :: rest)) := by
    simp [hx]
  have hlt : outer.length + x.length + 1 + inner.length < outer.length + seg.length := by
    simp [hx]
    omega
  rw [closing?_eq _ hold (by simp), closing?_eq _ hnew (by simp; omega), hsplit, hsplit,
    Option.map_some, Option.map_some, Option.map_some, shift_of_between (by omega) hlt]
  simp
  omega

/-- Behind a balanced part, all moves by two. -/
theorem closing?_enclose_rest {x y : List Char} (hrest : rest = x ++ '(' :: y) :
    closing? (outer ++ ('(' :: (seg ++ [')']) ++ rest))
        (outer.length + seg.length + x.length + 2) =
      (closing? (outer ++ (seg ++ rest)) (outer.length + seg.length + x.length)).map
        (shift outer.length (outer.length + seg.length)) := by
  have hold : outer ++ (seg ++ rest) = (outer ++ (seg ++ x)) ++ '(' :: y := by
    simp [hrest]
  have hnew : outer ++ ('(' :: (seg ++ [')']) ++ rest) =
      (outer ++ ('(' :: (seg ++ [')']) ++ x)) ++ '(' :: y := by
    simp [hrest]
  rw [closing?_eq _ hold (by simp; omega), closing?_eq _ hnew (by simp; omega), Option.map_map]
  refine congrArg (Option.map · _) (funext fun parts => ?_)
  rw [Function.comp_apply, shift_of_le (Nat.le_add_right _ _) (by omega)]
  omega

theorem exists_eq_append_of_getElem? {text : List Char} {i : Nat} {c : Char}
    (h : text[i]? = some c) : ∃ before after, text = before ++ c :: after ∧ before.length = i := by
  obtain ⟨hlt, rfl⟩ := List.getElem?_eq_some_iff.mp h
  exact ⟨text.take i, text.drop (i + 1), by simp, by simp; omega⟩

/-- **A pair round a balanced part changes no partner.** -/
theorem closing?_enclose (hseg : Balanced '(' ')' seg) {i : Nat}
    (hi : (outer ++ (seg ++ rest))[i]? = some '(') :
    closing? (outer ++ ('(' :: (seg ++ [')']) ++ rest))
        (shift outer.length (outer.length + seg.length) i) =
      (closing? (outer ++ (seg ++ rest)) i).map
        (shift outer.length (outer.length + seg.length)) := by
  obtain ⟨before, after, htext, rfl⟩ := exists_eq_append_of_getElem? hi
  rcases mem_parts_of_append_eq htext with ⟨z, hz, -⟩ | ⟨z, rfl, hafter⟩
  · have hlt : before.length < outer.length := by simp [hz]
    rw [shift_of_lt hlt]
    exact closing?_enclose_outer hseg hz
  rcases mem_parts_of_append_eq hafter with ⟨w, hw, -⟩ | ⟨w, rfl, hw⟩
  · have hlt : outer.length + z.length < outer.length + seg.length := by simp [hw]
    rw [List.length_append, shift_of_between (Nat.le_add_right _ _) hlt]
    exact closing?_enclose_inside hseg hw
  · rw [List.length_append, List.length_append, ← Nat.add_assoc,
      shift_of_le (Nat.le_add_right _ _) (Nat.le_add_right _ _)]
    exact closing?_enclose_rest hw

theorem getElem?_append_add (before text : List Char) (k : Nat) :
    (before ++ text)[before.length + k]? = text[k]? := by
  rw [List.getElem?_append_right (Nat.le_add_right _ _), Nat.add_sub_cancel_left]

theorem getElem?_enclose (outer seg rest : List Char) (i : Nat) :
    (outer ++ ('(' :: (seg ++ [')']) ++ rest))[shift outer.length (outer.length + seg.length) i]? =
      (outer ++ (seg ++ rest))[i]? := by
  rcases Nat.lt_or_ge i outer.length with ha | ha
  · rw [shift_of_lt ha, List.getElem?_append_left ha, List.getElem?_append_left ha]
  obtain ⟨k, rfl⟩ := Nat.exists_eq_add_of_le ha
  rw [getElem?_append_add]
  rcases Nat.lt_or_ge k seg.length with hb | hb
  · have hlt : k < (seg ++ [')']).length := by
      simp
      omega
    rw [shift_of_between ha (Nat.add_lt_add_left hb _), Nat.add_assoc, getElem?_append_add,
      List.cons_append, List.getElem?_cons_succ, List.getElem?_append_left hlt,
      List.getElem?_append_left hb, List.getElem?_append_left hb]
  · obtain ⟨k, rfl⟩ := Nat.exists_eq_add_of_le hb
    have hlen : seg.length + k + 2 = ('(' :: (seg ++ [')'])).length + k := by
      simp
      omega
    rw [shift_of_le (Nat.le_add_right _ _) (Nat.add_le_add_left hb _), Nat.add_assoc,
      getElem?_append_add, getElem?_append_add, hlen, getElem?_append_add]

/-- The new characters are two brackets. -/
theorem mem_added_enclose {c : Char} {j : Nat} :
    j ∈ added (outer ++ ('(' :: (seg ++ [')']) ++ rest))
        (shift outer.length (outer.length + seg.length)) c ↔
      (j = outer.length ∧ c = '(') ∨ (j = outer.length + seg.length + 1 ∧ c = ')') := by
  have hopen : (outer ++ ('(' :: (seg ++ [')']) ++ rest))[outer.length]? = some '(' := by simp
  have hclose : (outer ++ ('(' :: (seg ++ [')']) ++ rest))[outer.length + seg.length + 1]? =
      some ')' := by
    rw [Nat.add_assoc]
    simp
  rw [added, Set.mem_ofPred_eq, not_mem_range_shift (Nat.le_add_right _ _)]
  constructor
  · rintro ⟨hj, rfl | rfl⟩
    · exact .inl ⟨rfl, Option.some.inj (hj.symm.trans hopen)⟩
    · exact .inr ⟨rfl, Option.some.inj (hj.symm.trans hclose)⟩
  · rintro (⟨rfl, rfl⟩ | ⟨rfl, rfl⟩)
    · exact ⟨hopen, .inl rfl⟩
    · exact ⟨hclose, .inr rfl⟩

theorem added_enclose_opening (outer seg rest : List Char) :
    added (outer ++ ('(' :: (seg ++ [')']) ++ rest))
        (shift outer.length (outer.length + seg.length)) '(' = {outer.length} := by
  ext j
  rw [mem_added_enclose]
  simp

theorem added_enclose_closing (outer seg rest : List Char) :
    added (outer ++ ('(' :: (seg ++ [')']) ++ rest))
        (shift outer.length (outer.length + seg.length)) ')' =
      {outer.length + seg.length + 1} := by
  ext j
  rw [mem_added_enclose]
  simp

/-- **A pair round a balanced part.** -/
theorem extends_enclose (hseg : Balanced '(' ')' seg) :
    Extends (outer ++ (seg ++ rest)) (outer ++ ('(' :: (seg ++ [')']) ++ rest))
      (shift outer.length (outer.length + seg.length)) where
  strictMono := strictMono_shift _ _
  getElem? := getElem?_enclose outer seg rest
  isBracket c j hj := by
    rcases mem_added_enclose.mp hj with ⟨-, hc⟩ | ⟨-, hc⟩
    · exact .inl hc
    · exact .inr hc
  encard_added := by
    rw [added_enclose_opening, added_enclose_closing, Set.encard_singleton, Set.encard_singleton]
  closing? _ hi := closing?_enclose hseg hi

end Enclose

/-! ### Steps and passes -/

/-- Where a step moves the character at position `i`: past the brackets that it puts in before. -/
def Site.moves (s : Site) : Nat → Nat :=
  if s.isGrouped = true then id
  else shift s.left.2.length (s.left.2.length + (s.left.1.length + (s.right.1.length + 1)))

/-- A step puts one pair round an operation, or none. -/
theorem Site.extends_resume {tier : Tier} {s : Site} (hs : s.IsOperator tier) :
    Extends s.text s.resume.text s.moves := by
  obtain ⟨op, hop⟩ := hs.exists_symbol
  by_cases hg : s.isGrouped = true
  · rw [text_resume_of_isGrouped hg, moves, if_pos hg]
    exact .refl s.text
  · rw [moves, if_neg hg]
    have hg : s.isGrouped = false := Bool.eq_false_iff.mpr hg
    have hseg : Balanced '(' ')' (s.left.1.reverse ++ op.symbol :: s.right.1) :=
      balanced_operation s.leftOperand.signedOperand op s.optionalOperand_right
    have hold : s.text = s.left.2.reverse ++
        ((s.left.1.reverse ++ op.symbol :: s.right.1) ++ s.right.2) := by
      rw [text_eq, hop]
      simp
    have hnew : s.resume.text = s.left.2.reverse ++
        ('(' :: ((s.left.1.reverse ++ op.symbol :: s.right.1) ++ [')']) ++ s.right.2) := by
      rw [text_resume_of_not_isGrouped hg, hop]
      simp
    rw [hold, hnew]
    simpa using @extends_enclose s.left.2.reverse _ s.right.2 hseg

/-- A pass puts in one pair after the other. -/
theorem Cursor.exists_extends_finish (tier : Tier) (c : Cursor) :
    ∃ f, Extends c.text (c.finish tier) f := by
  fun_induction Cursor.finish tier c with
  | case1 c c' hn _ ih =>
    obtain ⟨s, hs, rfl⟩ := Option.map_eq_some_iff.mp hn
    have hop : s.IsOperator tier := ⟨(holds_of_site? hs).1, (holds_of_site? hs).2⟩
    have htext : s.text = c.text := text_of_site? hs
    have hstep := Site.extends_resume hop
    obtain ⟨g, hg⟩ := ih
    rw [htext] at hstep
    exact ⟨g ∘ s.moves, hstep.trans hg⟩
  | case2 c hn => exact ⟨id, .refl c.text⟩

/-- **Grouping only puts bracket pairs into a text, and every bracket keeps its partner**, whatever
the text. -/
theorem exists_extends_group (text : List Char) : ∃ f, Extends text (group text) f := by
  obtain ⟨f, hf⟩ := Cursor.exists_extends_finish .multiplicative ⟨[], text⟩
  obtain ⟨g, hg⟩ := Cursor.exists_extends_finish .additive ⟨[], groupTier text .multiplicative⟩
  exact ⟨g ∘ f, hf.trans hg⟩

end ExactCalc.Formula
