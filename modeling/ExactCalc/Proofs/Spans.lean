/-
The partner of a bracket, looked for in both directions.

* `opening?` — the position of the bracket that is closed at a position;
* `Drains`, `splitAtPartner_eq_some_iff_drains` — what a search counts, told without the search;
* `AreMatched` — two brackets with a balanced text between them;
* `closing?_eq_some_iff_areMatched`, `opening?_eq_some_iff_areMatched` — both searches find these;
* `IsInnermostSpan` — the part of a text from one bracket through another, told by its counts;
* `closing?_eq_some_iff_opening?` — the searches undo each other, what they find is the innermost
  balanced part, and two such parts do not cross.

Design notes: a search forward counts what is open in front of each character and a search backward
what is open behind it.  The two counts are not compared: a text is balanced when it is read in
either direction, and each search comes down to that.
-/
import ExactCalc.Proofs.Partners
import ExactCalc.Text.Line

namespace ExactCalc.Formula

/-- The position of the bracket that is closed at position `j`. -/
def opening? (text : List Char) (j : Nat) : Option Nat :=
  (splitAtPartner ')' '(' 0 (text.take j).reverse).map fun parts => parts.2.length

/-! ### Counting -/

section Counting

variable {same partner c : Char} {depth : Nat} {text inner rest : List Char}

/-- In a text, `depth` more brackets are closed than opened, and at no place before its end are
more closed than that. -/
structure Drains (same partner : Char) (depth : Nat) (text : List Char) : Prop where
  count_eq : text.count partner = text.count same + depth
  count_le : ∀ u, u <+: text → u.count partner ≤ u.count same + depth

theorem drains_nil : Drains same partner depth [] ↔ depth = 0 := by
  constructor
  · intro h
    simpa using h.count_eq.symm
  · rintro rfl
    refine ⟨rfl, fun u hu => ?_⟩
    rw [List.prefix_nil.mp hu]
    exact Nat.le_refl 0

/-- Past a character that closes nothing too many, the counts and the depth change alike. -/
theorem count_cons_add_depthAfter (hne : same ≠ partner) (hc : ¬(c = partner ∧ depth = 0))
    (u : List Char) :
    (c :: u).count partner + (u.count same + depthAfter same partner depth c) =
      u.count partner + ((c :: u).count same + depth) := by
  rw [List.count_cons, List.count_cons, depthAfter]
  by_cases hs : c = same
  · subst hs
    simp [hne]
    omega
  by_cases hp : c = partner
  · subst hp
    have hd : depth ≠ 0 := fun hd => hc ⟨rfl, hd⟩
    simp [hs]
    omega
  · simp [hs, hp]

theorem drains_cons (hne : same ≠ partner) (hc : ¬(c = partner ∧ depth = 0)) :
    Drains same partner depth (c :: text) ↔
      Drains same partner (depthAfter same partner depth c) text := by
  have hcount := count_cons_add_depthAfter hne hc
  constructor
  · intro h
    refine ⟨?_, fun u hu => ?_⟩
    · have := h.count_eq
      have := hcount text
      omega
    · have := h.count_le (c :: u) ((List.prefix_cons_inj c).mpr hu)
      have := hcount u
      omega
  · intro h
    refine ⟨?_, fun u hu => ?_⟩
    · have := h.count_eq
      have := hcount text
      omega
    · rcases List.prefix_cons_iff.mp hu with rfl | ⟨u', rfl, hu'⟩
      · exact Nat.zero_le _
      · have := h.count_le u' hu'
        have := hcount u'
        omega

/-- **A search ends at the first bracket that closes one more than is open.** -/
theorem splitAtPartner_eq_some_iff_drains (hne : same ≠ partner) :
    splitAtPartner same partner depth text = some (inner, rest) ↔
      text = inner ++ partner :: rest ∧ Drains same partner depth inner := by
  induction text generalizing depth inner with
  | nil => simp [splitAtPartner]
  | cons c text ih =>
    rw [splitAtPartner]
    split
    · next hc =>
      obtain ⟨rfl, rfl⟩ := hc
      constructor
      · intro h
        cases h
        exact ⟨rfl, drains_nil.mpr rfl⟩
      · rintro ⟨heq, hd⟩
        rcases List.cons_eq_append_iff.mp heq with ⟨rfl, hrest⟩ | ⟨inner', rfl, -⟩
        · cases hrest
          rfl
        · -- nothing is open in front of the first character
          have hle := hd.count_le [c] (List.prefix_append [c] inner')
          simp [hne.symm] at hle
    · next hc =>
      constructor
      · intro h
        obtain ⟨⟨u, v⟩, huv, heq⟩ := Option.map_eq_some_iff.mp h
        cases heq
        obtain ⟨rfl, hd⟩ := ih.mp huv
        exact ⟨rfl, (drains_cons hne hc).mpr hd⟩
      · rintro ⟨heq, hd⟩
        rcases List.cons_eq_append_iff.mp heq with ⟨rfl, hrest⟩ | ⟨inner', rfl, rfl⟩
        · exact absurd ⟨(List.cons.inj hrest).1.symm, drains_nil.mp hd⟩ hc
        · rw [ih.mpr ⟨rfl, (drains_cons hne hc).mp hd⟩]
          rfl

theorem balanced_iff_drains (hne : same ≠ partner) :
    Balanced same partner text ↔ Drains same partner 0 text := by
  have hcut : splitAtPartner same partner 0 (text ++ [partner]) = some (text, []) ↔
      Balanced same partner text := by
    rw [splitAtPartner_eq_some_iff hne]
    simp
  rw [← hcut, splitAtPartner_eq_some_iff_drains hne]
  simp

end Counting

/-! ### Matched brackets -/

/-- A bracket at position `i` is closed at position `j`: all between the two is balanced. -/
def AreMatched (text : List Char) (i j : Nat) : Prop :=
  ∃ before inner rest, text = before ++ '(' :: (inner ++ ')' :: rest) ∧
    before.length = i ∧ i + 1 + inner.length = j ∧ Balanced '(' ')' inner

section Searches

variable {text : List Char} {i j : Nat}

theorem closing?_eq_some_iff_areMatched (hi : text[i]? = some '(') :
    closing? text i = some j ↔ AreMatched text i j := by
  obtain ⟨before, after, rfl, rfl⟩ := exists_eq_append_of_getElem? hi
  rw [closing?_eq before rfl rfl, Option.map_eq_some_iff]
  constructor
  · rintro ⟨⟨inner, rest⟩, hsplit, hj⟩
    obtain ⟨rfl, hinner⟩ := (splitAtPartner_eq_some_iff (by decide)).mp hsplit
    exact ⟨before, inner, rest, rfl, rfl, hj, hinner⟩
  · rintro ⟨before', inner, rest, heq, hlen, hj, hinner⟩
    obtain ⟨rfl, hafter⟩ := List.append_inj heq hlen.symm
    exact ⟨(inner, rest), (splitAtPartner_eq_some_iff (by decide)).mpr
      ⟨(List.cons.inj hafter).2, hinner⟩, hj⟩

theorem opening?_eq_some_iff_areMatched (hj : text[j]? = some ')') :
    opening? text j = some i ↔ AreMatched text i j := by
  obtain ⟨front, rest, rfl, rfl⟩ := exists_eq_append_of_getElem? hj
  have hopening : opening? (front ++ ')' :: rest) front.length =
      (splitAtPartner ')' '(' 0 front.reverse).map fun parts => parts.2.length := by
    rw [opening?, List.take_left]
  rw [hopening, Option.map_eq_some_iff]
  constructor
  · rintro ⟨⟨inner, outer⟩, hsplit, hi⟩
    obtain ⟨heq, hinner⟩ := (splitAtPartner_eq_some_iff (by decide)).mp hsplit
    obtain rfl : front = outer.reverse ++ '(' :: inner.reverse := by
      simpa using congrArg List.reverse heq
    refine ⟨outer.reverse, inner.reverse, rest, by simp, by simpa using hi, ?_, hinner.reverse⟩
    simp [← hi]
    omega
  · rintro ⟨before, inner, rest', heq, rfl, hlen, hinner⟩
    have hfront : front.length = (before ++ '(' :: inner).length := by
      simp [← hlen]
      omega
    have heq : front ++ ')' :: rest = (before ++ '(' :: inner) ++ ')' :: rest' := by
      simpa using heq
    obtain ⟨rfl, -⟩ := List.append_inj heq hfront
    refine ⟨(inner.reverse, before.reverse), ?_, List.length_reverse⟩
    exact (splitAtPartner_eq_some_iff (by decide)).mpr ⟨by simp, hinner.reverse⟩

end Searches

/-! ### Spans -/

/-- The part of a text from position `i` through position `j`. -/
def span (text : List Char) (i j : Nat) : List Char :=
  (text.take (j + 1)).drop i

/-- From position `i` through position `j`, as many brackets are opened as closed, and at no place
between are as many closed as opened. -/
structure IsInnermostSpan (text : List Char) (i j : Nat) : Prop where
  lt : i < j
  count_eq : (span text i j).count '(' = (span text i j).count ')'
  count_lt : ∀ u v, span text i j = u ++ v → u ≠ [] → v ≠ [] → u.count ')' < u.count '('

section Innermost

variable {text : List Char} {i j : Nat}

theorem span_eq (before seg rest : List Char) {i j : Nat} (hi : before.length = i)
    (hj : i + seg.length = j + 1) : span (before ++ (seg ++ rest)) i j = seg := by
  subst hi
  rw [span, ← hj, ← List.append_assoc, ← List.length_append, List.take_left, List.drop_left]

/-- What is counted between two brackets, and what is counted from one through the other. -/
theorem drains_iff_isInnermostSpan {before inner rest : List Char}
    (htext : text = before ++ '(' :: (inner ++ ')' :: rest)) (hi : before.length = i)
    (hj : i + 1 + inner.length = j) :
    Drains '(' ')' 0 inner ↔ IsInnermostSpan text i j := by
  have hspan : span text i j = '(' :: (inner ++ [')']) := by
    have hlen : i + ('(' :: (inner ++ [')'])).length = j + 1 := by
      simp
      omega
    simpa [htext] using span_eq before _ rest hi hlen
  constructor
  · intro h
    refine ⟨by omega, ?_, ?_⟩
    · have := h.count_eq
      simp [hspan]
      omega
    · intro u v huv hu hv
      rw [hspan] at huv
      obtain ⟨u, rfl⟩ : ∃ u', u = '(' :: u' := by
        rcases List.cons_eq_append_iff.mp huv with ⟨rfl, -⟩ | ⟨u', rfl, -⟩
        · exact absurd rfl hu
        · exact ⟨u', rfl⟩
      -- a front part that is not all of it ends before the last bracket
      have hprefix : u <+: inner := by
        have heq : inner ++ [')'] = u ++ v := by simpa using huv
        rcases List.prefix_concat_iff.mp ⟨v, heq.symm⟩ with hall | hinner
        · rw [hall] at heq
          exact absurd (List.self_eq_append_right.mp heq) hv
        · exact hinner
      have := h.count_le u hprefix
      simp
      omega
  · intro h
    refine ⟨?_, ?_⟩
    · have hcount := h.count_eq
      rw [hspan] at hcount
      simp at hcount
      omega
    · rintro u ⟨v, rfl⟩
      have hlt := h.count_lt ('(' :: u) (v ++ [')']) (by simp [hspan]) (by simp) (by simp)
      simp at hlt
      omega

theorem areMatched_iff_isInnermostSpan (hi : text[i]? = some '(') (hj : text[j]? = some ')') :
    AreMatched text i j ↔ IsInnermostSpan text i j := by
  constructor
  · rintro ⟨before, inner, rest, htext, hlen, hlen', hinner⟩
    have hdrains := (balanced_iff_drains (by decide)).mp hinner
    exact (drains_iff_isInnermostSpan htext hlen hlen').mp hdrains
  · intro h
    obtain ⟨before, after, rfl, rfl⟩ := exists_eq_append_of_getElem? hi
    obtain ⟨k, rfl⟩ : ∃ k, j = before.length + (k + 1) := Nat.exists_eq_add_of_lt h.lt
    rw [getElem?_append_add, List.getElem?_cons_succ] at hj
    obtain ⟨inner, rest, rfl, rfl⟩ := exists_eq_append_of_getElem? hj
    have hlen : before.length + 1 + inner.length = before.length + (inner.length + 1) := by omega
    have hdrains := (drains_iff_isInnermostSpan rfl rfl hlen).mpr h
    exact ⟨before, inner, rest, rfl, rfl, hlen, (balanced_iff_drains (by decide)).mpr hdrains⟩

end Innermost

/-- Of two opening brackets with a partner, the second one is matched behind the partner of the
first one, or in front of it. -/
theorem AreMatched.lt_or_inside {text : List Char} {i j i' j' : Nat} (h : AreMatched text i j)
    (h' : AreMatched text i' j') (hlt : i < i') : j < i' ∨ j' < j := by
  obtain ⟨before, inner, rest, htext, rfl, rfl, hinner⟩ := h
  obtain ⟨before', inner', rest', htext', rfl, rfl, hinner'⟩ := h'
  rcases mem_parts_of_append_eq (htext.symm.trans htext') with ⟨x, rfl, -⟩ | ⟨x, rfl, htail⟩
  · simp at hlt
  rcases List.cons_eq_append_iff.mp htail with ⟨rfl, -⟩ | ⟨x, rfl, hx⟩
  · simp at hlt
  rcases mem_parts_of_append_eq hx with ⟨z, rfl, hz⟩ | ⟨z, rfl, hz⟩
  · -- the second bracket has its partner inside the first pair
    right
    obtain ⟨inner'', w, rfl, hinner''⟩ := hinner.exists_closing
    have hz : inner' ++ ')' :: rest' = inner'' ++ ')' :: (w ++ ')' :: rest) := by simpa using hz
    have hsame : inner' = inner'' := (hinner'.eq_of_append_partner (by decide) hinner'' hz).1
    simp [hsame]
    omega
  · left
    obtain ⟨z, rfl⟩ : ∃ z', z = ')' :: z' := by
      rcases List.cons_eq_append_iff.mp hz with ⟨rfl, hz⟩ | ⟨z', rfl, -⟩
      · simp at hz
      · exact ⟨z', rfl⟩
    simp
    omega

/-- **The two searches for a partner undo each other, and they find the innermost balanced part of
a text.**  Two parts that are found from different brackets are disjoint, or the one lies inside the
other.  Nothing is assumed about the text, which may be one of bytes, each taken as a character. -/
theorem closing?_eq_some_iff_opening? (text : List Char) :
    (∀ i j, text[i]? = some '(' → text[j]? = some ')' →
      (closing? text i = some j ↔ opening? text j = some i) ∧
      (closing? text i = some j ↔ IsInnermostSpan text i j)) ∧
    ∀ i i' j j', text[i]? = some '(' → text[i']? = some '(' → i ≠ i' →
      closing? text i = some j → closing? text i' = some j' →
        j < i' ∨ j' < i ∨ (i < i' ∧ j' < j) ∨ (i' < i ∧ j < j') := by
  constructor
  · intro i j hi hj
    rw [closing?_eq_some_iff_areMatched hi, opening?_eq_some_iff_areMatched hj]
    exact ⟨Iff.rfl, areMatched_iff_isInnermostSpan hi hj⟩
  · intro i i' j j' hi hi' hne hj hj'
    have h := (closing?_eq_some_iff_areMatched hi).mp hj
    have h' := (closing?_eq_some_iff_areMatched hi').mp hj'
    rcases Nat.lt_or_gt_of_ne hne with hlt | hlt
    · rcases h.lt_or_inside h' hlt with hj | hj
      · exact .inl hj
      · exact .inr (.inr (.inl ⟨hlt, hj⟩))
    · rcases h'.lt_or_inside h hlt with hj | hj
      · exact .inr (.inl hj)
      · exact .inr (.inr (.inr ⟨hlt, hj⟩))

/-- In bytes with an unmatched bracket in front, the third bracket is closed at the end, and what is
closed at the end was opened there. -/
theorem closing?_eq_some_iff_opening?_of_bytes :
    let text := (Text.encode "é)(1+(2)ß)".toList).map Char.ofUInt8
    (text[3]? = some '(' ∧ text[6]? = some '(' ∧ text[11]? = some ')') ∧
      (closing? text 3 = some 11 ∧ closing? text 6 = some 8) ∧
      opening? text 11 = some 3 ∧ IsInnermostSpan text 3 11 ∧
      (11 < 6 ∨ 8 < 3 ∨ (3 < 6 ∧ 8 < 11) ∨ (6 < 3 ∧ 11 < 8)) := by
  have h₃ : ((Text.encode "é)(1+(2)ß)".toList).map Char.ofUInt8)[3]? = some '(' := by
    decide +kernel
  have h₆ : ((Text.encode "é)(1+(2)ß)".toList).map Char.ofUInt8)[6]? = some '(' := by
    decide +kernel
  have h₁₁ : ((Text.encode "é)(1+(2)ß)".toList).map Char.ofUInt8)[11]? = some ')' := by
    decide +kernel
  have hclose₃ : closing? ((Text.encode "é)(1+(2)ß)".toList).map Char.ofUInt8) 3 = some 11 := by
    decide +kernel
  have hclose₆ : closing? ((Text.encode "é)(1+(2)ß)".toList).map Char.ofUInt8) 6 = some 8 := by
    decide +kernel
  have hspans := closing?_eq_some_iff_opening? ((Text.encode "é)(1+(2)ß)".toList).map Char.ofUInt8)
  obtain ⟨hinverse, hspan⟩ := hspans.1 3 11 h₃ h₁₁
  exact ⟨⟨h₃, h₆, h₁₁⟩, ⟨hclose₃, hclose₆⟩, hinverse.mp hclose₃, hspan.mp hclose₃,
    hspans.2 3 6 11 8 h₃ h₆ (by decide) hclose₃ hclose₆⟩

end ExactCalc.Formula
