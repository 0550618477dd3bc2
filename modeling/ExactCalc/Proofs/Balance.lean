/-
Balanced texts.

* `Balanced` — a text in which every bracket has its partner;
* `Balanced.reverse` — read backwards with the two brackets exchanged, it is balanced again;
* `splitAtPartner_append_cases` — the partner stands in a text, or behind it;
* `splitAtPartner_eq_some_iff` — the partner of an open bracket stands behind a balanced text;
* `enclosed?_eq_some_iff` — two partners enclose a whole text exactly if it is balanced between
  them;
* `splitOperand_cases` — an operand is missing, a run of digits, or a group.
-/
import ExactCalc.Formula.Bracket

namespace ExactCalc.Formula

/-- A text in which every bracket has its partner. -/
inductive Balanced (same partner : Char) : List Char → Prop where
  | nil : Balanced same partner []
  | plain {c : Char} {text : List Char} (hs : c ≠ same) (hp : c ≠ partner)
      (h : Balanced same partner text) : Balanced same partner (c :: text)
  | group {inner text : List Char} (hi : Balanced same partner inner)
      (h : Balanced same partner text) : Balanced same partner (same :: (inner ++ partner :: text))

variable {same partner : Char}

namespace Balanced

theorem append {s t : List Char} (hs : Balanced same partner s) (ht : Balanced same partner t) :
    Balanced same partner (s ++ t) := by
  induction hs with
  | nil => exact ht
  | plain hs hp _ ih => exact plain hs hp ih
  | group hi _ _ ih =>
    rw [List.cons_append, List.append_assoc, List.cons_append]
    exact group hi ih

theorem enclose {inner : List Char} (h : Balanced same partner inner) :
    Balanced same partner (same :: (inner ++ [partner])) :=
  group h nil

theorem of_plain {text : List Char} (h : ∀ c ∈ text, c ≠ same ∧ c ≠ partner) :
    Balanced same partner text := by
  induction text with
  | nil => exact nil
  | cons c text ih =>
    obtain ⟨hs, hp⟩ := h c List.mem_cons_self
    exact plain hs hp (ih fun d hd => h d (List.mem_cons_of_mem c hd))

/-- Read backwards, the brackets change their roles. -/
theorem reverse {text : List Char} (h : Balanced same partner text) :
    Balanced partner same text.reverse := by
  induction h with
  | nil => exact nil
  | plain hs hp _ ih =>
    rw [List.reverse_cons]
    exact ih.append (plain hp hs nil)
  | @group inner text _ _ ihi ih =>
    have heq : (same :: (inner ++ partner :: text)).reverse =
        text.reverse ++ partner :: (inner.reverse ++ [same]) := by simp
    rw [heq]
    exact ih.append (enclose ihi)

end Balanced

/-! ### The partner of a bracket -/

section Partner

variable (hne : same ≠ partner)
include hne

theorem splitAtPartner_same (depth : Nat) (text : List Char) :
    splitAtPartner same partner depth (same :: text) =
      (splitAtPartner same partner (depth + 1) text).map (Prod.map (same :: ·) id) := by
  rw [splitAtPartner, if_neg (fun h => hne h.1), depthAfter, if_pos rfl]

theorem splitAtPartner_partner (depth : Nat) (text : List Char) :
    splitAtPartner same partner (depth + 1) (partner :: text) =
      (splitAtPartner same partner depth text).map (Prod.map (partner :: ·) id) := by
  rw [splitAtPartner, if_neg (fun h => Nat.succ_ne_zero depth h.2), depthAfter, if_neg hne.symm,
    if_pos rfl, Nat.add_sub_cancel]

omit hne in
theorem splitAtPartner_plain {c : Char} (hs : c ≠ same) (hp : c ≠ partner) (depth : Nat)
    (text : List Char) :
    splitAtPartner same partner depth (c :: text) =
      (splitAtPartner same partner depth text).map (Prod.map (c :: ·) id) := by
  rw [splitAtPartner, if_neg (fun h => hp h.1), depthAfter, if_neg hs, if_neg hp]

/-- A balanced text does not hold the partner of a bracket before it. -/
theorem splitAtPartner_append {text : List Char} (h : Balanced same partner text) (depth : Nat)
    (rest : List Char) :
    splitAtPartner same partner depth (text ++ rest) =
      (splitAtPartner same partner depth rest).map (Prod.map (text ++ ·) id) := by
  induction h generalizing depth rest with
  | nil =>
    rw [List.nil_append]
    cases splitAtPartner same partner depth rest <;> rfl
  | plain hs hp _ ih =>
    rw [List.cons_append, splitAtPartner_plain hs hp, ih, Option.map_map]
    rfl
  | group _ _ ihi ih =>
    -- the inside is passed one level deeper, and its partner leads back to `depth`
    rw [List.cons_append, List.append_assoc, splitAtPartner_same hne, ihi, List.cons_append,
      splitAtPartner_partner hne, ih]
    cases splitAtPartner same partner depth rest with
    | none => rfl
    | some parts => simp [Prod.map]

omit hne in
/-- The partner stands in the text `before`, or what is open behind that text decides, whatever
stands there. -/
theorem splitAtPartner_append_cases (same partner : Char) (depth : Nat) (before : List Char) :
    (∃ inner w, before = inner ++ partner :: w ∧
        ∀ rest, splitAtPartner same partner depth (before ++ rest) = some (inner, w ++ rest)) ∨
      ∃ k, ∀ rest, splitAtPartner same partner depth (before ++ rest) =
        (splitAtPartner same partner k rest).map (Prod.map (before ++ ·) id) := by
  induction before generalizing depth with
  | nil =>
    refine .inr ⟨depth, fun rest => ?_⟩
    rw [List.nil_append]
    cases splitAtPartner same partner depth rest <;> rfl
  | cons c before ih =>
    by_cases hc : c = partner ∧ depth = 0
    · refine .inl ⟨[], before, by rw [hc.1, List.nil_append], fun rest => ?_⟩
      rw [List.cons_append, splitAtPartner, if_pos hc]
    · rcases ih (depthAfter same partner depth c) with ⟨inner, w, rfl, h⟩ | ⟨k, h⟩
      · refine .inl ⟨c :: inner, w, rfl, fun rest => ?_⟩
        rw [List.cons_append, splitAtPartner, if_neg hc, h]
        rfl
      · refine .inr ⟨k, fun rest => ?_⟩
        rw [List.cons_append, splitAtPartner, if_neg hc, h, Option.map_map]
        rfl

omit hne in
/-- The texts that bring `depth` open brackets to their partners, the last one left out. -/
def Closes (same partner : Char) : Nat → List Char → Prop
  | 0, text => Balanced same partner text
  | depth + 1, text => ∃ inner rest, text = inner ++ partner :: rest ∧
      Balanced same partner inner ∧ Closes same partner depth rest

omit hne in
theorem Closes.balanced_append {depth : Nat} {s t : List Char} (hs : Balanced same partner s)
    (ht : Closes same partner depth t) : Closes same partner depth (s ++ t) := by
  cases depth with
  | zero => exact hs.append ht
  | succ depth =>
    obtain ⟨inner, rest, rfl, hi, hr⟩ := ht
    exact ⟨s ++ inner, rest, by simp, hs.append hi, hr⟩

theorem closes_of_splitAtPartner {depth : Nat} {text inner rest : List Char}
    (h : splitAtPartner same partner depth text = some (inner, rest)) :
    Closes same partner depth inner := by
  induction text generalizing depth inner with
  | nil => exact absurd h (by simp [splitAtPartner])
  | cons c text ih =>
    -- the three kinds of characters that `depthAfter` tells apart
    by_cases hs : c = same
    · subst hs
      rw [splitAtPartner_same hne] at h
      obtain ⟨⟨u, v⟩, huv, heq⟩ := Option.map_eq_some_iff.mp h
      cases heq
      obtain ⟨first, second, rfl, hf, hsec⟩ := ih huv
      -- the new bracket closes behind `first`, the others as before
      have := Closes.balanced_append (Balanced.enclose hf) hsec
      simpa using this
    · by_cases hp : c = partner
      · subst hp
        cases depth with
        | zero =>
          rw [splitAtPartner, if_pos ⟨rfl, rfl⟩] at h
          cases h
          exact Balanced.nil
        | succ depth =>
          rw [splitAtPartner_partner hne] at h
          obtain ⟨⟨u, v⟩, huv, heq⟩ := Option.map_eq_some_iff.mp h
          cases heq
          exact ⟨[], u, rfl, Balanced.nil, ih huv⟩
      · rw [splitAtPartner_plain hs hp] at h
        obtain ⟨⟨u, v⟩, huv, heq⟩ := Option.map_eq_some_iff.mp h
        cases heq
        exact Closes.balanced_append (Balanced.plain hs hp Balanced.nil) (ih huv)

/-- The partner of a bracket is the first one behind a balanced text. -/
theorem splitAtPartner_eq_some_iff {text inner rest : List Char} :
    splitAtPartner same partner 0 text = some (inner, rest) ↔
      text = inner ++ partner :: rest ∧ Balanced same partner inner := by
  constructor
  · intro h
    exact ⟨eq_append_of_splitAtPartner h, closes_of_splitAtPartner hne h⟩
  · rintro ⟨rfl, h⟩
    rw [splitAtPartner_append hne h, splitAtPartner, if_pos ⟨rfl, rfl⟩]
    simp

end Partner

/-- Two partners enclose a text exactly if all between them is balanced. -/
theorem enclosed?_eq_some_iff {text inner : List Char} :
    enclosed? text = some inner ↔ text = '(' :: (inner ++ [')']) ∧ Balanced '(' ')' inner := by
  constructor
  · intro h
    refine ⟨eq_of_enclosed? h, ?_⟩
    unfold enclosed? at h
    split at h
    · split at h
      · next heq =>
        cases h
        exact ((splitAtPartner_eq_some_iff (by decide)).mp heq).2
      · cases h
    · cases h
  · rintro ⟨rfl, h⟩
    have hsplit : splitAtPartner '(' ')' 0 (inner ++ [')']) = some (inner, []) :=
      (splitAtPartner_eq_some_iff (by decide)).mpr ⟨rfl, h⟩
    simp [enclosed?, hsplit]

/-! ### Operands -/

theorem ne_of_isDigit {c d : Char} (hc : c.isDigit = true) (hd : d.isDigit = false) : c ≠ d := by
  rintro rfl
  rw [hc] at hd
  cases hd

theorem splitOperand_group (hne : same ≠ partner) {inner : List Char}
    (h : Balanced same partner inner) (rest : List Char) :
    splitOperand same partner (same :: (inner ++ partner :: rest)) =
      (same :: (inner ++ [partner]), rest) := by
  have hsplit : splitAtPartner same partner 0 (inner ++ partner :: rest) = some (inner, rest) :=
    (splitAtPartner_eq_some_iff hne).mpr ⟨rfl, h⟩
  simp [splitOperand, hsplit]

/-- A run of digits ends where something else begins. -/
theorem takeWhile_digits {digits rest : List Char} (h : ∀ c ∈ digits, c.isDigit = true)
    (hrest : ∀ c ∈ rest.head?, c.isDigit = false) :
    (digits ++ rest).takeWhile Char.isDigit = digits := by
  have htake : rest.takeWhile Char.isDigit = [] := by
    cases rest with
    | nil => rfl
    | cons d rest => simp [hrest d rfl]
  rw [List.takeWhile_append_of_pos h, htake, List.append_nil]

/-- A run of digits that is not empty is an operand, if no digit follows it. -/
theorem splitOperand_digits (hsame : same.isDigit = false) {digits rest : List Char}
    (hne : digits ≠ []) (h : ∀ c ∈ digits, c.isDigit = true)
    (hrest : ∀ c ∈ rest.head?, c.isDigit = false) :
    splitOperand same partner (digits ++ rest) = (digits, rest) := by
  have htake := takeWhile_digits h hrest
  obtain ⟨c, digits, rfl⟩ := List.exists_cons_of_ne_nil hne
  have hc : c ≠ same := ne_of_isDigit (h c List.mem_cons_self) hsame
  have hdrop : rest.dropWhile Char.isDigit = rest := by
    cases rest with
    | nil => rfl
    | cons d rest => simp [hrest d rfl]
  rw [List.cons_append, splitOperand, if_neg hc, ← List.cons_append, htake,
    List.dropWhile_append_of_pos h, hdrop]

/-- The operand at the front of a text is missing, a run of digits, or a group. -/
theorem splitOperand_cases (hne : same ≠ partner) (text : List Char) :
    (splitOperand same partner text).1 = [] ∨
    ((splitOperand same partner text).1 ≠ [] ∧
      ∀ c ∈ (splitOperand same partner text).1, c.isDigit = true) ∨
    ∃ inner, (splitOperand same partner text).1 = same :: (inner ++ [partner]) ∧
      Balanced same partner inner := by
  cases text with
  | nil => exact .inl rfl
  | cons c text =>
    by_cases hc : c = same
    · subst hc
      cases hsplit : splitAtPartner c partner 0 text with
      | none => exact .inl (by simp [splitOperand, hsplit])
      | some parts =>
        obtain ⟨inner, rest⟩ := parts
        have hi := ((splitAtPartner_eq_some_iff hne).mp hsplit).2
        exact .inr (.inr ⟨inner, by simp [splitOperand, hsplit], hi⟩)
    · rw [splitOperand, if_neg hc]
      by_cases hd : c.isDigit = true
      · exact .inr (.inl ⟨by simp [hd], List.all_eq_true.mp List.all_takeWhile⟩)
      · exact .inl (by simp [hd])

end ExactCalc.Formula
