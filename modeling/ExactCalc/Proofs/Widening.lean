/-
Characters beyond those of a formula.

* `IsWide` — a character from 128 on, which is no digit, no operator and no bracket;
* `IsWidening` — each such character of a text may be spread over several others of its kind;
* `splitAtPartner_flatMap`, `splitOperand_flatMap`, `splitSign_flatMap` — all that is looked for in
  a text is found at the same places when the text is widened;
* `Site.widen`, `Cursor.site?_widen` — a cursor finds the same operator, with the same operands;
* `enclosed?_flatMap`, `splitAtOperator_flatMap`, `toInt?_flatMap` — a text is put together in the
  same way.
-/
import ExactCalc.Proofs.Pairing
import ExactCalc.Proofs.Nesting
import ExactCalc.Proofs.Rejection

namespace ExactCalc.Formula

/-- A character from 128 on. -/
def IsWide (c : Char) : Prop :=
  0x80 ≤ c.toNat

instance : DecidablePred IsWide :=
  fun c => inferInstanceAs (Decidable (0x80 ≤ c.toNat))

namespace IsWide

variable {c d : Char}

theorem ne (h : IsWide c) (hd : ¬IsWide d) : c ≠ d := by
  rintro rfl
  exact hd h

theorem isDigit (h : IsWide c) : c.isDigit = false := by
  rw [← Bool.not_eq_true]
  intro hd
  simp only [Char.isDigit, Bool.and_eq_true, decide_eq_true_eq] at hd
  have hle : c.toNat ≤ 57 := hd.2
  unfold IsWide at h
  omega

theorem ofChar? (h : IsWide c) : Operator.ofChar? c = none := by
  rw [Option.eq_none_iff_forall_ne_some]
  intro op hop
  rw [Operator.ofChar?_eq_some.mp hop] at h
  cases op <;> exact absurd h (by decide)

theorem holds (h : IsWide c) (tier : Tier) : tier.holds c = false := by
  rw [Tier.holds, h.ofChar?]
  rfl

end IsWide

theorem not_isWide_symbol (op : Operator) : ¬IsWide op.symbol := by
  cases op <;> decide

/-- What each character of a text is spread over. -/
structure IsWidening (w : Char → List Char) : Prop where
  narrow : ∀ c, ¬IsWide c → w c = [c]
  ne_nil : ∀ c, w c ≠ []
  wide : ∀ c, IsWide c → ∀ d ∈ w c, IsWide d

/-! ### Searches -/

section Searches

variable {w : Char → List Char} (hw : IsWidening w)
include hw

theorem IsWidening.reverse : IsWidening fun c => (w c).reverse where
  narrow c hc := by rw [hw.narrow c hc]; rfl
  ne_nil c := by simpa using hw.ne_nil c
  wide c hc d hd := hw.wide c hc d (List.mem_reverse.mp hd)

theorem IsWidening.exists_cons {c : Char} (hc : IsWide c) :
    ∃ d u, w c = d :: u ∧ IsWide d := by
  obtain ⟨d, u, hdu⟩ := List.exists_cons_of_ne_nil (hw.ne_nil c)
  exact ⟨d, u, hdu, hw.wide c hc d (by simp [hdu])⟩

/-- A wide character is at the front of a text, or the front is left as it is. -/
theorem head?_flatMap (text : List Char) :
    (∃ c d, text.head? = some c ∧ (text.flatMap w).head? = some d ∧ IsWide c ∧ IsWide d) ∨
      (text.flatMap w).head? = text.head? := by
  cases text with
  | nil => exact .inr rfl
  | cons c text =>
    by_cases hc : IsWide c
    · obtain ⟨d, u, hdu, hd⟩ := hw.exists_cons hc
      exact .inl ⟨c, d, rfl, by simp [hdu], hc, hd⟩
    · exact .inr (by simp [hw.narrow c hc])

theorem head?_flatMap_eq_iff {c : Char} (hc : ¬IsWide c) (text : List Char) :
    (text.flatMap w).head? = some c ↔ text.head? = some c := by
  rcases head?_flatMap hw text with ⟨d, e, hd, he, hwd, hwe⟩ | h
  · rw [hd, he, Option.some.injEq, Option.some.injEq]
    exact ⟨fun h => absurd h (hwe.ne hc), fun h => absurd h (hwd.ne hc)⟩
  · rw [h]

/-- **The partner of a bracket stays between the same parts.** -/
theorem splitAtPartner_flatMap {same partner : Char} (hs : ¬IsWide same) (hp : ¬IsWide partner)
    (hne : same ≠ partner) (depth : Nat) (text : List Char) :
    splitAtPartner same partner depth (text.flatMap w) =
      (splitAtPartner same partner depth text).map
        (Prod.map (List.flatMap w) (List.flatMap w)) := by
  induction text generalizing depth with
  | nil => rfl
  | cons c text ih =>
    rw [List.flatMap_cons]
    by_cases hc : IsWide c
    · have hplain : Balanced same partner (w c) := .of_plain fun d hd =>
        ⟨(hw.wide c hc d hd).ne hs, (hw.wide c hc d hd).ne hp⟩
      rw [splitAtPartner_append hne hplain, ih, splitAtPartner_plain (hc.ne hs) (hc.ne hp),
        Option.map_map, Option.map_map]
      rfl
    · rw [hw.narrow c hc, List.singleton_append, splitAtPartner, splitAtPartner]
      split
      · rfl
      · rw [ih, Option.map_map, Option.map_map]
        refine congrArg (Option.map · _) (funext fun parts => ?_)
        obtain ⟨inner, rest⟩ := parts
        simp [hw.narrow c hc]

/-- A run of digits ends in front of a wide character. -/
theorem takeWhile_flatMap (text : List Char) :
    (text.flatMap w).takeWhile Char.isDigit = (text.takeWhile Char.isDigit).flatMap w ∧
      (text.flatMap w).dropWhile Char.isDigit = (text.dropWhile Char.isDigit).flatMap w := by
  induction text with
  | nil => exact ⟨rfl, rfl⟩
  | cons c text ih =>
    by_cases hc : IsWide c
    · obtain ⟨d, u, hdu, hd⟩ := hw.exists_cons hc
      simp [hdu, hd.isDigit, hc.isDigit]
    · cases hdigit : c.isDigit with
      | true => simp [hw.narrow c hc, hdigit, ih]
      | false => simp [hw.narrow c hc, hdigit]

omit hw in
theorem splitOperand_of_head? {same partner : Char} {text : List Char}
    (h : text.head? ≠ some same) :
    splitOperand same partner text =
      (text.takeWhile Char.isDigit, text.dropWhile Char.isDigit) := by
  cases text with
  | nil => rfl
  | cons c text =>
    have hc : c ≠ same := fun hc => h (congrArg some hc)
    rw [splitOperand, if_neg hc]

/-- **An operand at the front of a text widens with the text.** -/
theorem splitOperand_flatMap {same partner : Char} (hs : ¬IsWide same) (hp : ¬IsWide partner)
    (hne : same ≠ partner) (text : List Char) :
    splitOperand same partner (text.flatMap w) =
      Prod.map (List.flatMap w) (List.flatMap w) (splitOperand same partner text) := by
  by_cases hhead : text.head? = some same
  · obtain ⟨text, rfl⟩ : ∃ t, text = same :: t := by
      cases text with
      | nil => cases hhead
      | cons c text => exact ⟨text, by rw [Option.some.inj hhead]⟩
    rw [List.flatMap_cons, hw.narrow same hs, List.singleton_append, splitOperand, splitOperand,
      if_pos rfl, if_pos rfl, splitAtPartner_flatMap hw hs hp hne]
    cases splitAtPartner same partner 0 text with
    | none => simp [hw.narrow same hs]
    | some parts => simp [hw.narrow same hs, hw.narrow partner hp]
  · have hhead' : (text.flatMap w).head? ≠ some same :=
      fun h => hhead ((head?_flatMap_eq_iff hw hs text).mp h)
    obtain ⟨htake, hdrop⟩ := takeWhile_flatMap hw text
    rw [splitOperand_of_head? hhead, splitOperand_of_head? hhead', htake, hdrop]
    rfl

theorem isSign_flatMap (before : List Char) (c : Char) :
    isSign (before.flatMap w) c = isSign before c := by
  have hopens : opensLevel (before.flatMap w) = opensLevel before := by
    cases before with
    | nil => rfl
    | cons b before =>
      have hopen : ¬IsWide '(' := by decide
      have hhead := head?_flatMap_eq_iff hw hopen (b :: before)
      obtain ⟨d, u, hdu⟩ := List.exists_cons_of_ne_nil (hw.ne_nil b)
      rw [List.flatMap_cons, hdu, List.cons_append, List.head?_cons, List.head?_cons,
        Option.some.injEq, Option.some.injEq] at hhead
      rw [List.flatMap_cons, hdu, List.cons_append, opensLevel, opensLevel, Bool.eq_iff_iff,
        beq_iff_eq, beq_iff_eq]
      exact hhead
  rw [isSign, isSign, hopens]

theorem splitSign_flatMap (before : List Char) :
    splitSign (before.flatMap w) =
      Prod.map (List.flatMap w) (List.flatMap w) (splitSign before) := by
  have hminus : ¬IsWide '-' := by decide
  cases before with
  | nil => rfl
  | cons c before =>
    by_cases hc : IsWide c
    · obtain ⟨d, u, hdu, hd⟩ := hw.exists_cons hc
      simp [splitSign, isSign, hdu, hd.ne hminus, hc.ne hminus]
    · rw [List.flatMap_cons, hw.narrow c hc, List.singleton_append, splitSign, splitSign,
        isSign_flatMap hw]
      cases isSign before c with
      | true => simp [hw.narrow c hc]
      | false => simp [hw.narrow c hc]

end Searches

/-! ### Sites -/

/-- A site in a text that is widened. -/
def Site.widen (w : Char → List Char) (s : Site) : Site :=
  -- the text before it stands in reverse, and so does what each of its characters is spread over
  ⟨s.before.flatMap fun c => (w c).reverse, s.symbol, s.after.flatMap w⟩

/-- A cursor in a text that is widened. -/
def Cursor.widen (w : Char → List Char) (c : Cursor) : Cursor :=
  ⟨c.before.flatMap fun d => (w d).reverse, c.after.flatMap w⟩

section Sites

variable {w : Char → List Char}

theorem reverse_flatMap_reverse (w : Char → List Char) (text : List Char) :
    (text.flatMap fun c => (w c).reverse).reverse = text.reverse.flatMap w := by
  rw [List.reverse_flatMap]
  simp [Function.comp_def]

theorem Cursor.text_widen (w : Char → List Char) (c : Cursor) :
    (c.widen w).text = c.text.flatMap w := by
  rw [text, widen, reverse_flatMap_reverse, text, List.flatMap_append]

variable (hw : IsWidening w)
include hw

namespace Site

variable (s : Site)

theorem text_widen (h : ¬IsWide s.symbol) : (s.widen w).text = s.text.flatMap w := by
  rw [text, widen, reverse_flatMap_reverse, text, List.flatMap_append, List.flatMap_cons,
    hw.narrow _ h, List.singleton_append]

theorem left_widen :
    (s.widen w).left = Prod.map (List.flatMap fun c => (w c).reverse)
      (List.flatMap fun c => (w c).reverse) s.left := by
  have hsplit : splitOperand ')' '(' (s.before.flatMap fun c => (w c).reverse) = _ :=
    splitOperand_flatMap hw.reverse (by decide) (by decide) (by decide) s.before
  simp only [left, widen, hsplit, Prod.map_fst, Prod.map_snd, splitSign_flatMap hw.reverse]
  simp

theorem right_widen : (s.widen w).right = Prod.map (List.flatMap w) (List.flatMap w) s.right :=
  splitOperand_flatMap hw (by decide) (by decide) (by decide) s.after

theorem isGrouped_widen : (s.widen w).isGrouped = s.isGrouped := by
  have hopen : ¬IsWide '(' := by decide
  have hclose : ¬IsWide ')' := by decide
  rw [Bool.eq_iff_iff]
  simp only [isGrouped, left_widen hw, right_widen hw, Prod.map_snd, Bool.and_eq_true, beq_iff_eq,
    head?_flatMap_eq_iff hw.reverse hopen, head?_flatMap_eq_iff hw hclose]

end Site

namespace Cursor

variable {tier : Tier}

omit hw in
/-- No operator is among characters that are none. -/
theorem site?_append {u : List Char} (h : ∀ c ∈ u, tier.holds c = false)
    (before rest : List Char) :
    site? tier before (u ++ rest) = site? tier (u.reverse ++ before) rest := by
  induction u generalizing before with
  | nil => rfl
  | cons c u ih =>
    have hc := h c List.mem_cons_self
    rw [List.cons_append, site?, hc, ih fun d hd => h d (List.mem_cons_of_mem c hd)]
    simp

/-- **The same operator comes next.** -/
theorem site?_widen (before after : List Char) :
    site? tier (before.flatMap fun c => (w c).reverse) (after.flatMap w) =
      (site? tier before after).map (Site.widen w) := by
  induction after generalizing before with
  | nil => rfl
  | cons c after ih =>
    have ih := ih (c :: before)
    rw [List.flatMap_cons] at ih
    rw [List.flatMap_cons, site?]
    by_cases hc : IsWide c
    · rw [site?_append fun d hd => (hw.wide c hc d hd).holds tier, ih, hc.holds tier]
      rfl
    · rw [hw.narrow c hc] at ih ⊢
      rw [List.singleton_append, site?, isSign_flatMap hw.reverse]
      split
      · rfl
      · exact ih

end Cursor

end Sites

/-! ### Shapes -/

/-- What is found in a text that is widened. -/
def Split.widen (w : Char → List Char) : Split → Split
  | whole => whole
  | parts left op right => parts (left.flatMap w) op (right.flatMap w)
  | unbalanced => unbalanced

theorem Split.widen_cons (w : Char → List Char) (c : Char) (s : Split) :
    (s.cons c).widen w = (s.widen w).prepend (w c) := by
  cases s with
  | whole => simp [cons, widen]
  | parts left op right => simp [cons, widen]
  | unbalanced => simp [cons, widen, prepend_unbalanced]

theorem enclosed?_of_head? {text : List Char} (h : text.head? ≠ some '(') :
    enclosed? text = none := by
  cases text with
  | nil => rfl
  | cons c text => exact enclosed?_of_ne fun hc => h (congrArg some hc)

/-- A wide character is passed over in a search for an operator. -/
theorem splitFrom_append {u : List Char} (h : ∀ c ∈ u, IsWide c) (depth : Nat)
    (rest : List Char) : splitFrom depth (u ++ rest) = (splitFrom depth rest).prepend u := by
  induction u with
  | nil => rfl
  | cons c u ih =>
    have hc := h c List.mem_cons_self
    have hopen : c ≠ '(' := hc.ne (by decide)
    have hclose : c ≠ ')' := hc.ne (by decide)
    have ih := ih fun d hd => h d (List.mem_cons_of_mem c hd)
    simp [splitFrom, depthAfter, hopen, hclose, hc.ofChar?, ih]

/-- A numeral has no wide characters. -/
theorem toInt?_of_isWide {text : List Char} {c : Char} (hmem : c ∈ text) (hc : IsWide c) :
    Text.Numeral.toInt? text = none := by
  have hnat : ∀ digits : List Char, c ∈ digits → Text.Numeral.toNat? digits = none := by
    intro digits hd
    refine if_neg fun h => ?_
    have hdigit := List.all_eq_true.mp h.2 c hd
    rw [hc.isDigit] at hdigit
    cases hdigit
  cases text with
  | nil => cases hmem
  | cons b digits =>
    rw [Text.Numeral.toInt?]
    split
    · next hb =>
      have hne : c ≠ b := by
        rw [hb]
        exact hc.ne (by decide)
      rw [hnat digits ((List.mem_cons.mp hmem).resolve_left hne)]
      rfl
    · rw [hnat (b :: digits) hmem]
      rfl

section Shapes

variable {w : Char → List Char} (hw : IsWidening w)
include hw

theorem flatMap_of_narrow {text : List Char} (h : ∀ c ∈ text, ¬IsWide c) :
    text.flatMap w = text := by
  induction text with
  | nil => rfl
  | cons c text ih =>
    rw [List.flatMap_cons, hw.narrow c (h c List.mem_cons_self),
      ih fun d hd => h d (List.mem_cons_of_mem c hd), List.singleton_append]

theorem isPrefix_flatMap_iff {u : List Char} (hu : ∀ c ∈ u, ¬IsWide c) (text : List Char) :
    u <+: text.flatMap w ↔ u <+: text := by
  induction u generalizing text with
  | nil => simp
  | cons b u ih =>
    have ih := ih fun d hd => hu d (List.mem_cons_of_mem b hd)
    have hb := hu b List.mem_cons_self
    cases text with
    | nil => exact Iff.rfl
    | cons c text =>
      by_cases hc : IsWide c
      · obtain ⟨d, v, hdv, hd⟩ := hw.exists_cons hc
        simp [hdv, List.cons_prefix_cons, (hc.ne hb).symm, (hd.ne hb).symm]
      · rw [List.flatMap_cons, hw.narrow c hc, List.singleton_append, List.cons_prefix_cons,
          List.cons_prefix_cons, ih]

/-- **The same brackets enclose a widened text.** -/
theorem enclosed?_flatMap (text : List Char) :
    enclosed? (text.flatMap w) = (enclosed? text).map (List.flatMap w) := by
  have hopen : ¬IsWide '(' := by decide
  by_cases hhead : text.head? = some '('
  · obtain ⟨text, rfl⟩ : ∃ t, text = '(' :: t := by
      cases text with
      | nil => cases hhead
      | cons c text => exact ⟨text, by rw [Option.some.inj hhead]⟩
    rw [List.flatMap_cons, hw.narrow '(' hopen, List.singleton_append, enclosed?, enclosed?,
      splitAtPartner_flatMap hw hopen (by decide) (by decide)]
    rcases splitAtPartner '(' ')' 0 text with - | ⟨inner, - | ⟨c, rest⟩⟩
    · rfl
    · rfl
    · obtain ⟨d, u, hdu⟩ := List.exists_cons_of_ne_nil (hw.ne_nil c)
      simp [hdu]
  · have hhead' : (text.flatMap w).head? ≠ some '(' :=
      fun h => hhead ((head?_flatMap_eq_iff hw hopen text).mp h)
    rw [enclosed?_of_head? hhead, enclosed?_of_head? hhead']
    rfl

theorem splitFrom_flatMap (depth : Nat) (text : List Char) :
    splitFrom depth (text.flatMap w) = (splitFrom depth text).widen w := by
  induction text generalizing depth with
  | nil => rfl
  | cons c text ih =>
    rw [List.flatMap_cons]
    by_cases hc : IsWide c
    · have hskip : splitFrom depth (c :: text) = (splitFrom depth text).cons c :=
        splitFrom_append (u := [c]) (by simpa using hc) depth text
      rw [splitFrom_append (hw.wide c hc), ih, hskip, Split.widen_cons]
    · rw [hw.narrow c hc, List.singleton_append, splitFrom, splitFrom]
      split
      · rfl
      · split
        · rfl
        · rw [ih, Split.widen_cons, hw.narrow c hc]
          rfl

/-- **A widened text is cut at the same operator.** -/
theorem splitAtOperator_flatMap (text : List Char) :
    splitAtOperator (text.flatMap w) = (splitAtOperator text).widen w := by
  cases text with
  | nil => rfl
  | cons c text =>
    by_cases hc : IsWide c
    · obtain ⟨d, u, hdu, hd⟩ := hw.exists_cons hc
      rw [splitAtOperator_eq_splitFrom hc.ofChar?, ← splitFrom_flatMap hw, List.flatMap_cons, hdu,
        List.cons_append, splitAtOperator_eq_splitFrom hd.ofChar?]
    · rw [List.flatMap_cons, hw.narrow c hc, List.singleton_append, splitAtOperator,
        splitAtOperator]
      split
      · rfl
      · rw [splitFrom_flatMap hw, Split.widen_cons, hw.narrow c hc]
        rfl

/-- A numeral is left as it is, and nothing else becomes one. -/
theorem toInt?_flatMap (text : List Char) :
    Text.Numeral.toInt? (text.flatMap w) = Text.Numeral.toInt? text := by
  by_cases h : ∀ c ∈ text, ¬IsWide c
  · rw [flatMap_of_narrow hw h]
  · obtain ⟨c, hmem, hc⟩ : ∃ c ∈ text, IsWide c := by simpa using h
    obtain ⟨d, u, hdu, hd⟩ := hw.exists_cons hc
    have hmem' : d ∈ text.flatMap w := List.mem_flatMap.mpr ⟨c, hmem, by simp [hdu]⟩
    rw [toInt?_of_isWide hmem hc, toInt?_of_isWide hmem' hd]

end Shapes

end ExactCalc.Formula
