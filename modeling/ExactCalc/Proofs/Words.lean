/-
Replacing a word.

* `IsWholeWord`, `Occurs` — a word of word characters, and the places where it is part of no longer
  word;
* `chunks_eq_append` — what is true of two parts of a text between which the text is cut;
* `chunks_of_occurs`, `occurs_of_chunks` — the places are the chunks of a text that are the word;
* `gaps`, `occurs_iff_gaps` — what stands between the places, and that none is left out;
* `chunks_replaceWord` — a replacement joins nothing to what stands beside it;
* `substitute_replaces_words` — what the last result is put in for, and that once is enough.
-/
import ExactCalc.Proofs.Recall

namespace ExactCalc.Text

variable {word replacement text before after : List Char} {pieces l r : List (List Char)}

/-! ### Cuts -/

theorem flatten_chunks (text : List Char) : (chunks text).flatten = text :=
  List.flatten_splitBy _ text

/-- A text is cut between two parts: not both characters there are word characters. -/
def Apart (s t : List Char) : Prop :=
  ∀ c ∈ s.getLast?, ∀ d ∈ t.head?, (isWord c && isWord d) = false

theorem chunks_append {s t : List Char} (h : Apart s t) : chunks (s ++ t) = chunks s ++ chunks t :=
  List.splitBy_append h

/-- **Both parts at a cut have their own chunks.** -/
theorem chunks_eq_append (h : chunks text = l ++ r) :
    chunks l.flatten = l ∧ chunks r.flatten = r ∧ Apart l.flatten r.flatten := by
  obtain ⟨-, hne, hinner, hchain⟩ := List.splitBy_eq_iff.mp h
  rw [List.mem_append, not_or] at hne
  obtain ⟨hl, hr, hbetween⟩ := List.isChain_append.mp hchain
  refine ⟨?_, ?_, ?_⟩
  · exact List.splitBy_flatten hne.1 (fun m hm => hinner m (List.mem_append_left r hm)) hl
  · exact List.splitBy_flatten hne.2 (fun m hm => hinner m (List.mem_append_right l hm)) hr
  · intro c hc d hd
    rcases List.eq_nil_or_concat l with rfl | ⟨l, x, rfl⟩
    · cases hc
    rcases r with _ | ⟨y, r⟩
    · cases hd
    obtain ⟨hx, hy, hcut⟩ := hbetween x (by simp) y (by simp)
    have hlast : c = x.getLast hx := by
      rw [List.concat_eq_append, List.flatten_append, List.flatten_singleton,
        List.getLast?_append_of_ne_nil _ hx, List.getLast?_eq_some_getLast hx] at hc
      exact (Option.some.inj hc).symm
    have hhead : d = y.head hy := by
      rw [List.flatten_cons, List.head?_append_of_ne_nil _ hy, List.head?_eq_some_head hy] at hd
      exact (Option.some.inj hd).symm
    rw [hlast, hhead]
    exact hcut

/-! ### Occurrences -/

/-- A word is not empty and has word characters only. -/
structure IsWholeWord (word : List Char) : Prop where
  ne_nil : word ≠ []
  isWord : ∀ c ∈ word, isWord c = true

/-- The word stands in a text between `before` and `after`, and no word character is beside it. -/
structure Occurs (word text before after : List Char) : Prop where
  text_eq : text = before ++ (word ++ after)
  before : ∀ c ∈ before.getLast?, isWord c = false
  after : ∀ c ∈ after.head?, isWord c = false

namespace IsWholeWord

variable (hw : IsWholeWord word)
include hw

theorem exists_head : ∃ c, word.head? = some c ∧ Text.isWord c = true :=
  ⟨word.head hw.ne_nil, List.head?_eq_some_head hw.ne_nil,
    hw.isWord _ (List.head_mem hw.ne_nil)⟩

theorem exists_last : ∃ c, word.getLast? = some c ∧ Text.isWord c = true :=
  ⟨word.getLast hw.ne_nil, List.getLast?_eq_some_getLast hw.ne_nil,
    hw.isWord _ (List.getLast_mem hw.ne_nil)⟩

theorem chunks_eq : chunks word = [word] := by
  refine List.splitBy_of_isChain hw.ne_nil (List.Pairwise.isChain ?_)
  refine List.pairwise_of_forall_mem_list fun c hc d hd => ?_
  rw [hw.isWord c hc, hw.isWord d hd]
  rfl

/-- What is apart from the word in front of it begins with no word character. -/
theorem head_of_apart {s t : List Char} (h : Apart (s ++ word) t) :
    ∀ d ∈ t.head?, Text.isWord d = false := by
  intro d hd
  obtain ⟨c, hc, hword⟩ := hw.exists_last
  have hcut := h c (by rw [List.getLast?_append_of_ne_nil _ hw.ne_nil, hc]; rfl) d hd
  rwa [hword, Bool.true_and] at hcut

theorem last_of_apart {s t : List Char} (h : Apart s (word ++ t)) :
    ∀ c ∈ s.getLast?, Text.isWord c = false := by
  intro c hc
  obtain ⟨d, hd, hword⟩ := hw.exists_head
  have hcut := h c hc d (by rw [List.head?_append_of_ne_nil _ hw.ne_nil, hd]; rfl)
  rwa [hword, Bool.and_true] at hcut

end IsWholeWord

theorem chunks_of_occurs (hw : IsWholeWord word) (h : Occurs word text before after) :
    chunks text = chunks before ++ word :: chunks after := by
  have hbefore : Apart before (word ++ after) := fun c hc d _ => by
    rw [h.before c hc, Bool.false_and]
  have hafter : Apart word after := fun c _ d hd => by
    rw [h.after d hd, Bool.and_false]
  rw [h.text_eq, chunks_append hbefore, chunks_append hafter, hw.chunks_eq, List.singleton_append]

theorem occurs_of_chunks (hw : IsWholeWord word) (h : chunks text = l ++ word :: r) :
    Occurs word text l.flatten r.flatten where
  text_eq := by
    rw [← flatten_chunks text, h, List.flatten_append, List.flatten_cons]
  before := hw.last_of_apart (chunks_eq_append h).2.2
  after := by
    have hsplit : chunks text = (l ++ [word]) ++ r := by simp [h]
    have hcut := (chunks_eq_append hsplit).2.2
    rw [List.flatten_append, List.flatten_singleton] at hcut
    exact hw.head_of_apart hcut

/-! ### Gaps -/

/-- What stands between the places of a word, among the pieces of a text. -/
def gaps (word : List Char) : List (List Char) → List (List Char)
  | [] => [[]]
  | piece :: pieces =>
    if piece = word then [] :: gaps word pieces else (gaps word pieces).modifyHead (piece ++ ·)

theorem gaps_ne_nil (word : List Char) (pieces : List (List Char)) : gaps word pieces ≠ [] := by
  induction pieces with
  | nil => exact List.cons_ne_nil _ _
  | cons piece pieces ih =>
    rw [gaps]
    split
    · exact List.cons_ne_nil _ _
    · simpa using ih

theorem intercalate_modifyHead (s : List Char) {gs : List (List Char)} (h : gs ≠ []) :
    word.intercalate (gs.modifyHead (s ++ ·)) = s ++ word.intercalate gs := by
  cases gs with
  | nil => exact absurd rfl h
  | cons g gs =>
    cases gs with
    | nil => simp
    | cons g' gs => simp [List.intercalate_cons_cons]

/-- **With something else in the place of the word, the gaps stay.** -/
theorem flatMap_eq_intercalate (word replacement : List Char) (pieces : List (List Char)) :
    (pieces.flatMap fun piece => if piece = word then replacement else piece) =
      replacement.intercalate (gaps word pieces) := by
  induction pieces with
  | nil => simp [gaps]
  | cons piece pieces ih =>
    rw [List.flatMap_cons, ih, gaps]
    split
    · rw [List.intercalate_cons_of_ne_nil (gaps_ne_nil word pieces), List.nil_append]
    · rw [intercalate_modifyHead piece (gaps_ne_nil word pieces)]

theorem flatten_eq_intercalate (word : List Char) (pieces : List (List Char)) :
    pieces.flatten = word.intercalate (gaps word pieces) := by
  have hkeep : (pieces.map fun piece => if piece = word then word else piece) = pieces := by
    refine (List.map_congr_left fun piece _ => ?_).trans (List.map_id pieces)
    split
    · next hpiece => rw [hpiece]; rfl
    · rfl
  rw [← flatMap_eq_intercalate word word pieces, List.flatMap_def, hkeep]

theorem gaps_append (word : List Char) (l r : List (List Char)) :
    gaps word (l ++ word :: r) = gaps word l ++ gaps word r := by
  induction l with
  | nil => simp [gaps]
  | cons piece l ih =>
    rw [List.cons_append, gaps, gaps, ih]
    split
    · rfl
    · cases hgaps : gaps word l with
      | nil => exact absurd hgaps (gaps_ne_nil word l)
      | cons g gs => rfl

/-- The gaps are parted nowhere but at the places of the word. -/
theorem exists_of_gaps_eq_append {left right : List (List Char)}
    (h : gaps word pieces = left ++ right) (hl : left ≠ []) (hr : right ≠ []) :
    ∃ l r, pieces = l ++ word :: r ∧ gaps word l = left ∧ gaps word r = right := by
  induction pieces generalizing left with
  | nil =>
    obtain ⟨g, left, rfl⟩ := List.exists_cons_of_ne_nil hl
    have htail := (List.cons.inj h).2
    exact absurd (List.append_eq_nil_iff.mp htail.symm).2 hr
  | cons piece pieces ih =>
    obtain ⟨g, left, rfl⟩ := List.exists_cons_of_ne_nil hl
    rw [gaps] at h
    split at h
    · next hpiece =>
      obtain ⟨rfl, htail⟩ := List.cons.inj h
      by_cases hleft : left = []
      · exact ⟨[], pieces, by rw [hpiece]; rfl, by rw [hleft]; rfl, by rw [htail, hleft]; rfl⟩
      · obtain ⟨l, r, rfl, hgl, hgr⟩ := ih htail hleft
        exact ⟨piece :: l, r, rfl, by rw [gaps, if_pos hpiece, hgl], hgr⟩
    · next hpiece =>
      cases hgaps : gaps word pieces with
      | nil => exact absurd hgaps (gaps_ne_nil word pieces)
      | cons g' gs =>
        rw [hgaps] at h
        obtain ⟨rfl, htail⟩ := List.cons.inj h
        have hsplit : gaps word pieces = (g' :: left) ++ right := by rw [hgaps, htail]; rfl
        obtain ⟨l, r, rfl, hgl, hgr⟩ := ih hsplit (List.cons_ne_nil _ _)
        exact ⟨piece :: l, r, rfl, by rw [gaps, if_neg hpiece, hgl]; rfl, hgr⟩

/-- **The word occurs between two parts of a text exactly if the gaps are parted there.** -/
theorem occurs_iff_gaps (hw : IsWholeWord word) :
    Occurs word text before after ↔ ∃ left right, left ≠ [] ∧ right ≠ [] ∧
      gaps word (chunks text) = left ++ right ∧
      before = word.intercalate left ∧ after = word.intercalate right := by
  constructor
  · intro h
    refine ⟨gaps word (chunks before), gaps word (chunks after), gaps_ne_nil _ _, gaps_ne_nil _ _,
      ?_, ?_, ?_⟩
    · rw [chunks_of_occurs hw h, gaps_append]
    · rw [← flatten_eq_intercalate, flatten_chunks]
    · rw [← flatten_eq_intercalate, flatten_chunks]
  · rintro ⟨left, right, hl, hr, hgaps, rfl, rfl⟩
    obtain ⟨l, r, hchunks, rfl, rfl⟩ := exists_of_gaps_eq_append hgaps hl hr
    rw [← flatten_eq_intercalate, ← flatten_eq_intercalate]
    exact occurs_of_chunks hw hchunks

/-! ### Replacements -/

/-- The first piece of a text is a piece by itself, and the others are those of what is left. -/
theorem chunks_of_cons {piece : List Char}
    (h : chunks (piece :: pieces).flatten = piece :: pieces) :
    piece ≠ [] ∧ chunks piece = [piece] ∧ chunks pieces.flatten = pieces ∧
      Apart piece pieces.flatten := by
  obtain ⟨hpiece, hpieces, hcut⟩ := chunks_eq_append (l := [piece]) h
  rw [List.flatten_singleton] at hpiece hcut
  refine ⟨?_, hpiece, hpieces, hcut⟩
  rintro rfl
  cases hpiece

/-- What stands in the place of the word ends where the word ended, and begins where it began. -/
theorem apart_flatMap (hw : IsWholeWord word) {piece : List Char}
    (h : chunks (piece :: pieces).flatten = piece :: pieces) :
    Apart (if piece = word then replacement else piece)
      (pieces.flatMap fun piece => if piece = word then replacement else piece) := by
  obtain ⟨-, -, hpieces, hcut⟩ := chunks_of_cons h
  cases pieces with
  | nil =>
    rintro c - d ⟨⟩
  | cons next pieces =>
    obtain ⟨hnext, -⟩ := chunks_of_cons hpieces
    rw [List.flatten_cons] at hcut
    rw [List.flatMap_cons]
    by_cases hword : next = word
    · -- the piece in front of the word ends with no word character, so it is another one
      subst hword
      have hlast := hw.last_of_apart hcut
      have hpiece : piece ≠ next := by
        rintro rfl
        obtain ⟨c, hc, hisWord⟩ := hw.exists_last
        rw [hlast c hc] at hisWord
        cases hisWord
      rw [if_neg hpiece]
      intro c hc d _
      rw [hlast c hc, Bool.false_and]
    · rw [if_neg hword]
      intro c hc d hd
      rw [List.head?_append_of_ne_nil _ hnext] at hd
      by_cases hpiece : piece = word
      · subst hpiece
        have hhead := hw.head_of_apart (s := []) hcut d (by
          rw [List.head?_append_of_ne_nil _ hnext]
          exact hd)
        rw [hhead, Bool.and_false]
      · rw [if_neg hpiece] at hc
        exact hcut c hc d (by rw [List.head?_append_of_ne_nil _ hnext]; exact hd)

/-- **A replacement takes no cut away and makes none**, but within what is put in. -/
theorem chunks_replaceWord (hw : IsWholeWord word) (replacement text : List Char) :
    chunks (replaceWord word replacement text) =
      (chunks text).flatMap fun piece => if piece = word then chunks replacement else [piece] := by
  have hchunks : chunks (chunks text).flatten = chunks text := by rw [flatten_chunks]
  rw [replaceWord]
  generalize chunks text = pieces at hchunks ⊢
  induction pieces with
  | nil => rfl
  | cons piece pieces ih =>
    obtain ⟨-, hpiece, hpieces, -⟩ := chunks_of_cons hchunks
    rw [List.flatMap_cons, List.flatMap_cons, chunks_append (apart_flatMap hw hchunks), ih hpieces]
    split
    · rfl
    · rw [hpiece]

/-- Once all places of a word are taken, there is none left. -/
theorem not_mem_chunks_replaceWord (hw : IsWholeWord word) (h : word ∉ chunks replacement) :
    word ∉ chunks (replaceWord word replacement text) := by
  rw [chunks_replaceWord hw, List.mem_flatMap]
  rintro ⟨piece, -, hmem⟩
  split at hmem
  · exact h hmem
  · next hpiece => exact hpiece (List.mem_singleton.mp hmem).symm

/-- A text has a word among its chunks if it occurs somewhere. -/
theorem mem_chunks_of_occurs (hw : IsWholeWord word) (h : Occurs word text before after) :
    word ∈ chunks text := by
  rw [chunks_of_occurs hw h]
  exact List.mem_append_right _ List.mem_cons_self

/-- A chunk is a part of its text. -/
theorem mem_of_mem_chunks (h : word ∈ chunks text) {c : Char} (hc : c ∈ word) : c ∈ text := by
  rw [← flatten_chunks text]
  exact List.mem_flatten_of_mem h hc

end ExactCalc.Text

namespace ExactCalc.Session

open Text

theorem isWholeWord_ansWord : IsWholeWord ansWord where
  ne_nil := List.cons_ne_nil _ _
  isWord := List.all_eq_true.mp (by decide)

/-- The characters of a number are below the letters. -/
theorem lt_of_mem_ofInt {v : Int} {c : Char} (h : c ∈ Numeral.ofInt v) : c.toNat < 0x3a := by
  have hdigit : ∀ n, c ∈ Nat.toDigits 10 n → c.toNat < 0x3a := by
    intro n hc
    have hd := Nat.isDigit_of_mem_toDigits (by decide) (by decide) hc
    simp only [Char.isDigit, Bool.and_eq_true, decide_eq_true_eq] at hd
    exact Nat.lt_succ_of_le hd.2
  cases v with
  | ofNat n => exact hdigit n h
  | negSucc n =>
    rcases List.mem_cons.mp h with rfl | h
    · decide
    · exact hdigit (n + 1) h

theorem ansWord_not_mem_chunks_printOperand (v : Int) :
    ansWord ∉ chunks (Expr.literal v).printOperand := by
  intro hmem
  have ha : 'a' ∈ (Expr.literal v).printOperand := mem_of_mem_chunks hmem (by decide)
  have hnumeral : 'a' ∉ Numeral.ofInt v := fun h => absurd (lt_of_mem_ofInt h) (by decide)
  rw [Expr.printOperand_literal] at ha
  split at ha
  · rcases List.mem_cons.mp ha with h | h
    · exact absurd h (by decide)
    · rcases List.mem_append.mp h with h | h
      · exact hnumeral h
      · exact absurd h (by decide)
  · exact hnumeral ha

/-- **A result stands for each `ans` that is part of no longer word, and for nothing else.**  What
stands between these places is the same for all results, and behind a replacement there is no
`ans` left, so that a second one changes nothing. -/
theorem substitute_replaces_words (line : List Char) :
    (∃ parts : List (List Char), parts ≠ [] ∧ line = ansWord.intercalate parts ∧
      (∀ before after, Occurs ansWord line before after ↔
        ∃ left right, left ≠ [] ∧ right ≠ [] ∧ parts = left ++ right ∧
          before = ansWord.intercalate left ∧ after = ansWord.intercalate right) ∧
      ∀ v : Int, substitute v line =
        (if v < 0 then '(' :: (Numeral.ofInt v ++ [')']) else Numeral.ofInt v).intercalate
          parts) ∧
    ∀ v : Int, (∀ before after, ¬ Occurs ansWord (substitute v line) before after) ∧
      ∀ w, substitute w (substitute v line) = substitute v line := by
  constructor
  · refine ⟨gaps ansWord (chunks line), gaps_ne_nil _ _, ?_, fun before after => ?_, fun v => ?_⟩
    · rw [← flatten_eq_intercalate, flatten_chunks]
    · exact occurs_iff_gaps isWholeWord_ansWord
    · rw [← Expr.printOperand_literal, ← flatMap_eq_intercalate]
      rfl
  · intro v
    have hnone : ansWord ∉ chunks (substitute v line) :=
      not_mem_chunks_replaceWord isWholeWord_ansWord (ansWord_not_mem_chunks_printOperand v)
    refine ⟨fun before after h => ?_, fun w => ?_⟩
    · exact hnone (mem_chunks_of_occurs isWholeWord_ansWord h)
    · exact replaceWord_of_not_mem hnone _

end ExactCalc.Session
