/-
The last result beside a number.

* `SameOutcome` — two evaluations end alike, the texts in their failures left aside;
* `Touching`, `Touches` — in a line, `ans` stands next to a digit or to another `ans`, with blanks
  between or nothing;
* `Scan.accepts_enclose_digits` — a whole run of digits may be put between brackets;
* `accepts_fill_group` — where no `ans` touches anything, digits in its place may get brackets;
* `not_accepts_fill_group` — where one does, nothing is accepted with the brackets;
* `sameOutcome_substitute_iff` — when a line means the same with the last result as it is put in and
  with the last result between brackets.
-/
import ExactCalc.Proofs.Recall

namespace ExactCalc

open Formula

/-! ### Outcomes -/

/-- Two evaluations have the same value, or fail for the same cause. -/
inductive SameOutcome : Except Failure Int → Except Failure Int → Prop where
  | value (v : Int) : SameOutcome (.ok v) (.ok v)
  | divisionByZero : SameOutcome (.error .divisionByZero) (.error .divisionByZero)
  | invalid (s t : List Char) : SameOutcome (.error (.invalid s)) (.error (.invalid t))

theorem evaluate_of_not_isValid {text : List Char} (h : isValid text = false) :
    evaluate text = .error (.invalid text) := by
  rw [evaluate, Expr.parse, h]
  rfl

/-- A formula has a value or divides by zero. -/
theorem evaluate_of_isValid {text : List Char} (h : isValid text = true) :
    (∃ v, evaluate text = .ok v) ∨ evaluate text = .error .divisionByZero := by
  obtain ⟨d, hd⟩ := isValid_iff_exists_derivation.mp h
  rw [evaluate_of_derivation d hd]
  cases hvalue : d.tree.eval with
  | ok v => exact .inl ⟨v, rfl⟩
  | error f =>
    rw [Expr.eq_divisionByZero_of_eval hvalue]
    exact .inr rfl

namespace SameOutcome

/-- Formulas with the same value have the same outcome. -/
theorem of_eq {s t : List Char} (hs : isValid s = true) (h : evaluate s = evaluate t) :
    SameOutcome (evaluate s) (evaluate t) := by
  rw [← h]
  rcases evaluate_of_isValid hs with ⟨v, hv⟩ | hzero
  · rw [hv]
    exact .value v
  · rw [hzero]
    exact .divisionByZero

theorem of_not_isValid {s t : List Char} (hs : isValid s = false) (ht : isValid t = false) :
    SameOutcome (evaluate s) (evaluate t) := by
  rw [evaluate_of_not_isValid hs, evaluate_of_not_isValid ht]
  exact .invalid s t

/-- A formula ends in another way than a text that is none. -/
theorem isValid_right {s t : List Char} (h : SameOutcome (evaluate s) (evaluate t))
    (hs : isValid s = true) : isValid t = true := by
  cases ht : isValid t with
  | true => rfl
  | false =>
    rw [evaluate_of_not_isValid ht] at h
    rcases evaluate_of_isValid hs with ⟨v, hv⟩ | hzero
    · rw [hv] at h
      cases h
    · rw [hzero] at h
      cases h

end SameOutcome

/-! ### Brackets round digits -/

namespace Formula.Scan

/-- Where a number is being read, the text ends with a digit. -/
theorem isDigit_last {text : List Char} {depth : Nat}
    (h : initial.run text = some ⟨.digit, depth⟩) :
    ∃ c, text.getLast? = some c ∧ c.isDigit = true := by
  rcases List.eq_nil_or_concat text with hnil | ⟨before, c, hconcat⟩
  · rw [hnil] at h
    cases h
  · rw [List.concat_eq_append] at hconcat
    subst hconcat
    obtain ⟨s, hr⟩ := exists_reads_last h
    refine ⟨c, by simp, ?_⟩
    cases hr with
    | digit hc hp => exact hc

/-- Behind an operand that is a group instead, the scan goes on alike, unless digits go on. -/
theorem run_close_of_run {place : Place} {depth : Nat} {text : List Char} {s : Scan}
    (hp : place.awaitsOperand = false) (hd : ∀ c ∈ text.head?, c.isDigit = false)
    (hs : s.isComplete = true) (hrun : Scan.run ⟨place, depth⟩ text = some s) :
    ∃ s', Scan.run ⟨.close, depth⟩ text = some s' ∧ s'.isComplete = true := by
  cases text with
  | nil =>
    cases hrun
    have hdepth : depth = 0 := (isComplete_iff.mp hs).1
    exact ⟨⟨.close, depth⟩, rfl, isComplete_iff.mpr ⟨hdepth, rfl⟩⟩
  | cons c text =>
    obtain ⟨s₁, hr, hrun⟩ := exists_reads_of_run_cons hrun
    refine ⟨s, ?_, hs⟩
    cases hr with
    | digit hc hclose =>
      rw [hd c rfl] at hc
      cases hc
    | opening hp' =>
      rw [hp] at hp'
      cases hp'
    | closing _ => rw [run_cons_of_reads (.closing rfl), hrun]
    | sign => cases hp
    | operator op _ => rw [run_cons_of_reads (.operator op rfl), hrun]

/-- **A whole run of digits may be put between brackets.** -/
theorem accepts_enclose_digits {before after : List Char} (run : DigitRun)
    (hb : ∀ c ∈ before.getLast?, c.isDigit = false) (ha : ∀ c ∈ after.head?, c.isDigit = false)
    (h : Accepts (before ++ (run.val ++ after))) :
    Accepts (before ++ ('(' :: (run.val ++ [')']) ++ after)) := by
  obtain ⟨s, hrun, hs⟩ := h
  obtain ⟨⟨place, depth⟩, hbefore, hrun⟩ := exists_run_of_run_append hrun
  obtain ⟨s₁, hdigits, hafter⟩ := exists_run_of_run_append hrun
  have hp : place.awaitsOperand = true := by
    cases place with
    | start | operator => rfl
    | digit =>
      -- the run would have begun before
      obtain ⟨c, hlast, hc⟩ := isDigit_last hbefore
      rw [hb c hlast] at hc
      cases hc
    | close =>
      obtain ⟨c, digits, hval, hc⟩ := run.exists_cons
      have hhead := head?_of_run_close hdigits c (by simp [hval])
      rw [hhead.1] at hc
      cases hc
  rw [run_digitRun hp] at hdigits
  cases hdigits
  obtain ⟨s', hrest, hs'⟩ := run_close_of_run rfl ha hs hafter
  refine ⟨s', ?_, hs'⟩
  have hgroup : Scan.run ⟨place, depth⟩ ('(' :: (run.val ++ [')'])) = some ⟨.close, depth⟩ :=
    run_group hp rfl (run_digitRun rfl run)
  rw [run_append, hbefore, Option.bind_some, run_append, hgroup, Option.bind_some, hrest]

/-- Behind a closing bracket, neither a digit nor an opening bracket is accepted. -/
theorem not_accepts_behind_closing {u v : List Char} {c : Char}
    (hc : c.isDigit = true ∨ c = '(') : ¬Accepts (u ++ ')' :: c :: v) := by
  rintro ⟨s, hrun, -⟩
  obtain ⟨s₀, -, hrun⟩ := exists_run_of_run_append hrun
  obtain ⟨⟨place, depth⟩, hclose, hrun⟩ := exists_reads_of_run_cons hrun
  obtain ⟨-, -, hplace⟩ := reads_closing hclose
  have hplace : place = .close := hplace
  subst hplace
  obtain ⟨hdigit, hopening⟩ := head?_of_run_close hrun c rfl
  rcases hc with hc | hc
  · rw [hdigit] at hc
    cases hc
  · exact hopening hc

/-- Behind a digit, no opening bracket is accepted. -/
theorem not_accepts_opening {u v : List Char} {c : Char} (hc : c.isDigit = true) :
    ¬Accepts (u ++ c :: '(' :: v) := by
  rintro ⟨s, hrun, -⟩
  obtain ⟨s₀, -, hrun⟩ := exists_run_of_run_append hrun
  obtain ⟨s₁, hdigit, hrun⟩ := exists_reads_of_run_cons hrun
  obtain ⟨s₂, hopen, -⟩ := exists_reads_of_run_cons hrun
  have hp : s₁.place.awaitsOperand = true := (reads_opening hopen).1
  cases hdigit with
  | digit hd hp' => cases hp
  | opening hp' => cases hc
  | closing hp' => cases hc
  | sign => cases hc
  | operator op hp' =>
    rw [op.isDigit_symbol] at hc
    cases hc

end Formula.Scan

namespace Session

/-! ### Pieces of a line -/

/-- The pieces of a line without blanks, with a text in the place of each `ans`. -/
def fill (text : List Char) (pieces : List (List Char)) : List Char :=
  pieces.flatMap fun piece => if piece = ansWord then text else Text.dropBlanks piece

/-- Among the pieces of a line, `ans` stands next to a digit or to another `ans`, blanks left
out. -/
inductive Touching (pieces : List (List Char)) : Prop where
  | token {before between after : List (List Char)}
      (h : pieces = before ++ ansWord :: (between ++ ansWord :: after))
      (hb : Text.dropBlanks between.flatten = [])
  -- blanks are left out only after `ans` is replaced, so digits grow together across them
  | digitBehind {before after : List (List Char)} {c : Char}
      (h : pieces = before ++ ansWord :: after)
      (hc : (Text.dropBlanks after.flatten).head? = some c) (hd : c.isDigit = true)
  | digitBefore {before after : List (List Char)} {c : Char}
      (h : pieces = before ++ ansWord :: after)
      (hc : (Text.dropBlanks before.flatten).getLast? = some c) (hd : c.isDigit = true)

/-- In a line, the word `ans` stands next to a digit or to another `ans`, blanks left out. -/
def Touches (line : List Char) : Prop :=
  Touching (Text.chunks line)

section Fill

variable {text : List Char} {piece : List Char} {pieces : List (List Char)} {c : Char}

theorem fill_append (text : List Char) (u v : List (List Char)) :
    fill text (u ++ v) = fill text u ++ fill text v :=
  List.flatMap_append

theorem fill_token (text : List Char) (pieces : List (List Char)) :
    fill text (ansWord :: pieces) = text ++ fill text pieces := by
  rw [fill, List.flatMap_cons, if_pos rfl]
  rfl

theorem fill_plain (h : piece ≠ ansWord) :
    fill text (piece :: pieces) = Text.dropBlanks piece ++ fill text pieces := by
  rw [fill, List.flatMap_cons, if_neg h]
  rfl

theorem fill_token_singleton (text : List Char) : fill text [ansWord] = text := by
  rw [fill_token]
  exact List.append_nil text

theorem fill_plain_singleton (h : piece ≠ ansWord) : fill text [piece] = Text.dropBlanks piece := by
  rw [fill_plain h]
  exact List.append_nil _

theorem dropBlanks_flatten_cons (piece : List Char) (pieces : List (List Char)) :
    Text.dropBlanks (piece :: pieces).flatten =
      Text.dropBlanks piece ++ Text.dropBlanks pieces.flatten := by
  rw [List.flatten_cons, Text.dropBlanks_append]

theorem dropBlanks_flatten_append (u v : List (List Char)) :
    Text.dropBlanks (u ++ v).flatten =
      Text.dropBlanks u.flatten ++ Text.dropBlanks v.flatten := by
  rw [List.flatten_append, Text.dropBlanks_append]

theorem dropBlanks_ansWord : Text.dropBlanks ansWord = ['a', 'n', 's'] := rfl

/-- Blanks leave nothing behind. -/
theorem fill_of_blank (h : Text.dropBlanks pieces.flatten = []) : fill text pieces = [] := by
  induction pieces with
  | nil => rfl
  | cons piece pieces ih =>
    rw [dropBlanks_flatten_cons, List.append_eq_nil_iff] at h
    have hne : piece ≠ ansWord := by
      intro heq
      rw [heq, dropBlanks_ansWord] at h
      cases h.1
    rw [fill_plain hne, h.1, ih h.2]
    rfl

/-- A digit at the front of the line is at the front of the filled line. -/
theorem head_fill_of_digit (text : List Char)
    (h : (Text.dropBlanks pieces.flatten).head? = some c) (hc : c.isDigit = true) :
    ∃ rest, fill text pieces = c :: rest := by
  induction pieces with
  | nil => cases h
  | cons piece pieces ih =>
    rw [dropBlanks_flatten_cons] at h
    by_cases hpiece : piece = ansWord
    · rw [hpiece, dropBlanks_ansWord] at h
      cases h
      cases hc
    · rw [fill_plain hpiece]
      cases hdrop : Text.dropBlanks piece with
      | nil =>
        rw [hdrop] at h
        exact ih h
      | cons d rest =>
        rw [hdrop] at h
        cases h
        exact ⟨rest ++ fill text pieces, rfl⟩

/-- A digit at the end of the line is at the end of the filled line. -/
theorem last_fill_of_digit (text : List Char)
    (h : (Text.dropBlanks pieces.flatten).getLast? = some c) (hc : c.isDigit = true) :
    ∃ rest, fill text pieces = rest ++ [c] := by
  induction pieces using List.reverseRecOn with
  | nil => cases h
  | append_singleton pieces piece ih =>
    rw [dropBlanks_flatten_append, List.flatten_singleton] at h
    by_cases hpiece : piece = ansWord
    · rw [hpiece, dropBlanks_ansWord, List.getLast?_append] at h
      cases h
      cases hc
    · rw [fill_append, fill_plain_singleton hpiece]
      rcases List.eq_nil_or_concat (Text.dropBlanks piece) with hdrop | ⟨rest, d, hdrop⟩
      · rw [hdrop, List.append_nil] at h ⊢
        exact ih h
      · rw [hdrop, List.concat_eq_append] at h ⊢
        have hd : d = c := by simpa using h
        exact ⟨fill text pieces ++ rest, by rw [hd, List.append_assoc]⟩

end Fill

/-! ### Brackets in the place of `ans` -/

section Brackets

variable {inner : List Char} {pieces : List (List Char)} {run : DigitRun} {c : Char}

/-- The text between brackets that stands for `ans`. -/
def bracketed (inner : List Char) : List Char :=
  '(' :: (inner ++ [')'])

/-- **Where an `ans` touches something, nothing is accepted with the brackets.** -/
theorem not_accepts_fill_group (h : Touching pieces) :
    ¬Scan.Accepts (fill (bracketed inner) pieces) := by
  cases h with
  | @token before between after hpieces hb =>
    have heq : fill (bracketed inner) pieces =
        (fill (bracketed inner) before ++ '(' :: inner) ++
          ')' :: '(' :: (inner ++ ')' :: fill (bracketed inner) after) := by
      rw [hpieces, fill_append, fill_token, fill_append, fill_of_blank hb, fill_token]
      simp [bracketed]
    rw [heq]
    exact Scan.not_accepts_behind_closing (.inr rfl)
  | @digitBehind before after c hpieces hc hd =>
    obtain ⟨rest, hrest⟩ := head_fill_of_digit (bracketed inner) hc hd
    have heq : fill (bracketed inner) pieces =
        (fill (bracketed inner) before ++ '(' :: inner) ++ ')' :: c :: rest := by
      rw [hpieces, fill_append, fill_token, hrest]
      simp [bracketed]
    rw [heq]
    exact Scan.not_accepts_behind_closing (.inl hd)
  | @digitBefore before after c hpieces hc hd =>
    obtain ⟨rest, hrest⟩ := last_fill_of_digit (bracketed inner) hc hd
    have heq : fill (bracketed inner) pieces =
        rest ++ c :: '(' :: (inner ++ ')' :: fill (bracketed inner) after) := by
      rw [hpieces, fill_append, fill_token, hrest]
      simp [bracketed]
    rw [heq]
    exact Scan.not_accepts_opening hd

/-- A filled line begins as the line does, or the line begins with `ans`. -/
theorem head_or_token_of_head (h : (fill run.val pieces).head? = some c) :
    (Text.dropBlanks pieces.flatten).head? = some c ∨
      ∃ between after, pieces = between ++ ansWord :: after ∧
        Text.dropBlanks between.flatten = [] := by
  induction pieces with
  | nil => cases h
  | cons piece pieces ih =>
    by_cases hpiece : piece = ansWord
    · exact .inr ⟨[], pieces, by rw [hpiece]; rfl, rfl⟩
    rw [fill_plain hpiece] at h
    rw [dropBlanks_flatten_cons]
    cases hdrop : Text.dropBlanks piece with
    | nil =>
      rw [hdrop] at h
      rcases ih h with hhead | ⟨between, after, hpieces, hblank⟩
      · exact .inl hhead
      · refine .inr ⟨piece :: between, after, by rw [hpieces]; rfl, ?_⟩
        rw [dropBlanks_flatten_cons, hdrop, hblank]
        rfl
    | cons d rest =>
      rw [hdrop] at h
      exact .inl h

/-- A line that ends with a digit when it is filled with brackets ends with that digit. -/
theorem digit_of_last (h : (fill (bracketed inner) pieces).getLast? = some c)
    (hc : c.isDigit = true) : (Text.dropBlanks pieces.flatten).getLast? = some c := by
  induction pieces using List.reverseRecOn with
  | nil => cases h
  | append_singleton pieces piece ih =>
    rw [fill_append] at h
    by_cases hpiece : piece = ansWord
    · -- the bracket is no digit
      exfalso
      have hsplit : bracketed inner = ('(' :: inner) ++ [')'] := rfl
      rw [hpiece, fill_token_singleton, hsplit, ← List.append_assoc, List.getLast?_concat] at h
      cases h
      cases hc
    · rw [fill_plain_singleton hpiece] at h
      rw [dropBlanks_flatten_append, List.flatten_singleton]
      rcases List.eq_nil_or_concat (Text.dropBlanks piece) with hdrop | ⟨rest, d, hdrop⟩
      · rw [hdrop, List.append_nil] at h ⊢
        exact ih h
      · rw [hdrop, List.concat_eq_append] at h ⊢
        simpa using h

/-- **Where no `ans` touches anything, digits in its place may get brackets.** -/
theorem accepts_fill_group (done todo : List (List Char)) (hno : ¬Touching (done ++ todo))
    (h : Scan.Accepts (fill (bracketed run.val) done ++ fill run.val todo)) :
    Scan.Accepts (fill (bracketed run.val) (done ++ todo)) := by
  -- the brackets are put in place by place, and in `done` they are there already
  induction todo generalizing done with
  | nil => simpa [fill] using h
  | cons piece todo ih =>
    have hshift : (done ++ [piece]) ++ todo = done ++ piece :: todo := by simp
    have hnext := ih (done ++ [piece]) (by rwa [hshift])
    rw [hshift] at hnext
    refine hnext ?_
    rw [fill_append, List.append_assoc]
    by_cases hpiece : piece = ansWord
    · subst hpiece
      rw [fill_token] at h
      rw [fill_token_singleton]
      refine Scan.accepts_enclose_digits run ?_ ?_ h
      · intro c hlast
        by_contra hc
        have hd : c.isDigit = true := by simpa using hc
        exact hno (.digitBefore rfl (digit_of_last hlast hd) hd)
      · intro c hhead
        by_contra hc
        have hd : c.isDigit = true := by simpa using hc
        rcases head_or_token_of_head hhead with hdigit | ⟨between, after, htodo, hblank⟩
        · exact hno (.digitBehind rfl hdigit hd)
        · exact hno (.token (by rw [htodo]) hblank)
    · rw [fill_plain hpiece] at h
      rwa [fill_plain_singleton hpiece]

end Brackets

/-! ### Lines -/

theorem dropBlanks_replaceWord_ansWord (text line : List Char) :
    Text.dropBlanks (Text.replaceWord ansWord text line) =
      fill (Text.dropBlanks text) (Text.chunks line) :=
  Text.dropBlanks_replaceWord ansWord text line

/-- A numeral holds no blanks, and neither do the brackets round it. -/
theorem dropBlanks_ofInt (v : Int) :
    Text.dropBlanks (Text.Numeral.ofInt v) = Text.Numeral.ofInt v := by
  have htext : (Expr.literal v).derivation.text = Text.Numeral.ofInt v :=
    Expr.text_derivation (.literal v)
  rw [← htext, Derivation.dropBlanks_text]

theorem dropBlanks_bracketed_ofInt (v : Int) :
    Text.dropBlanks (bracketed (Text.Numeral.ofInt v)) = bracketed (Text.Numeral.ofInt v) := by
  have hsplit : bracketed (Text.Numeral.ofInt v) = ['('] ++ (Text.Numeral.ofInt v ++ [')']) := rfl
  rw [hsplit, Text.dropBlanks_append, Text.dropBlanks_append, dropBlanks_ofInt]
  rfl

/-- A line with the last result between brackets in the place of `ans`. -/
theorem isValid_expand_iff_accepts (v : Int) (line : List Char) :
    isValid (expand (Text.Numeral.ofInt v) line) = true ↔
      Scan.Accepts (fill (bracketed (Text.Numeral.ofInt v)) (Text.chunks line)) := by
  have hexpand : expand (Text.Numeral.ofInt v) line =
      Text.replaceWord ansWord (bracketed (Text.Numeral.ofInt v)) line := rfl
  rw [isValid_iff_accepts, hexpand, dropBlanks_replaceWord_ansWord, dropBlanks_bracketed_ofInt]

/-- A negative result is put in between brackets. -/
theorem substitute_of_neg {v : Int} (h : v < 0) (line : List Char) :
    substitute v line = expand (Text.Numeral.ofInt v) line := by
  rw [substitute, expand, Expr.printOperand_literal, if_pos h]

/-- Any other one is put in as its digits. -/
theorem isValid_substitute_iff_accepts (n : Nat) (line : List Char) :
    isValid (substitute n line) = true ↔
      Scan.Accepts (fill (DigitRun.ofNat n).val (Text.chunks line)) := by
  have hsubstitute : substitute n line =
      Text.replaceWord ansWord (Text.Numeral.ofInt n) line := rfl
  rw [isValid_iff_accepts, hsubstitute, dropBlanks_replaceWord_ansWord, dropBlanks_ofInt]
  rfl

/-- **Where an `ans` touches something, the line is refused with brackets.** -/
theorem isValid_expand_of_touches {line : List Char} (h : Touches line) (v : Int) :
    isValid (expand (Text.Numeral.ofInt v) line) = false := by
  rw [← Bool.not_eq_true, isValid_expand_iff_accepts]
  exact not_accepts_fill_group h

/-- **Where none does, the line is accepted with brackets if it is without them.** -/
theorem isValid_expand_of_not_touches {line : List Char} (h : ¬Touches line) {v : Int}
    (hvalid : isValid (substitute v line) = true) :
    isValid (expand (Text.Numeral.ofInt v) line) = true := by
  by_cases hneg : v < 0
  · rwa [← substitute_of_neg hneg]
  · obtain ⟨n, hn⟩ := Int.eq_ofNat_of_zero_le (Int.not_lt.mp hneg)
    subst hn
    rw [isValid_expand_iff_accepts]
    exact accepts_fill_group [] _ h ((isValid_substitute_iff_accepts n line).mp hvalid)

/-- With brackets a line means what it means without them, if it is a formula with them. -/
theorem evaluate_substitute_of_isValid_expand {v : Int} {line : List Char}
    (h : isValid (expand (Text.Numeral.ofInt v) line) = true) :
    isValid (substitute v line) = true ∧
      evaluate (substitute v line) = evaluate (expand (Text.Numeral.ofInt v) line) :=
  evaluate_replaceWord (Expr.evaluate_print (.literal v)) h

/-- **A line means the same with the last result put in and with the last result between brackets,
unless digits of the result grow together with digits beside them.**  With brackets such a line is
always refused. -/
theorem sameOutcome_substitute_iff (ans : Int) (line : List Char) :
    (SameOutcome (evaluate (substitute ans line))
        (evaluate (expand (Text.Numeral.ofInt ans) line)) ↔
      ¬(0 ≤ ans ∧ Touches line ∧ isValid (substitute ans line) = true)) ∧
    (Touches line → isValid (expand (Text.Numeral.ofInt ans) line) = false) := by
  refine ⟨?_, fun htouches => isValid_expand_of_touches htouches ans⟩
  constructor
  · rintro hsame ⟨-, htouches, hvalid⟩
    have hexpand := hsame.isValid_right hvalid
    rw [isValid_expand_of_touches htouches] at hexpand
    cases hexpand
  · intro hnot
    cases hexpand : isValid (expand (Text.Numeral.ofInt ans) line) with
    | true =>
      obtain ⟨hvalid, heq⟩ := evaluate_substitute_of_isValid_expand hexpand
      exact .of_eq hvalid heq
    | false =>
      refine .of_not_isValid ?_ hexpand
      rw [← Bool.not_eq_true]
      intro hvalid
      -- a negative result has its brackets in both lines
      have hnonneg : 0 ≤ ans := by
        by_contra hneg
        rw [substitute_of_neg (by omega), hexpand] at hvalid
        cases hvalid
      refine hnot ⟨hnonneg, ?_, hvalid⟩
      by_contra hno
      rw [isValid_expand_of_not_touches hno hvalid] at hexpand
      cases hexpand

/-- Two results with a blank between them become one number. -/
theorem not_sameOutcome_two_results :
    evaluate (substitute 5 "ans ans".toList) = .ok 55 ∧
      evaluate (expand (Text.Numeral.ofInt 5) "ans ans".toList) =
        .error (.invalid "(5) (5)".toList) ∧
      ¬SameOutcome (evaluate (substitute 5 "ans ans".toList))
        (evaluate (expand (Text.Numeral.ofInt 5) "ans ans".toList)) := by
  have hsubstitute : substitute 5 "ans ans".toList = "5 5".toList := by decide +kernel
  have hexpand : expand (Text.Numeral.ofInt 5) "ans ans".toList = "(5) (5)".toList := by
    decide +kernel
  have hvalue : evaluate "5 5".toList = .ok 55 := by
    have hvalid : isValid "5 5".toList = true := by decide +kernel
    have hpass : onePass (Text.dropBlanks "5 5".toList) = some 55 := by decide +kernel
    rw [evaluate_eq_onePass hvalid, hpass]
    rfl
  have hfails : evaluate "(5) (5)".toList = .error (.invalid "(5) (5)".toList) :=
    evaluate_of_not_isValid (by decide +kernel)
  rw [hsubstitute, hexpand, hvalue, hfails]
  refine ⟨rfl, rfl, ?_⟩
  intro hsame
  cases hsame

end Session

end ExactCalc
