/-
A pair round an operation can be taken away.

* `Operand` — a run of digits, or a group of which nothing is known but that it is balanced;
* `Scan.run_balanced`, `Scan.run_operand` — how the scan goes through such a text depends neither on
  the depth nor on what stood before it;
* `Scan.exists_reads_last` — what the last character of a text did;
* `LeftOperand`, `Site.leftOperand` — what stands before an operator, with its sign;
* `Scan.accepts_of_enclosed` — a text is accepted if it is with a pair round one of its operations.
-/
import ExactCalc.Proofs.Acceptance
import ExactCalc.Proofs.Regrouping

namespace ExactCalc.Formula

/-- What may stand beside an operator: digits, or a group with any balanced text inside. -/
inductive Operand : List Char → Prop where
  | digits (run : DigitRun) : Operand run.val
  | group {inner : List Char} (h : Balanced '(' ')' inner) : Operand ('(' :: (inner ++ [')']))

theorem Operand.exists_cons {text : List Char} (h : Operand text) :
    ∃ c rest, text = c :: rest ∧ (c.isDigit = true ∨ c = '(') := by
  cases h with
  | digits run =>
    obtain ⟨c, digits, hrun, hc⟩ := run.exists_cons
    exact ⟨c, digits, hrun, .inl hc⟩
  | group hi => exact ⟨'(', _, rfl, .inr rfl⟩

namespace Scan

/-- The last character that was read. -/
theorem exists_reads_last {s s' : Scan} {c : Char} {text : List Char}
    (h : s.run (text ++ [c]) = some s') : ∃ s₁, Reads s₁ c s' := by
  obtain ⟨s₁, -, h⟩ := exists_run_of_run_append h
  obtain ⟨s₂, hc, h⟩ := exists_reads_of_run_cons h
  cases h
  exact ⟨s₁, hc⟩

/-- A character that is no bracket is read at each depth alike. -/
theorem Reads.depth {s s' : Scan} {c : Char} (h : Reads s c s') (ho : c ≠ '(') (hc : c ≠ ')') :
    s'.depth = s.depth ∧ ∀ n, Reads ⟨s.place, n⟩ c ⟨s'.place, n⟩ := by
  cases h with
  | digit hd hp => exact ⟨rfl, fun _ => .digit hd hp⟩
  | opening hp => exact absurd rfl ho
  | closing hp => exact absurd rfl hc
  | sign => exact ⟨rfl, fun _ => .sign⟩
  | operator op hp => exact ⟨rfl, fun _ => .operator op hp⟩

theorem reads_opening {s s' : Scan} (h : Reads s '(' s') :
    s.place.awaitsOperand = true ∧ s' = ⟨.start, s.depth + 1⟩ := by
  generalize hc : '(' = c at h
  cases h with
  | digit hd hp => exact absurd (hc ▸ hd) (by decide)
  | opening hp => exact ⟨hp, rfl⟩
  | closing hp => cases hc
  | sign => cases hc
  | operator op hp => exact absurd hc.symm op.symbol_ne_opening

theorem reads_closing {s s' : Scan} (h : Reads s ')' s') :
    s.place.awaitsOperand = false ∧ s.depth = s'.depth + 1 ∧ s'.place = .close := by
  generalize hc : ')' = c at h
  cases h with
  | digit hd hp => exact absurd (hc ▸ hd) (by decide)
  | opening hp => cases hc
  | closing hp => exact ⟨hp, rfl, rfl⟩
  | sign => cases hc
  | operator op hp => exact absurd hc.symm op.symbol_ne_closing

theorem reads_operator {s s' : Scan} {op : Operator} (h : Reads s op.symbol s') :
    s' = ⟨.operator, s.depth⟩ ∧
      (s.place.awaitsOperand = true → s.place = .start ∧ op = .sub) := by
  generalize hc : op.symbol = c at h
  cases h with
  | digit hd hp => exact absurd (hc ▸ hd) (by simp)
  | opening hp => exact absurd hc op.symbol_ne_opening
  | closing hp => exact absurd hc op.symbol_ne_closing
  | sign =>
    refine ⟨rfl, fun _ => ⟨rfl, ?_⟩⟩
    cases op with
    | sub => rfl
    | add | mul | div => cases hc
  | operator op' hp => exact ⟨rfl, fun ha => by simp [hp] at ha⟩

/-- A balanced text is read at each depth alike, and leaves the depth as it was. -/
theorem run_balanced {inner : List Char} (h : Balanced '(' ')' inner) {s s' : Scan}
    (hrun : s.run inner = some s') :
    s'.depth = s.depth ∧ ∀ n, Scan.run ⟨s.place, n⟩ inner = some ⟨s'.place, n⟩ := by
  induction h generalizing s s' with
  | nil =>
    cases hrun
    exact ⟨rfl, fun _ => rfl⟩
  | plain ho hc _ ih =>
    obtain ⟨s₁, hr, hrun⟩ := exists_reads_of_run_cons hrun
    obtain ⟨hdepth, hreads⟩ := hr.depth ho hc
    obtain ⟨hdepth', hrun'⟩ := ih hrun
    constructor
    · exact hdepth'.trans hdepth
    · intro n
      rw [run_cons_of_reads (hreads n), hrun' n]
  | group _ _ ihi ih =>
    obtain ⟨s₁, hopen, hrun₁⟩ := exists_reads_of_run_cons hrun
    obtain ⟨s₂, hinner, hrun₂⟩ := exists_run_of_run_append hrun₁
    obtain ⟨s₃, hclose, hrun₃⟩ := exists_reads_of_run_cons hrun₂
    obtain ⟨hp, rfl⟩ := reads_opening hopen
    obtain ⟨hdepth₂, hinner'⟩ := ihi hinner
    obtain ⟨hp₂, hdepth₃, hplace₃⟩ := reads_closing hclose
    obtain ⟨hdepth', hrun'⟩ := ih hrun₃
    constructor
    · show s'.depth = s.depth
      have hdepth₂ : s₂.depth = s.depth + 1 := hdepth₂
      omega
    · -- the inside is read at any depth, so also one below `n`
      intro n
      rw [run_cons_of_reads (.opening hp), run_append, hinner' (n + 1), Option.bind_some,
        run_cons_of_reads (.closing hp₂), ← hplace₃, hrun' n]

/-- An operand is read alike wherever one is awaited. -/
theorem run_operand {text : List Char} (h : Operand text) {place : Place} {depth : Nat} {s : Scan}
    (hp : place.awaitsOperand = true) (hrun : Scan.run ⟨place, depth⟩ text = some s) :
    s.depth = depth ∧ s.place.awaitsOperand = false ∧
      ∀ (p : Place) (n : Nat), p.awaitsOperand = true →
        Scan.run ⟨p, n⟩ text = some ⟨s.place, n⟩ := by
  cases h with
  | digits run =>
    rw [run_digitRun hp] at hrun
    cases hrun
    exact ⟨rfl, rfl, fun p n hp => run_digitRun hp run⟩
  | @group inner hi =>
    obtain ⟨s₁, hopen, hrun⟩ := exists_reads_of_run_cons hrun
    obtain ⟨s₂, hinner, hrun⟩ := exists_run_of_run_append hrun
    obtain ⟨s₃, hend, hrun⟩ := exists_reads_of_run_cons hrun
    cases hrun
    obtain ⟨-, rfl⟩ := reads_opening hopen
    obtain ⟨hdepth₂, hinner'⟩ := run_balanced hi hinner
    obtain ⟨hp₂, hdepth₃, hplace₃⟩ := reads_closing hend
    have hdepth₂ : s₂.depth = depth + 1 := hdepth₂
    refine ⟨by omega, ?_, ?_⟩
    · rw [hplace₃]
      rfl
    · intro p n hp
      rw [hplace₃]
      exact run_group hp hp₂ (hinner' (n + 1))

/-- Behind an operand it does not matter which one it was, unless digits go on. -/
theorem run_of_run_close {place : Place} {depth : Nat} {text : List Char} {s : Scan}
    (hp : place.awaitsOperand = false) (hs : s.isComplete = true)
    (hrun : Scan.run ⟨.close, depth⟩ text = some s) :
    ∃ s', Scan.run ⟨place, depth⟩ text = some s' ∧ s'.isComplete = true := by
  cases text with
  | nil =>
    cases hrun
    have hdepth : depth = 0 := (isComplete_iff.mp hs).1
    exact ⟨⟨place, depth⟩, rfl, isComplete_iff.mpr ⟨hdepth, hp⟩⟩
  | cons c text =>
    obtain ⟨s₁, hr, hrun⟩ := exists_reads_of_run_cons hrun
    refine ⟨s, ?_, hs⟩
    cases hr with
    | digit hd hclose => exact absurd rfl hclose
    | opening hp' => cases hp'
    | closing _ => rw [run_cons_of_reads (.closing hp), hrun]
    | operator op _ => rw [run_cons_of_reads (.operator op hp), hrun]

end Scan

/-! ### Operands of a site -/

theorem operand_of_splitOperand (text : List Char) :
    (splitOperand '(' ')' text).1 = [] ∨ Operand (splitOperand '(' ')' text).1 := by
  rcases splitOperand_cases (by decide : '(' ≠ ')') text with h | ⟨hne, hd⟩ | h
  · exact .inl h
  · exact .inr (.digits ⟨_, hne, List.all_eq_true.mpr hd⟩)
  · obtain ⟨inner, h, hi⟩ := h
    rw [h]
    exact .inr (.group hi)

theorem operand_of_splitOperand_reverse (text : List Char) :
    (splitOperand ')' '(' text).1 = [] ∨ Operand (splitOperand ')' '(' text).1.reverse := by
  rcases splitOperand_cases (by decide : ')' ≠ '(') text with h | ⟨hne, hd⟩ | h
  · exact .inl h
  · refine .inr (.digits ⟨_, List.reverse_ne_nil_iff.mpr hne, List.all_eq_true.mpr fun c hc => ?_⟩)
    exact hd c (List.mem_reverse.mp hc)
  · obtain ⟨inner, h, hi⟩ := h
    have hrev : (splitOperand ')' '(' text).1.reverse = '(' :: (inner.reverse ++ [')']) := by
      simp [h]
    rw [hrev]
    exact .inr (.group hi.reverse)

theorem splitSign_cases (text : List Char) :
    (splitSign text).1 = [] ∨
      ((splitSign text).1 = ['-'] ∧ opensLevel (splitSign text).2 = true) := by
  cases text with
  | nil => exact .inl rfl
  | cons c text =>
    by_cases h : isSign text c = true
    · have hc : c = '-' ∧ opensLevel text = true := by simpa [isSign] using h
      obtain ⟨rfl, hl⟩ := hc
      rw [splitSign, if_pos h]
      exact .inr ⟨rfl, hl⟩
    · rw [splitSign, if_neg h]
      exact .inl rfl

/-- What may stand before an operator, behind the text `outer`: an operand or none, with a sign only
where a level begins. -/
def LeftOperand (outer left : List Char) : Prop :=
  ∃ sign operand, left = sign ++ operand ∧ (operand = [] ∨ Operand operand) ∧
    (sign = [] ∨ (sign = ['-'] ∧ opensLevel outer.reverse = true))

namespace Site

theorem leftOperand (s : Site) : LeftOperand s.left.2.reverse s.left.1.reverse := by
  refine ⟨(splitSign (splitOperand ')' '(' s.before).2).1.reverse,
    (splitOperand ')' '(' s.before).1.reverse, by simp [left], ?_, ?_⟩
  · rcases operand_of_splitOperand_reverse s.before with h | h
    · exact .inl (by simp [h])
    · exact .inr h
  · rw [List.reverse_reverse]
    rcases splitSign_cases (splitOperand ')' '(' s.before).2 with h | ⟨h, hl⟩
    · exact .inl (by simp [h])
    · exact .inr ⟨by simp [h], hl⟩

theorem text_eq (s : Site) :
    s.text = s.left.2.reverse ++ (s.left.1.reverse ++ s.symbol :: (s.right.1 ++ s.right.2)) := by
  have hbefore : s.before.reverse = s.left.2.reverse ++ s.left.1.reverse := by
    rw [← List.reverse_append, s.left_append]
  rw [text, hbefore, s.right_append, List.append_assoc]

end Site

namespace Scan

/-- A level begins at its start. -/
theorem place_eq_start {outer : List Char} {s : Scan} (h : initial.run outer = some s)
    (ho : opensLevel outer.reverse = true) : s.place = .start := by
  rcases List.eq_nil_or_concat outer with rfl | ⟨u, c, rfl⟩
  · cases h
    rfl
  · have hc : c = '(' := opensLevel_iff.mp ho c (by simp)
    subst hc
    rw [List.concat_eq_append] at h
    obtain ⟨s₁, hr⟩ := exists_reads_last h
    rw [(reads_opening hr).2]

/-- The left operand of an operator is read alike without the bracket in front of it. -/
theorem run_leftOperand {left outer : List Char} (hl : LeftOperand outer left) (hne : left ≠ [])
    {s₀ s s' : Scan} (houter : initial.run outer = some s₀) (hp : s₀.place.awaitsOperand = true)
    (hrun : Scan.run ⟨.start, s₀.depth + 1⟩ left = some s) {op : Operator}
    (hop : Reads s op.symbol s') :
    s.depth = s₀.depth + 1 ∧ s.place.awaitsOperand = false ∧
      s₀.run left = some ⟨s.place, s₀.depth⟩ := by
  obtain ⟨sign, operand, rfl, hoperand, hsign⟩ := hl
  rcases hsign with rfl | ⟨rfl, hopens⟩
  · rcases hoperand with rfl | hoperand
    · exact absurd rfl hne
    · obtain ⟨hdepth, hplace, hrun'⟩ := run_operand hoperand rfl hrun
      exact ⟨hdepth, hplace, hrun' s₀.place s₀.depth hp⟩
  · have hstart := place_eq_start houter hopens
    rw [List.singleton_append, run_cons_of_reads .sign] at hrun
    rcases hoperand with rfl | hoperand
    · -- a sign alone cannot be followed by an operator
      cases hrun
      cases ((reads_operator hop).2 rfl).1
    · obtain ⟨hdepth, hplace, hrun'⟩ := run_operand hoperand rfl hrun
      refine ⟨hdepth, hplace, ?_⟩
      obtain ⟨place, depth⟩ := s₀
      obtain rfl : place = .start := hstart
      rw [List.singleton_append, run_cons_of_reads .sign]
      exact hrun' .operator depth rfl

/-- **A pair round an operation can be taken away from an accepted text.** -/
theorem accepts_of_enclosed {outer left right rest : List Char} {op : Operator}
    (hl : LeftOperand outer left) (hne : left ≠ []) (hr : right = [] ∨ Operand right)
    (h : Accepts (outer ++ '(' :: (left ++ op.symbol :: (right ++ ')' :: rest)))) :
    Accepts (outer ++ (left ++ op.symbol :: (right ++ rest))) := by
  obtain ⟨s, hrun, hs⟩ := h
  obtain ⟨s₀, houter, hrun⟩ := exists_run_of_run_append hrun
  obtain ⟨s₁, hopen, hrun⟩ := exists_reads_of_run_cons hrun
  obtain ⟨hp, rfl⟩ := reads_opening hopen
  obtain ⟨s₂, hleft, hrun⟩ := exists_run_of_run_append hrun
  obtain ⟨s₃, hop, hrun⟩ := exists_reads_of_run_cons hrun
  obtain ⟨hdepth₂, hp₂, hleft'⟩ := run_leftOperand hl hne houter hp hleft hop
  obtain ⟨rfl, -⟩ := reads_operator hop
  obtain ⟨s₄, hright, hrun⟩ := exists_run_of_run_append hrun
  obtain ⟨s₅, hclose, hrun⟩ := exists_reads_of_run_cons hrun
  obtain ⟨hp₄, hdepth₅, hplace₅⟩ := reads_closing hclose
  rcases hr with rfl | hr
  · -- without an operand behind it, the operator cannot be followed by a bracket
    cases hright
    cases hp₄
  · obtain ⟨hdepth₄, -, hright'⟩ := run_operand hr rfl hright
    have hs₅ : s₅ = ⟨.close, s₀.depth⟩ := by
      obtain ⟨place₅, depth₅⟩ := s₅
      simp only at hplace₅ hdepth₅ hdepth₄
      rw [hplace₅, show depth₅ = s₀.depth by omega]
    rw [hs₅] at hrun
    obtain ⟨s', hrest, hs'⟩ := run_of_run_close hp₄ hs hrun
    refine ⟨s', ?_, hs'⟩
    rw [run_append, houter, Option.bind_some, run_append, hleft', Option.bind_some,
      run_cons_of_reads (.operator op hp₂), run_append, hright' .operator s₀.depth rfl,
      Option.bind_some, hrest]

end Scan

end ExactCalc.Formula
