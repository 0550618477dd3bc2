/-
The scan accepts the derived texts and no others.

* `Scan.Reads` — the rules of the scan, one for each kind of character;
* `Scan.run_text` — the scan runs through every derived text;
* `Scan.Reached` — what has been read when the scan is in a state: levels that are still open,
  and the level that is being read;
* `exists_derivation_iff` — a text is accepted exactly if it is derived.
-/
import ExactCalc.Formula.Validity
import ExactCalc.Proofs.Derivation

namespace ExactCalc.Formula

namespace Scan

/-- The rules of the scan. -/
inductive Reads : Scan → Char → Scan → Prop where
  | digit {place : Place} {depth : Nat} {c : Char} (hc : c.isDigit = true)
      (hp : place ≠ .close) : Reads ⟨place, depth⟩ c ⟨.digit, depth⟩
  | opening {place : Place} {depth : Nat} (hp : place.awaitsOperand = true) :
      Reads ⟨place, depth⟩ '(' ⟨.start, depth + 1⟩
  | closing {place : Place} {depth : Nat} (hp : place.awaitsOperand = false) :
      Reads ⟨place, depth + 1⟩ ')' ⟨.close, depth⟩
  | sign {depth : Nat} : Reads ⟨.start, depth⟩ '-' ⟨.operator, depth⟩
  | operator {place : Place} {depth : Nat} (op : Operator)
      (hp : place.awaitsOperand = false) : Reads ⟨place, depth⟩ op.symbol ⟨.operator, depth⟩

theorem step_of_reads {s s' : Scan} {c : Char} (h : Reads s c s') : s.step c = some s' := by
  cases h with
  | digit hc hp => simp [step, hc, hp]
  | opening hp => simp [step, hp]
  | closing hp => simp [step, hp]
  | sign => rfl
  | @operator place depth op hp =>
    cases place with
    | start | operator => cases hp
    | digit | close => cases op <;> rfl

theorem reads_of_step {s s' : Scan} {c : Char} (h : s.step c = some s') : Reads s c s' := by
  obtain ⟨place, depth⟩ := s
  -- the characters in the order in which the step asks for them
  by_cases hd : c.isDigit = true
  · rw [step, if_pos hd] at h
    by_cases hp : place = .close
    · rw [if_pos hp] at h
      cases h
    · rw [if_neg hp] at h
      cases h
      exact .digit hd hp
  by_cases ho : c = '('
  · rw [step, if_neg hd, if_pos ho] at h
    subst ho
    by_cases hp : place.awaitsOperand = true
    · rw [if_pos hp] at h
      cases h
      exact .opening hp
    · rw [if_neg hp] at h
      cases h
  by_cases hc : c = ')'
  · rw [step, if_neg hd, if_neg ho, if_pos hc] at h
    subst hc
    by_cases hp : (place.awaitsOperand || depth == 0) = true
    · rw [if_pos hp] at h
      cases h
    · rw [if_neg hp] at h
      simp only [Bool.or_eq_true, beq_iff_eq, not_or, Bool.not_eq_true] at hp
      obtain ⟨depth, rfl⟩ := Nat.exists_eq_succ_of_ne_zero hp.2
      cases h
      exact .closing hp.1
  rw [step, if_neg hd, if_neg ho, if_neg hc] at h
  by_cases hm : c = '-'
  · -- a `-` is a sign where a level begins, and an operator behind an operand
    rw [if_pos hm] at h
    subst hm
    cases place with
    | start =>
      cases h
      exact .sign
    | operator => cases h
    | digit | close =>
      cases h
      exact .operator .sub rfl
  · rw [if_neg hm] at h
    by_cases hop : (Operator.ofChar? c).isSome = true
    · rw [if_pos hop] at h
      obtain ⟨op, hop⟩ := Option.isSome_iff_exists.mp hop
      rw [Operator.ofChar?_eq_some] at hop
      subst hop
      by_cases hp : place.awaitsOperand = true
      · rw [if_pos hp] at h
        cases h
      · rw [if_neg hp] at h
        cases h
        exact .operator op (Bool.eq_false_iff.mpr hp)
    · rw [if_neg hop] at h
      cases h

/-- A step follows a rule, and every rule is followed. -/
theorem step_eq_some_iff {s s' : Scan} {c : Char} : s.step c = some s' ↔ Reads s c s' :=
  ⟨reads_of_step, step_of_reads⟩

/-- Reads a text that holds no blanks. -/
def run (s : Scan) (text : List Char) : Option Scan :=
  text.foldlM step s

@[simp]
theorem run_nil (s : Scan) : s.run [] = some s := rfl

theorem run_cons (s : Scan) (c : Char) (text : List Char) :
    s.run (c :: text) = (s.step c).bind fun s' => s'.run text := rfl

theorem run_append (s : Scan) (u v : List Char) :
    s.run (u ++ v) = (s.run u).bind fun s' => s'.run v := by
  simp [run, List.foldlM_append]

theorem run_cons_of_reads {s s' : Scan} {c : Char} (h : Reads s c s') (text : List Char) :
    s.run (c :: text) = s'.run text := by
  rw [run_cons, step_eq_some_iff.mpr h, Option.bind_some]

/-- What the first character of a text that is read through does. -/
theorem exists_reads_of_run_cons {s s' : Scan} {c : Char} {text : List Char}
    (h : s.run (c :: text) = some s') : ∃ s₁, Reads s c s₁ ∧ s₁.run text = some s' := by
  rw [run_cons] at h
  obtain ⟨s₁, hs₁, h⟩ := Option.bind_eq_some_iff.mp h
  exact ⟨s₁, step_eq_some_iff.mp hs₁, h⟩

theorem exists_run_of_run_append {s s' : Scan} {u v : List Char}
    (h : s.run (u ++ v) = some s') : ∃ s₁, s.run u = some s₁ ∧ s₁.run v = some s' := by
  rw [run_append] at h
  exact Option.bind_eq_some_iff.mp h

theorem run_digits {place : Place} {depth : Nat} (hp : place ≠ .close) {digits : List Char}
    (hne : digits ≠ []) (h : ∀ c ∈ digits, c.isDigit = true) :
    Scan.run ⟨place, depth⟩ digits = some ⟨.digit, depth⟩ := by
  induction digits generalizing place with
  | nil => exact absurd rfl hne
  | cons c digits ih =>
    rw [run_cons_of_reads (.digit (h c List.mem_cons_self) hp)]
    rcases List.eq_nil_or_concat digits with rfl | ⟨_, _, hd⟩
    · rfl
    · exact ih (by decide) (by simp [hd]) fun d hd => h d (List.mem_cons_of_mem c hd)

/-- A run of digits is read wherever an operand is awaited. -/
theorem run_digitRun {place : Place} {depth : Nat} (hp : place.awaitsOperand = true)
    (run : DigitRun) : Scan.run ⟨place, depth⟩ run.val = some ⟨.digit, depth⟩ := by
  refine run_digits ?_ run.property.1 run.isDigit_of_mem
  rintro rfl
  cases hp

/-- What is read as a level of its own is read between brackets wherever an operand is awaited. -/
theorem run_group {place p : Place} {depth : Nat} {inner : List Char}
    (hp : place.awaitsOperand = true) (hp' : p.awaitsOperand = false)
    (hrun : Scan.run ⟨.start, depth + 1⟩ inner = some ⟨p, depth + 1⟩) :
    Scan.run ⟨place, depth⟩ ('(' :: (inner ++ [')'])) = some ⟨.close, depth⟩ := by
  rw [run_cons_of_reads (.opening hp), run_append, hrun, Option.bind_some,
    run_cons_of_reads (.closing hp'), run_nil]

/-- The scan runs through a derived text, up to the end of its last operand.  A level needs a place
where a sign may stand, an operand any place where one is awaited. -/
theorem run_text {part : Part} (d : Derivation part) (place : Place) (depth : Nat)
    (hp : place.awaitsOperand = true) (hl : part = .level → place = .start) :
    ∃ p : Place, p.awaitsOperand = false ∧
      Scan.run ⟨place, depth⟩ d.text = some ⟨p, depth⟩ := by
  induction d generalizing place depth with
  | digits run => exact ⟨.digit, rfl, run_digitRun hp run⟩
  | group inner ih =>
    -- a level begins inside the brackets, whatever the place before them
    obtain ⟨p, hp', hrun⟩ := ih .start (depth + 1) rfl fun _ => rfl
    exact ⟨.close, rfl, run_group hp hp' hrun⟩
  | first signed operand ih =>
    obtain rfl := hl rfl
    cases signed with
    | true =>
      rw [Derivation.text, run_cons_of_reads .sign]
      exact ih .operator depth rfl fun h => absurd h Part.operand_ne_level
    | false => exact ih .start depth rfl fun h => absurd h Part.operand_ne_level
  | more before op operand ihb ihp =>
    obtain ⟨p, hp', hrun⟩ := ihb place depth hp hl
    rw [Derivation.text, run_append, hrun, Option.bind_some, run_cons_of_reads (.operator op hp')]
    exact ihp .operator depth rfl fun h => absurd h Part.operand_ne_level

end Scan

/-! ### From a state to a derivation -/

/-- What stands before the next operand of a level. -/
inductive Stub where
  | empty
  | sign
  | operator (before : Derivation .level) (op : Operator)

namespace Stub

def text : Stub → List Char
  | empty => []
  | sign => ['-']
  | operator before op => before.text ++ [op.symbol]

/-- The level with the next operand. -/
def fill : Stub → Derivation .operand → Derivation .level
  | empty, operand => .first false operand
  | sign, operand => .first true operand
  | operator before op, operand => .more before op operand

@[simp]
theorem text_fill (stub : Stub) (operand : Derivation .operand) :
    (stub.fill operand).text = stub.text ++ operand.text := by
  cases stub with
  | empty => rfl
  | sign => rfl
  | operator before op => simp [fill, text, Derivation.text]

end Stub

namespace Scan

/-- The text of a level that has been read up to some place. -/
def LevelRead : Place → List Char → Prop
  | .start, text => text = Stub.empty.text
  | .operator, text => ∃ stub : Stub, text = stub.text
  | .digit, text => ∃ (stub : Stub) (run : DigitRun), text = stub.text ++ run.val
  | .close, text => ∃ (stub : Stub) (inner : Derivation .level),
      text = stub.text ++ (Derivation.group inner).text

/-- A level is complete where an operator may follow. -/
theorem LevelRead.exists_derivation {place : Place} {text : List Char}
    (h : LevelRead place text) (hp : place.awaitsOperand = false) :
    ∃ d : Derivation .level, d.text = text := by
  cases place with
  | start | operator => cases hp
  | digit =>
    obtain ⟨stub, run, rfl⟩ := h
    exact ⟨stub.fill (.digits run), by simp [Derivation.text]⟩
  | close =>
    obtain ⟨stub, inner, rfl⟩ := h
    exact ⟨stub.fill (.group inner), by simp⟩

theorem LevelRead.exists_stub {place : Place} {text : List Char} (h : LevelRead place text)
    (hp : place.awaitsOperand = true) : ∃ stub : Stub, text = stub.text := by
  cases place with
  | start => exact ⟨.empty, h⟩
  | operator => exact h
  | digit | close => cases hp

/-- The text of open levels, each up to the bracket that opens the next one. -/
inductive Opened : Nat → List Char → Prop where
  | none : Opened 0 []
  | more {depth : Nat} {text : List Char} (h : Opened depth text) (stub : Stub) :
      Opened (depth + 1) (text ++ stub.text ++ ['('])

/-- The text that has been read in a state. -/
def Reached (s : Scan) (text : List Char) : Prop :=
  ∃ outer level, text = outer ++ level ∧ Opened s.depth outer ∧ LevelRead s.place level

theorem Reached.initial : Reached initial [] :=
  ⟨[], [], rfl, .none, rfl⟩

theorem Reached.step {s s' : Scan} {c : Char} {text : List Char} (h : Reached s text)
    (hr : Reads s c s') : Reached s' (text ++ [c]) := by
  obtain ⟨outer, level, rfl, ho, hl⟩ := h
  -- only a bracket changes more than the innermost level
  cases hr with
  | @digit place _ _ hc hp =>
    refine ⟨outer, level ++ [c], by simp, ho, ?_⟩
    -- a digit continues a run or begins one
    by_cases hd : place = .digit
    · subst hd
      obtain ⟨stub, run, rfl⟩ := hl
      exact ⟨stub, ⟨run.val ++ [c], by simp [run.property, hc]⟩, by simp⟩
    · have ha : place.awaitsOperand = true := by
        cases place with
        | start | operator => rfl
        | digit => exact absurd rfl hd
        | close => exact absurd rfl hp
      obtain ⟨stub, rfl⟩ := hl.exists_stub ha
      exact ⟨stub, ⟨[c], by simp [hc]⟩, rfl⟩
  | opening hp =>
    obtain ⟨stub, rfl⟩ := hl.exists_stub hp
    exact ⟨outer ++ stub.text ++ ['('], [], by simp, .more ho stub, rfl⟩
  | closing hp =>
    -- the level is complete, and becomes an operand of the level round it
    obtain ⟨d, rfl⟩ := hl.exists_derivation hp
    cases ho with
    | @more _ text ho stub =>
      exact ⟨text, stub.text ++ (Derivation.group d).text, by simp [Derivation.text], ho,
        stub, d, rfl⟩
  | sign =>
    obtain rfl := hl
    exact ⟨outer, ['-'], by simp [Stub.text], ho, .sign, rfl⟩
  | operator op hp =>
    obtain ⟨d, rfl⟩ := hl.exists_derivation hp
    exact ⟨outer, d.text ++ [op.symbol], by simp, ho, .operator d op, rfl⟩

theorem Reached.run {s s' : Scan} {text rest : List Char} (h : Reached s text)
    (hr : s.run rest = some s') : Reached s' (text ++ rest) := by
  induction rest generalizing s text with
  | nil =>
    cases hr
    simpa using h
  | cons c rest ih =>
    obtain ⟨s₁, hc, hr⟩ := exists_reads_of_run_cons hr
    have := ih (h.step hc) hr
    simpa using this

/-- The whole text is read, and it is a formula. -/
def Accepts (text : List Char) : Prop :=
  ∃ s, initial.run text = some s ∧ s.isComplete = true

theorem isComplete_iff {s : Scan} :
    s.isComplete = true ↔ s.depth = 0 ∧ s.place.awaitsOperand = false := by
  simp [isComplete]

/-- **The scan accepts exactly the derived texts.** -/
theorem exists_derivation_iff {text : List Char} :
    (∃ d : Derivation .level, d.text = text) ↔ Accepts text := by
  constructor
  · rintro ⟨d, rfl⟩
    obtain ⟨p, hp, hrun⟩ := run_text d .start 0 rfl fun _ => rfl
    exact ⟨⟨p, 0⟩, hrun, isComplete_iff.mpr ⟨rfl, hp⟩⟩
  · rintro ⟨⟨place, depth⟩, hrun, hs⟩
    obtain ⟨hd, hp⟩ := isComplete_iff.mp hs
    obtain ⟨outer, level, heq, ho, hl⟩ := Reached.initial.run hrun
    -- no level is open, so that the one being read is the whole text
    obtain rfl : depth = 0 := hd
    cases ho
    obtain ⟨d, rfl⟩ := hl.exists_derivation hp
    exact ⟨d, heq.symm⟩

end Scan

theorem isValid_iff_accepts {text : List Char} :
    isValid text = true ↔ Scan.Accepts (Text.dropBlanks text) := by
  simp only [isValid, Option.any_eq_true, Scan.Accepts]
  rfl

end ExactCalc.Formula
