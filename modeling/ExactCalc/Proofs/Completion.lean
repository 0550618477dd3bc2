/-
What the scan does not refuse can be completed.

* `Scan.Reads.depth_add_count`, `Scan.depth_add_count` — the open brackets are counted right;
* `Scan.run_closings` — behind an operand, the closing brackets that are missing complete a text;
* `isSome_scan_of_append` — the beginning of a formula is not refused;
* `isValid_completion` — each text that is not refused has a completion;
* `exists_append_iff_isSome_scan` — the three belong together.
-/
import ExactCalc.Proofs.Enclosing

namespace ExactCalc.Formula

namespace Scan

variable {s s' : Scan} {c : Char} {text : List Char}

/-- One character changes the depth by the bracket that it is. -/
theorem Reads.depth_add_count (h : Reads s c s') :
    s'.depth + [c].count ')' = s.depth + [c].count '(' := by
  cases h with
  | digit hc hp =>
    have hopen : c ≠ '(' := ne_of_isDigit hc rfl
    have hclose : c ≠ ')' := ne_of_isDigit hc rfl
    simp [hopen, hclose]
  | opening hp => rfl
  | closing hp => rfl
  | sign => rfl
  | operator op hp => simp [op.symbol_ne_opening, op.symbol_ne_closing]

/-- The depth is the number of brackets that were opened, less those that were closed. -/
theorem depth_add_count (h : s.run text = some s') :
    s'.depth + text.count ')' = s.depth + text.count '(' := by
  induction text generalizing s with
  | nil =>
    cases h
    rfl
  | cons c text ih =>
    obtain ⟨s₁, hr, hrun⟩ := exists_reads_of_run_cons h
    have hfirst := hr.depth_add_count
    have hrest := ih hrun
    rw [← List.singleton_append, List.count_append, List.count_append]
    omega

/-- Behind an operand, as many closing brackets as are open complete a text. -/
theorem run_closings {place : Place} (hp : place.awaitsOperand = false) (depth : Nat) :
    ∃ s, Scan.run ⟨place, depth⟩ (List.replicate depth ')') = some s ∧ s.isComplete = true := by
  induction depth generalizing place with
  | zero => exact ⟨⟨place, 0⟩, rfl, isComplete_iff.mpr ⟨rfl, hp⟩⟩
  | succ depth ih =>
    rw [List.replicate_succ, run_cons_of_reads (.closing hp)]
    exact ih rfl

/-- Where an operand is awaited, a digit comes first. -/
theorem run_digit_closings {place : Place} (hp : place.awaitsOperand = true) (depth : Nat) :
    ∃ s, Scan.run ⟨place, depth⟩ ('0' :: List.replicate depth ')') = some s ∧
      s.isComplete = true := by
  have hplace : place ≠ .close := by
    rintro rfl
    cases hp
  rw [run_cons_of_reads (.digit rfl hplace)]
  exact run_closings rfl depth

end Scan

theorem scan_eq_run (text : List Char) :
    scan text = Scan.initial.run (Text.dropBlanks text) := rfl

/-- A text that goes on is scanned to its end from where the first part leaves off. -/
theorem scan_append (text rest : List Char) :
    scan (text ++ rest) = (scan text).bind fun s => s.run (Text.dropBlanks rest) := by
  rw [scan_eq_run, Text.dropBlanks_append, Scan.run_append, scan_eq_run]

/-- The beginning of a formula is not refused. -/
theorem isSome_scan_of_append {text rest : List Char} (h : isValid (text ++ rest) = true) :
    (scan text).isSome = true := by
  rw [isValid, scan_append] at h
  cases hscan : scan text with
  | none =>
    rw [hscan] at h
    cases h
  | some s => rfl

theorem isValid_append {text rest : List Char} {s s' : Scan} (hscan : scan text = some s)
    (hblank : ∀ c ∈ rest, Text.isBlank c = false) (hrun : s.run rest = some s')
    (hs : s'.isComplete = true) : isValid (text ++ rest) = true := by
  rw [isValid, scan_append, hscan, Option.bind_some, Text.dropBlanks_eq_self.mpr hblank, hrun]
  exact hs

/-- Blanks are no brackets, so that a scan counts those of the text. -/
theorem count_dropBlanks {c : Char} (hc : Text.isBlank c = false) (text : List Char) :
    (Text.dropBlanks text).count c = text.count c :=
  List.count_filter (by simp [hc])

/-- The number of brackets that a text leaves open. -/
def missing (text : List Char) : Nat :=
  text.count '(' - text.count ')'

theorem depth_of_scan {text : List Char} {s : Scan} (h : scan text = some s) :
    text.count ')' ≤ text.count '(' ∧ s.depth = missing text := by
  have hcount := Scan.depth_add_count h
  rw [count_dropBlanks rfl, count_dropBlanks rfl] at hcount
  have hzero : Scan.initial.depth = 0 := rfl
  rw [missing]
  omega

/-- A text that is not refused becomes a formula with the closing brackets that are missing, or with
a `0` and these brackets. -/
theorem isValid_completion {text : List Char} (h : (scan text).isSome = true) :
    isValid (text ++ List.replicate (missing text) ')') = true ∨
      isValid (text ++ '0' :: List.replicate (missing text) ')') = true := by
  obtain ⟨⟨place, depth⟩, hscan⟩ := Option.isSome_iff_exists.mp h
  have hdepth : depth = missing text := (depth_of_scan hscan).2
  rw [← hdepth]
  have hclosing : ∀ c ∈ List.replicate depth ')', Text.isBlank c = false := by
    intro c hc
    rw [List.eq_of_mem_replicate hc]
    rfl
  -- an operand is awaited, which `0` is, or the text may end once its brackets are closed
  by_cases hp : place.awaitsOperand = true
  · right
    have hblank : ∀ c ∈ '0' :: List.replicate depth ')', Text.isBlank c = false := by
      intro c hc
      rcases List.mem_cons.mp hc with rfl | hc
      · rfl
      · exact hclosing c hc
    obtain ⟨s, hrun, hs⟩ := Scan.run_digit_closings hp depth
    exact isValid_append hscan hblank hrun hs
  · left
    obtain ⟨s, hrun, hs⟩ := Scan.run_closings (Bool.eq_false_iff.mpr hp) depth
    exact isValid_append hscan hclosing hrun hs

/-- **A text is the beginning of a formula exactly if the scan does not refuse it, and then no more
brackets are closed than were opened, and a `0` at most and the missing brackets complete it.** -/
theorem exists_append_iff_isSome_scan (text : List Char) :
    ((∃ rest, isValid (text ++ rest) = true) ↔ (scan text).isSome = true) ∧
      ((scan text).isSome = true ↔
        text.count ')' ≤ text.count '(' ∧
          (isValid (text ++ List.replicate (missing text) ')') = true ∨
            isValid (text ++ '0' :: List.replicate (missing text) ')') = true)) := by
  refine ⟨⟨?_, ?_⟩, ?_, ?_⟩
  · rintro ⟨rest, h⟩
    exact isSome_scan_of_append h
  · intro h
    rcases isValid_completion h with h | h
    · exact ⟨_, h⟩
    · exact ⟨_, h⟩
  · intro h
    obtain ⟨s, hscan⟩ := Option.isSome_iff_exists.mp h
    exact ⟨(depth_of_scan hscan).1, isValid_completion h⟩
  · rintro ⟨-, h | h⟩
    · exact isSome_scan_of_append h
    · exact isSome_scan_of_append h

/-- Behind an operator an operand is missing, too. -/
example : isValid "2*(3-(4)+0)".toList = true ∧ isValid "2*(3-(4)+)".toList = false := by
  decide +kernel

end ExactCalc.Formula
