/-
A value in the place of a formula.

* `Replaces` — a text is accepted if another one is, with the same value in one pass;
* `replaces_operand` — an operand replaces a group with the same value, wherever the group stands;
* `replaces_flatMap` — the same for any number of places at once;
* `evaluate_replaceWord` — a word may be replaced by a formula between brackets or by the value of
  that formula.
-/
import ExactCalc.Proofs.Enclosing
import ExactCalc.Proofs.OnePass
import ExactCalc.Proofs.RoundTrip
import ExactCalc.Session
import Mathlib.Data.List.SplitBy

namespace ExactCalc.Formula

/-- The text `new` is accepted if `old` is, and then both have the same value in one pass. -/
def Replaces (old new : List Char) : Prop :=
  Scan.Accepts old → Scan.Accepts new ∧ onePass new = onePass old

theorem Replaces.refl (text : List Char) : Replaces text text :=
  fun h => ⟨h, rfl⟩

theorem Replaces.trans {u v w : List Char} (h : Replaces u v) (h' : Replaces v w) :
    Replaces u w := by
  intro hu
  obtain ⟨hv, heq⟩ := h hu
  obtain ⟨hw, heq'⟩ := h' hv
  exact ⟨hw, heq'.trans heq⟩

namespace Pass

theorem read_append (s : Pass) (u v : List Char) :
    s.read (u ++ v) = (u.foldlM step s).bind fun s' => s'.read v := by
  simp only [read, List.foldlM_append, Option.bind_eq_bind, Option.bind_assoc]

/-- No number is being read behind a character that is no digit. -/
theorem number?_of_step {s s' : Pass} {c : Char} (hc : c.isDigit = false) (h : s.step c = some s') :
    s'.number? = none := by
  rw [step, if_neg (by simp [hc])] at h
  split at h
  · cases h
    rfl
  · obtain ⟨s₁, hsettle, hact⟩ := Option.bind_eq_some_iff.mp h
    have hsettled : s₁.number? = none := by
      rw [settle] at hsettle
      split at hsettle
      · next hnone =>
        cases hsettle
        exact hnone
      · obtain ⟨t, -, rfl⟩ := Option.map_eq_some_iff.mp hsettle
        rfl
    rw [act] at hact
    split at hact
    · split at hact
      · cases hact
        exact hsettled
      · obtain ⟨t, -, rfl⟩ := Option.map_eq_some_iff.mp hact
        rfl
    · cases hact
      exact hsettled

/-- No number is being read where an operand is awaited. -/
theorem number?_of_awaitsOperand {text : List Char} {scan : Scan} {s : Pass}
    (hscan : Scan.initial.run text = some scan) (hp : scan.place.awaitsOperand = true)
    (h : text.foldlM step ⟨none, .initial, []⟩ = some s) : s.number? = none := by
  rcases List.eq_nil_or_concat text with rfl | ⟨before, c, rfl⟩
  · cases h
    rfl
  · rw [List.concat_eq_append] at hscan h
    obtain ⟨scan', hc⟩ := Scan.exists_reads_last hscan
    have hd : c.isDigit = false := by
      cases hc with
      | digit => cases hp
      | closing => cases hp
      | opening => rfl
      | sign => rfl
      | operator op => exact op.isDigit_symbol
    rw [List.foldlM_append] at h
    obtain ⟨s', -, hstep⟩ := Option.bind_eq_some_iff.mp h
    exact number?_of_step hd (by simpa using hstep)

/-- An operand counts by its value, if it ends where the text behind it begins. -/
theorem read_operand_append {p q : Derivation .operand} (h : p.tree.value? = q.tree.value?)
    {after : List Char} (ha : ∀ c ∈ after.head?, c.isDigit = false ∧ c ≠ '(') (t : Tally)
    (outer : List Tally) :
    read ⟨none, t, outer⟩ (p.text ++ after) = read ⟨none, t, outer⟩ (q.text ++ after) := by
  have hread : read ⟨none, t, outer⟩ p.text = read ⟨none, t, outer⟩ q.text := by
    rw [read_text p t outer, read_text q t outer, h]
  cases after with
  | nil => rw [List.append_nil, List.append_nil, hread]
  | cons c after =>
    obtain ⟨hd, ho⟩ := ha c rfl
    rw [read_append_cons _ _ _ hd ho, read_append_cons _ _ _ hd ho, hread]

end Pass

/-- Behind a closing bracket, no operand begins. -/
theorem Scan.head?_of_run_close {depth : Nat} {text : List Char} {s : Scan}
    (h : Scan.run ⟨.close, depth⟩ text = some s) :
    ∀ c ∈ text.head?, c.isDigit = false ∧ c ≠ '(' := by
  cases text with
  | nil =>
    rintro c ⟨⟩
  | cons c text =>
    rintro _ ⟨⟩
    obtain ⟨s₁, hc, -⟩ := exists_reads_of_run_cons h
    cases hc with
    | digit hd hp => exact absurd rfl hp
    | opening hp => cases hp
    | closing => exact ⟨rfl, by decide⟩
    | operator op => exact ⟨op.isDigit_symbol, op.symbol_ne_opening⟩

section Operand

variable {inner : Derivation .level} {p : Derivation .operand}
variable (h : p.tree.value? = inner.tree.value?)
include h

/-- **An operand replaces a group with the same value**, wherever the group stands. -/
theorem replaces_operand (before after : List Char) :
    Replaces (before ++ ((Derivation.group inner).text ++ after))
      (before ++ (p.text ++ after)) := by
  rintro ⟨s, hrun, hs⟩
  obtain ⟨⟨place, depth⟩, hbefore, hrun⟩ := Scan.exists_run_of_run_append hrun
  -- the bracket of the group says that an operand is awaited, so that a run of digits in its place
  -- does not grow together with what stands before it
  obtain ⟨s₁, hopen, -⟩ := Scan.exists_reads_of_run_cons hrun
  have hp : place.awaitsOperand = true := (Scan.reads_opening hopen).1
  obtain ⟨p₁, hp₁, hinner⟩ := Scan.run_text inner .start (depth + 1) rfl fun _ => rfl
  have hgroup : Scan.run ⟨place, depth⟩ (Derivation.group inner).text = some ⟨.close, depth⟩ :=
    Scan.run_group hp hp₁ hinner
  rw [Scan.run_append, hgroup, Option.bind_some] at hrun
  constructor
  · obtain ⟨p₂, hp₂, hoperand⟩ :=
      Scan.run_text p place depth hp fun h => absurd h Part.operand_ne_level
    obtain ⟨s', hafter, hs'⟩ := Scan.run_of_run_close hp₂ hs hrun
    refine ⟨s', ?_, hs'⟩
    rw [Scan.run_append, hbefore, Option.bind_some, Scan.run_append, hoperand, Option.bind_some,
      hafter]
  · have hvalue : p.tree.value? = (Derivation.group inner).tree.value? := by
      rw [h, Derivation.tree_group]
    have hread := Pass.read_operand_append hvalue (Scan.head?_of_run_close hrun)
    rw [onePass, onePass, Pass.read_append, Pass.read_append]
    cases hpass : before.foldlM Pass.step ⟨none, .initial, []⟩ with
    | none => rfl
    | some s₀ =>
      obtain ⟨number?, t, outer⟩ := s₀
      obtain rfl : number? = none := Pass.number?_of_awaitsOperand hbefore hp hpass
      rw [Option.bind_some, Option.bind_some, hread t outer]

/-- It does so in all places where a word stands. -/
theorem replaces_flatMap (word : List Char) (f : List Char → List Char)
    (pieces : List (List Char)) (before : List Char) :
    Replaces
      (before ++ pieces.flatMap fun piece =>
        if piece = word then (Derivation.group inner).text else f piece)
      (before ++ pieces.flatMap fun piece => if piece = word then p.text else f piece) := by
  induction pieces generalizing before with
  | nil => exact Replaces.refl _
  | cons piece pieces ih =>
    rw [List.flatMap_cons, List.flatMap_cons]
    by_cases hpiece : piece = word
    · rw [if_pos hpiece, if_pos hpiece]
      refine (replaces_operand h before _).trans ?_
      rw [← List.append_assoc, ← List.append_assoc]
      exact ih (before ++ p.text)
    · rw [if_neg hpiece, if_neg hpiece, ← List.append_assoc, ← List.append_assoc]
      exact ih (before ++ f piece)

end Operand

end ExactCalc.Formula

namespace ExactCalc

open Formula

theorem Text.dropBlanks_replaceWord (word replacement text : List Char) :
    dropBlanks (replaceWord word replacement text) =
      (chunks text).flatMap fun chunk =>
        if chunk = word then dropBlanks replacement else dropBlanks chunk := by
  rw [replaceWord, dropBlanks, List.filter_flatMap]
  refine congrArg (List.flatMap · _) (funext fun chunk => ?_)
  split <;> rfl

/-- A text without a word is left as it is. -/
theorem Text.replaceWord_of_not_mem {word text : List Char} (h : word ∉ chunks text)
    (replacement : List Char) : replaceWord word replacement text = text := by
  have hkeep : (chunks text).map (fun chunk => if chunk = word then replacement else chunk) =
      (chunks text).map id := by
    refine List.map_congr_left fun chunk hchunk => if_neg ?_
    rintro rfl
    exact h hchunk
  rw [replaceWord, List.flatMap_def, hkeep, List.map_id, chunks, List.flatten_splitBy]

theorem isValid_of_evaluate {text : List Char} {v : Int} (h : evaluate text = .ok v) :
    isValid text = true := by
  by_cases hvalid : isValid text = true
  · exact hvalid
  · rw [evaluate, Expr.parse, if_neg hvalid] at h
    cases h

/-- **A formula between brackets and its value do the same in the place of a word**, if all is a
formula with the brackets. -/
theorem evaluate_replaceWord {formula word text : List Char} {v : Int}
    (hv : evaluate formula = .ok v)
    (hvalid : isValid (Text.replaceWord word ('(' :: (formula ++ [')'])) text) = true) :
    isValid (Text.replaceWord word (Expr.literal v).printOperand text) = true ∧
      evaluate (Text.replaceWord word (Expr.literal v).printOperand text) =
        evaluate (Text.replaceWord word ('(' :: (formula ++ [')'])) text) := by
  obtain ⟨inner, hinner⟩ := isValid_iff_exists_derivation.mp (isValid_of_evaluate hv)
  rw [evaluate_of_derivation inner hinner] at hv
  have hvalue : (Expr.literal v).operandDerivation.tree.value? = inner.tree.value? := by
    rw [Expr.tree_operandDerivation, Expr.value?_literal, Expr.value?, hv]
    rfl
  have hgroup : Text.dropBlanks ('(' :: (formula ++ [')'])) = (Derivation.group inner).text := by
    rw [Derivation.text, hinner]
    simp [Text.dropBlanks, Text.isBlank]
  have hoperand : Text.dropBlanks (Expr.literal v).printOperand =
      (Expr.literal v).operandDerivation.text := by
    rw [← Expr.text_operandDerivation, Derivation.dropBlanks_text]
  have hreplaces := replaces_flatMap hvalue word Text.dropBlanks (Text.chunks text) []
  rw [List.nil_append, List.nil_append, ← hgroup, ← hoperand, ← Text.dropBlanks_replaceWord,
    ← Text.dropBlanks_replaceWord] at hreplaces
  obtain ⟨haccepts, hpass⟩ := hreplaces (isValid_iff_accepts.mp hvalid)
  have hvalid' := isValid_iff_accepts.mpr haccepts
  refine ⟨hvalid', ?_⟩
  rw [evaluate_eq_onePass hvalid', evaluate_eq_onePass hvalid, hpass]

end ExactCalc
