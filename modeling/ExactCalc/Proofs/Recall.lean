/-
What `ans` means in a session.

* `Entry`, `log` — the lines that a session comes to, with the replies to them;
* `source`, `expansion` — the text that `ans` stands for, and a line with that text in its place;
* `Sound` — an expansion is a formula, and so are those it is made of;
* `Replayed` — what the entries of a session have in common, from the first line on;
* `Replayed.evaluate_source` — the last result is the value of what `ans` stands for;
* `printed_iff_expansion` — what is printed for a line is what its expansion evaluates to.
-/
import ExactCalc.Proofs.Substitution

namespace ExactCalc.Session

/-! ### The entries of a session -/

/-- A line of a session, as it was read, and the reply to it. -/
structure Entry where
  bytes : List UInt8
  reply? : Option Reply
  deriving DecidableEq, Repr

/-- The value of a result. -/
def Reply.value? : Reply → Option Int
  | .result value => some value
  | _ => none

/-- The reply that comes with a step. -/
def Step.reply? : Step → Option Reply
  | .stay _ reply? => reply?
  | .leave reply? => reply?

namespace Entry

/-- The text of a line, without the blanks at its ends.  A line that is not UTF-8 has none. -/
def text (e : Entry) : List Char :=
  Text.trim ((Text.decode? e.bytes).getD [])

/-- What was printed for a line. -/
def printed (e : Entry) : Option String :=
  e.reply?.map Reply.text

/-- The result of a line, if it has one. -/
def result? (e : Entry) : Option Int :=
  e.reply?.bind Reply.value?

end Entry

/-- All lines that a session comes to, up to the one that ends it. -/
def log (ans : Int) : List (List UInt8) → List Entry
  | [] => []
  | line :: rest =>
    ⟨line, (step ans line).reply?⟩ ::
      match step ans line with
      | .stay next _ => log next rest
      | .leave _ => []

/-- The replies of a session are those to its entries. -/
theorem replies_eq_log (ans : Int) (lines : List (List UInt8)) :
    replies ans lines = (log ans lines).filterMap Entry.reply? := by
  induction lines generalizing ans with
  | nil => rfl
  | cons line rest ih =>
    rw [replies, log]
    cases step ans line with
    | stay next reply? => cases reply? <;> simp [Step.reply?, ih]
    | leave reply? => cases reply? <;> simp [Step.reply?]

theorem transcript_eq_log (input : List UInt8) :
    transcript input = (log 0 (Text.lines input)).filterMap Entry.reply? :=
  replies_eq_log 0 (Text.lines input)

/-! ### Expansions -/

/-- A line with a text between brackets in the place of each `ans`. -/
def expand (text line : List Char) : List Char :=
  Text.replaceWord ansWord ('(' :: (text ++ [')'])) line

/-- What `ans` stands for behind a history: the expansion of the last line with a result. -/
def source : List Entry → List Char
  | [] => ['0']
  -- the latest entry comes first, so what its line refers to is the rest
  | e :: history => if e.result?.isSome then expand (source history) e.text else source history

/-- A line behind a history with what `ans` stands for in the place of `ans`. -/
def expansion (history : List Entry) (line : List Char) : List Char :=
  expand (source history) line

/-- What `ans` stands for is a formula, and so is all it is made of. -/
def SourceSound : List Entry → Prop
  | [] => True
  | e :: history =>
    if e.result?.isSome then
      Formula.isValid (expansion history e.text) = true ∧
        (ansWord ∈ Text.chunks e.text → SourceSound history)
    else SourceSound history

/-- The expansion of a line is a formula, and so are those it is made of. -/
def Sound (history : List Entry) (line : List Char) : Prop :=
  Formula.isValid (expansion history line) = true ∧
    (ansWord ∈ Text.chunks line → SourceSound history)

/-! ### One line -/

/-- The last result in a history. -/
def lastResult : List Entry → Int
  | [] => 0
  | e :: history => e.result?.getD (lastResult history)

/-- A step keeps the last result, unless it has a result itself. -/
theorem eq_of_step_stay {ans next : Int} {line : List UInt8} {reply? : Option Reply}
    (h : step ans line = .stay next reply?) : next = (reply?.bind Reply.value?).getD ans := by
  rw [step] at h
  split at h
  · rw [answer] at h
    split at h
    · cases h
      rfl
    split at h
    · cases h
    simp only at h
    split at h
    · cases h
      rw [treeReply]
      split <;> rfl
    · rw [evaluateStep] at h
      split at h <;> cases h <;> rfl
  · cases h

/-- A formula is no command. -/
theorem step_of_isValid {ans : Int} {e : Entry}
    (h : Formula.isValid (substitute ans e.text) = true) :
    step ans e.bytes = evaluateStep ans (substitute ans e.text) := by
  rw [Entry.text] at h ⊢
  rw [step]
  cases hdecode : Text.decode? e.bytes with
  | none =>
    rw [hdecode] at h
    cases h
  | some line =>
    rw [hdecode, Option.getD_some] at h
    simp only [Option.getD_some]
    have hblank : Text.trim line ≠ [] := by
      intro hnil
      rw [hnil] at h
      cases h
    have hexit : Text.trim line ∉ exitCommands := by
      intro hmem
      rcases List.mem_pair.mp hmem with hexit | hquit
      · rw [hexit] at h
        cases h
      · rw [hquit] at h
        cases h
    have htree : ¬treeCommand.isPrefixOf (substitute ans (Text.trim line)) = true := by
      intro hprefix
      obtain ⟨rest, hrest⟩ := List.isPrefixOf_iff_prefix.mp hprefix
      rw [← hrest] at h
      cases h
    rw [answer, if_neg hblank, if_neg hexit, if_neg htree]

theorem reply?_evaluateStep (ans : Int) (text : List Char) :
    (evaluateStep ans text).reply? =
      some (match evaluate text with
        | .ok value => .result value
        | .error f => .failure f) := by
  rw [evaluateStep]
  cases evaluate text <;> rfl

/-- What `ans` stands for has the value of the last result, or it does not matter. -/
theorem evaluate_substitute {history : List Entry} {line : List Char}
    (hans : ansWord ∈ Text.chunks line → evaluate (source history) = .ok (lastResult history))
    (hvalid : Formula.isValid (expansion history line) = true) :
    Formula.isValid (substitute (lastResult history) line) = true ∧
      evaluate (substitute (lastResult history) line) = evaluate (expansion history line) := by
  by_cases hmem : ansWord ∈ Text.chunks line
  · exact evaluate_replaceWord (hans hmem) hvalid
  · have hsame : substitute (lastResult history) line = expansion history line := by
      rw [substitute, expansion, expand]
      exact (Text.replaceWord_of_not_mem hmem _).trans (Text.replaceWord_of_not_mem hmem _).symm
    rw [hsame]
    exact ⟨hvalid, rfl⟩

/-! ### Whole sessions -/

/-- Each entry of a history is the reply to its line behind the entries before it. -/
def Replayed : List Entry → Prop
  | [] => True
  | e :: history => e.reply? = (step (lastResult history) e.bytes).reply? ∧ Replayed history

/-- **A session replays its entries**, from any history on. -/
theorem Replayed.log {history earlier later : List Entry} {lines : List (List UInt8)}
    (h : Replayed history) (hlog : log (lastResult history) lines = earlier ++ later) :
    Replayed (earlier.reverse ++ history) := by
  induction earlier generalizing history lines with
  | nil => exact h
  | cons e earlier ih =>
    cases lines with
    | nil => cases hlog
    | cons line rest =>
      rw [Session.log] at hlog
      obtain ⟨rfl, htail⟩ := List.cons.inj hlog
      have hreplayed : Replayed (⟨line, (step (lastResult history) line).reply?⟩ :: history) :=
        ⟨rfl, h⟩
      rw [List.reverse_cons, List.append_assoc]
      cases hstep : step (lastResult history) line with
      | stay next reply? =>
        rw [hstep] at htail hreplayed
        have hnext : next = lastResult (⟨line, reply?⟩ :: history) := eq_of_step_stay hstep
        rw [hnext] at htail
        exact ih hreplayed htail
      | leave reply? =>
        rw [hstep] at htail hreplayed
        obtain ⟨rfl, -⟩ := List.append_eq_nil_iff.mp htail.symm
        exact hreplayed

/-- The reply to a line whose expansion is a formula. -/
theorem Replayed.reply?_eq {history : List Entry} {e : Entry} (h : Replayed (e :: history))
    (hans : ansWord ∈ Text.chunks e.text → evaluate (source history) = .ok (lastResult history))
    (hvalid : Formula.isValid (expansion history e.text) = true) :
    e.reply? = some (match evaluate (expansion history e.text) with
      | .ok value => .result value
      | .error f => .failure f) := by
  obtain ⟨hvalid', heq⟩ := evaluate_substitute hans hvalid
  rw [h.1, step_of_isValid hvalid', reply?_evaluateStep, heq]

/-- **The last result is the value of what `ans` stands for.** -/
theorem Replayed.evaluate_source {history : List Entry} (h : Replayed history)
    (hs : SourceSound history) : evaluate (source history) = .ok (lastResult history) := by
  induction history with
  | nil => exact Expr.evaluate_print (.literal 0)
  | cons e history ih =>
    rw [SourceSound] at hs
    rw [source, lastResult]
    cases hresult : e.result? with
    | none =>
      rw [hresult] at hs
      exact ih h.2 hs
    | some v =>
      rw [hresult] at hs
      have hreply := h.reply?_eq (fun hmem => ih h.2 (hs.2 hmem)) hs.1
      rw [Entry.result?, hreply, Option.bind_some] at hresult
      show evaluate (expansion history e.text) = .ok v
      cases hvalue : evaluate (expansion history e.text) with
      | ok value =>
        rw [hvalue] at hresult
        rw [Option.some.inj hresult]
      | error f =>
        rw [hvalue] at hresult
        cases hresult

/-! ### What is printed -/

namespace Reply

/-- Only a result is printed as one. -/
theorem text_eq_result {r : Reply} {v : Int} :
    r.text = "Result: " ++ String.ofList (Text.Numeral.ofInt v) ↔ r = .result v := by
  constructor
  · intro h
    have hlist := congrArg String.toList h
    cases r with
    | result value =>
      simp only [text, String.toList_append, String.toList_ofList, List.append_cancel_left_eq]
        at hlist
      rw [Text.Numeral.ofInt_injective hlist]
    | tree e => simp [text, Expr.describe] at hlist
    | failure f => simp [text] at hlist
    | undecodable => simp [text] at hlist
  · rintro rfl
    rfl

/-- The messages of the three causes begin with different letters. -/
theorem head?_message (f : Failure) :
    f.message.toList.head? = some (match f with
      | .invalid _ => 'i'
      | .malformed _ => 'm'
      | .divisionByZero => 'd') := by
  cases f with
  | invalid line =>
    have hhead : "invalid expression '".toList.head? = some 'i' := by decide +kernel
    show ("invalid expression '" ++ String.ofList line ++ "'").toList.head? = some 'i'
    simp only [String.toList_append, List.head?_append, hhead, Option.some_or]
  | malformed line =>
    have hhead : "malformed expression '".toList.head? = some 'm' := by decide +kernel
    show ("malformed expression '" ++ String.ofList line ++ "'").toList.head? = some 'm'
    simp only [String.toList_append, List.head?_append, hhead, Option.some_or]
  | divisionByZero =>
    show "division by zero".toList.head? = some 'd'
    decide +kernel

/-- Only a division by zero is printed as one. -/
theorem text_eq_divisionByZero {r : Reply} :
    r.text = "Error: division by zero" ↔ r = .failure .divisionByZero := by
  have hcut : "Error: division by zero" = (failure .divisionByZero).text := by decide +kernel
  rw [hcut]
  constructor
  · intro h
    have hlist := congrArg String.toList h
    cases r with
    | result value => simp [text] at hlist
    | tree e => simp [text, Expr.describe] at hlist
    | failure f =>
      rw [text, text, String.toList_append, String.toList_append, List.append_cancel_left_eq]
        at hlist
      have hhead := congrArg List.head? hlist
      rw [head?_message, head?_message] at hhead
      cases f with
      | divisionByZero => rfl
      | invalid line => simp at hhead
      | malformed line => simp at hhead
    | undecodable => exact absurd hlist (by decide +kernel)
  · rintro rfl
    rfl

end Reply

/-- **In a session, `ans` means the last expression that had a result, between brackets.**  A line
whose expansion is a formula has the value of the expansion as its result, or a division by zero. -/
theorem printed_iff_expansion (input : List UInt8) :
    transcript input = (log 0 (Text.lines input)).filterMap Entry.reply? ∧
      ∀ (earlier later : List Entry) (e : Entry),
        log 0 (Text.lines input) = earlier ++ e :: later → Sound earlier.reverse e.text →
          (∀ v : Int, e.printed = some ("Result: " ++ String.ofList (Text.Numeral.ofInt v)) ↔
            evaluate (expansion earlier.reverse e.text) = .ok v) ∧
          (e.printed = some "Error: division by zero" ↔
            evaluate (expansion earlier.reverse e.text) = .error .divisionByZero) := by
  refine ⟨transcript_eq_log input, fun earlier later e hlog hsound => ?_⟩
  have hreplayed : Replayed (e :: earlier.reverse) := by
    have hstart : log (lastResult []) (Text.lines input) = (earlier ++ [e]) ++ later := by
      rw [List.append_assoc]
      exact hlog
    have hempty : Replayed [] := trivial
    simpa using hempty.log hstart
  have hreply := hreplayed.reply?_eq
    (fun hmem => hreplayed.2.evaluate_source (hsound.2 hmem)) hsound.1
  rw [Entry.printed, hreply, Option.map_some]
  simp only [Option.some.injEq, Reply.text_eq_result, Reply.text_eq_divisionByZero]
  cases evaluate (expansion earlier.reverse e.text) with
  | ok value => simp
  | error f => simp

/-- A negative result is recalled twice, with a line between that has none. -/
theorem printed_iff_expansion_twice :
    ∃ (earlier : List Entry) (e : Entry),
      log 0 (Text.lines (Text.encode "2-5\n1/0\n-ans*(ans-1)".toList)) = earlier ++ e :: [] ∧
        expansion earlier.reverse e.text = "-(2-5)*((2-5)-1)".toList ∧
        e.printed = some "Result: -12" := by
  have hlog : log 0 (Text.lines (Text.encode "2-5\n1/0\n-ans*(ans-1)".toList)) =
      [⟨Text.encode "2-5".toList, some (.result (-3))⟩,
        ⟨Text.encode "1/0".toList, some (.failure .divisionByZero)⟩] ++
      ⟨Text.encode "-ans*(ans-1)".toList, some (.result (-12))⟩ :: [] := by
    decide +kernel
  have hexpansion : expansion
      [⟨Text.encode "1/0".toList, some (.failure .divisionByZero)⟩,
        ⟨Text.encode "2-5".toList, some (.result (-3))⟩]
      (Entry.text ⟨Text.encode "-ans*(ans-1)".toList, some (.result (-12))⟩) =
        "-(2-5)*((2-5)-1)".toList := by
    decide +kernel
  have hvalid : Formula.isValid "-(2-5)*((2-5)-1)".toList = true := by decide +kernel
  have hvalue : evaluate "-(2-5)*((2-5)-1)".toList = .ok (-12) := by
    have hpass : Formula.onePass (Text.dropBlanks "-(2-5)*((2-5)-1)".toList) = some (-12) := by
      decide +kernel
    rw [evaluate_eq_onePass hvalid, hpass]
    rfl
  have hsource : SourceSound
      [⟨Text.encode "1/0".toList, some (.failure .divisionByZero)⟩,
        ⟨Text.encode "2-5".toList, some (.result (-3))⟩] := by
    refine ⟨?_, fun _ => trivial⟩
    decide +kernel
  refine ⟨_, _, hlog, hexpansion, ?_⟩
  have hprinted := ((printed_iff_expansion _).2 _ _ _ hlog
    ⟨(congrArg Formula.isValid hexpansion).trans hvalid, fun _ => hsource⟩).1 (-12)
  exact hprinted.mpr ((congrArg evaluate hexpansion).trans hvalue)

end ExactCalc.Session
