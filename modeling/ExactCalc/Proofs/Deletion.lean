/-
Lines without a result leave no trace.

* `Text.unlines`, `Text.dropLine` — lines as one input again, and an input less one of its lines;
* `stateAfter` — the last result that a session has behind some lines;
* `GoesOn` — a line is a text, and no command to leave;
* `Entry.PrintsResult`, `IsLastPrinted` — what is printed as a result, and what was printed last;
* `log_eraseIdx` — a line that has no result may be left out;
* `transcript_dropLine` — then the other lines have the replies that they had.
-/
import ExactCalc.Proofs.Recall

namespace ExactCalc

namespace Text

/-! ### Lines of an input -/

/-- Lines as one input, with a line feed behind each. -/
def unlines (ls : List (List UInt8)) : List UInt8 :=
  ls.flatMap fun line => line ++ [10]

/-- An input less one of its lines, counted from zero. -/
def dropLine (i : Nat) (input : List UInt8) : List UInt8 :=
  unlines ((lines input).eraseIdx i)

theorem feed_not_mem_of_mem_lines {input line : List UInt8} (h : line ∈ lines input) :
    10 ∉ line := by
  induction input generalizing line with
  | nil => cases h
  | cons b rest ih =>
    rw [lines] at h
    split at h
    · rcases List.mem_cons.mp h with rfl | h
      · exact List.not_mem_nil
      · exact ih h
    · next hb =>
      cases hrest : lines rest with
      | nil =>
        rw [hrest] at h
        obtain rfl := List.mem_singleton.mp h
        simpa using Ne.symm hb
      | cons first more =>
        rw [hrest] at h ih
        rcases List.mem_cons.mp h with rfl | h
        · have hfirst := ih List.mem_cons_self
          simpa [hfirst] using Ne.symm hb
        · exact ih (List.mem_cons_of_mem first h)

theorem lines_append_feed {line : List UInt8} (h : 10 ∉ line) (rest : List UInt8) :
    lines (line ++ 10 :: rest) = line :: lines rest := by
  induction line with
  | nil => exact lines_feed rest
  | cons b line ih =>
    have hb : b ≠ 10 := fun heq => h (by simp [heq])
    have hline : 10 ∉ line := fun hmem => h (List.mem_cons_of_mem b hmem)
    rw [List.cons_append, lines, if_neg hb, ih hline]

theorem lines_unlines {ls : List (List UInt8)} (h : ∀ line ∈ ls, 10 ∉ line) :
    lines (unlines ls) = ls := by
  induction ls with
  | nil => rfl
  | cons line ls ih =>
    have hcut : unlines (line :: ls) = line ++ 10 :: unlines ls := by simp [unlines]
    rw [hcut, lines_append_feed (h line List.mem_cons_self),
      ih fun line' hmem => h line' (List.mem_cons_of_mem line hmem)]

/-- All lines but the one that is dropped are as before. -/
@[simp]
theorem lines_dropLine (i : Nat) (input : List UInt8) :
    lines (dropLine i input) = (lines input).eraseIdx i :=
  lines_unlines fun _ hmem => feed_not_mem_of_mem_lines (List.mem_of_mem_eraseIdx hmem)

end Text

namespace Session

variable {ans next : Int} {line : List UInt8} {before : List (List UInt8)}

/-! ### Lines that do not end a session -/

/-- The last result behind a step, unless the session ends there. -/
def Step.next? : Step → Option Int
  | .stay next _ => some next
  | .leave _ => none

/-- The last result of a session behind some lines, unless it ends there. -/
def stateAfter (ans : Int) : List (List UInt8) → Option Int
  | [] => some ans
  | line :: rest => (step ans line).next?.bind fun next => stateAfter next rest

/-- A line is a text, and no command to leave. -/
def GoesOn (line : List UInt8) : Prop :=
  ∃ text, Text.decode? line = some text ∧ Text.trim text ∉ exitCommands

/-- The step for a line that does not end the session.  Only a blank line has no reply. -/
theorem GoesOn.exists_step (h : GoesOn line) (ans : Int) :
    ∃ reply?, step ans line = .stay ((reply?.bind Reply.value?).getD ans) reply? ∧
      (reply? = none ↔ Text.trim ((Text.decode? line).getD []) = []) := by
  obtain ⟨text, hdecode, hexit⟩ := h
  have hstep : ∃ next reply?, step ans line = .stay next reply? ∧
      (reply? = none ↔ Text.trim text = []) := by
    simp only [step, hdecode, answer, if_neg hexit]
    split
    · next hblank => exact ⟨ans, none, rfl, by simp [hblank]⟩
    · next hblank =>
      split
      · exact ⟨_, _, rfl, by simp [hblank]⟩
      · rw [evaluateStep]
        split <;> exact ⟨_, _, rfl, by simp [hblank]⟩
  obtain ⟨next, reply?, hstep, hnone⟩ := hstep
  refine ⟨reply?, ?_, by rw [hdecode]; exact hnone⟩
  rw [hstep, eq_of_step_stay hstep]

theorem stateAfter_cons {reply? : Option Reply} (h : step ans line = .stay next reply?)
    (rest : List (List UInt8)) : stateAfter ans (line :: rest) = stateAfter next rest := by
  rw [stateAfter, h]
  rfl

theorem log_cons {reply? : Option Reply} (h : step ans line = .stay next reply?)
    (rest : List (List UInt8)) : log ans (line :: rest) = ⟨line, reply?⟩ :: log next rest := by
  rw [log, h]
  rfl

/-- A session that goes on behind some lines goes on behind the first of them. -/
theorem exists_step_of_stateAfter {rest : List (List UInt8)} {last : Int}
    (h : stateAfter ans (line :: rest) = some last) :
    ∃ next reply?, step ans line = .stay next reply? ∧ stateAfter next rest = some last := by
  cases hstep : step ans line with
  | stay next reply? =>
    rw [stateAfter_cons hstep] at h
    exact ⟨next, reply?, rfl, h⟩
  | leave reply? =>
    rw [stateAfter, hstep] at h
    cases h

theorem exists_stateAfter (h : ∀ line ∈ before, GoesOn line) (ans : Int) :
    ∃ next, stateAfter ans before = some next := by
  induction before generalizing ans with
  | nil => exact ⟨ans, rfl⟩
  | cons line rest ih =>
    obtain ⟨reply?, hstep, -⟩ := (h line List.mem_cons_self).exists_step ans
    rw [stateAfter_cons hstep]
    exact ih (fun line' hmem => h line' (List.mem_cons_of_mem line hmem)) _

/-- Behind some lines a session goes on with the last result that they lead to. -/
theorem log_append (h : stateAfter ans before = some next) (after : List (List UInt8)) :
    log ans (before ++ after) = log ans before ++ log next after := by
  induction before generalizing ans with
  | nil =>
    cases h
    rfl
  | cons line rest ih =>
    obtain ⟨next', reply?, hstep, hrest⟩ := exists_step_of_stateAfter h
    rw [List.cons_append, log_cons hstep, log_cons hstep, ih hrest, List.cons_append]

/-- A session that no line ends comes to all its lines. -/
theorem map_bytes_log {ls : List (List UInt8)} (h : ∀ line ∈ ls, GoesOn line) (ans : Int) :
    (log ans ls).map Entry.bytes = ls := by
  induction ls generalizing ans with
  | nil => rfl
  | cons line rest ih =>
    obtain ⟨reply?, hstep, -⟩ := (h line List.mem_cons_self).exists_step ans
    rw [log_cons hstep, List.map_cons,
      ih fun line' hmem => h line' (List.mem_cons_of_mem line hmem)]

/-! ### What is printed last -/

/-- A value is printed for a line as its result. -/
def Entry.PrintsResult (e : Entry) (v : Int) : Prop :=
  e.printed = some ("Result: " ++ String.ofList (Text.Numeral.ofInt v))

theorem Entry.printsResult_iff {e : Entry} {v : Int} : e.PrintsResult v ↔ e.result? = some v := by
  rw [PrintsResult, printed, result?, Option.map_eq_some_iff, Option.bind_eq_some_iff]
  constructor
  · rintro ⟨r, hr, htext⟩
    exact ⟨r, hr, by rw [Reply.text_eq_result.mp htext]; rfl⟩
  · rintro ⟨r, hr, hvalue⟩
    refine ⟨r, hr, Reply.text_eq_result.mpr ?_⟩
    cases r with
    | result value => exact congrArg Reply.result (Option.some.inj hvalue)
    | tree | failure | undecodable => cases hvalue

theorem Entry.result?_eq_none_iff {e : Entry} : e.result? = none ↔ ∀ v, ¬e.PrintsResult v := by
  simp only [printsResult_iff, Option.eq_none_iff_forall_ne_some, ne_eq]

/-- A value is the last one that was printed as a result, or it is zero and there was none. -/
def IsLastPrinted (entries : List Entry) (ans : Int) : Prop :=
  (∃ earlier e later, entries = earlier ++ e :: later ∧ e.PrintsResult ans ∧
    ∀ e' ∈ later, ∀ v, ¬e'.PrintsResult v) ∨
  (ans = 0 ∧ ∀ e ∈ entries, ∀ v, ¬e.PrintsResult v)

theorem isLastPrinted_lastResult (history : List Entry) :
    IsLastPrinted history.reverse (lastResult history) := by
  induction history with
  | nil => exact .inr ⟨rfl, fun e he => by cases he⟩
  | cons e history ih =>
    rw [List.reverse_cons, lastResult]
    cases hresult : e.result? with
    | some v =>
      refine .inl ⟨history.reverse, e, [], rfl, Entry.printsResult_iff.mpr hresult, ?_⟩
      intro e' he'
      cases he'
    | none =>
      have hadd : ∀ {entries : List Entry}, (∀ e' ∈ entries, ∀ v, ¬e'.PrintsResult v) →
          ∀ e' ∈ entries ++ [e], ∀ v, ¬e'.PrintsResult v := by
        intro entries hentries e' he'
        rcases List.mem_append.mp he' with he' | he'
        · exact hentries e' he'
        · obtain rfl := List.mem_singleton.mp he'
          exact Entry.result?_eq_none_iff.mp hresult
      rcases ih with ⟨earlier, e₀, later, heq, hprints, hlater⟩ | ⟨hzero, hall⟩
      · exact .inl ⟨earlier, e₀, later ++ [e], by simp [heq], hprints, hadd hlater⟩
      · exact .inr ⟨hzero, hadd hall⟩

/-- The last result behind some lines is the one in their log. -/
theorem lastResult_log (history : List Entry)
    (h : stateAfter (lastResult history) before = some next) :
    lastResult ((log (lastResult history) before).reverse ++ history) = next := by
  induction before generalizing history with
  | nil => exact Option.some.inj h
  | cons line rest ih =>
    obtain ⟨next', reply?, hstep, hrest⟩ := exists_step_of_stateAfter h
    have hnext : next' = lastResult (⟨line, reply?⟩ :: history) := eq_of_step_stay hstep
    rw [hnext] at hrest
    rw [log_cons hstep, hnext, List.reverse_cons, List.append_assoc]
    exact ih _ hrest

theorem isLastPrinted_of_stateAfter (h : stateAfter 0 before = some next) :
    IsLastPrinted (log 0 before) next := by
  have hlast := lastResult_log [] h
  rw [List.append_nil] at hlast
  have hprinted := isLastPrinted_lastResult (log 0 before).reverse
  rw [List.reverse_reverse] at hprinted
  exact hlast ▸ hprinted

/-! ### A line less -/

/-- Where a session is at an entry of its log: it comes there with the last result `last`, and the
lines that follow are `rest`. -/
structure IsCut (ans : Int) (ls : List (List UInt8)) (earlier : List Entry) (e : Entry)
    (last : Int) (rest : List (List UInt8)) : Prop where
  lines : ls = earlier.map Entry.bytes ++ e.bytes :: rest
  stateAfter : stateAfter ans (earlier.map Entry.bytes) = some last
  log : log ans (earlier.map Entry.bytes) = earlier

theorem exists_isCut {ls : List (List UInt8)} {earlier later : List Entry} {e : Entry}
    (h : log ans ls = earlier ++ e :: later) :
    ∃ last rest, IsCut ans ls earlier e last rest ∧ log last (e.bytes :: rest) = e :: later := by
  induction earlier generalizing ans ls with
  | nil =>
    cases ls with
    | nil => cases h
    | cons line rest =>
      obtain rfl : line = e.bytes := congrArg Entry.bytes (List.cons.inj h).1
      exact ⟨ans, rest, ⟨rfl, rfl, rfl⟩, h⟩
  | cons e₀ earlier ih =>
    cases ls with
    | nil => cases h
    | cons line ls =>
      cases hstep : step ans line with
      | stay next reply? =>
        rw [log_cons hstep, List.cons_append] at h
        obtain ⟨rfl, htail⟩ := List.cons.inj h
        obtain ⟨last, rest, hcut, hrest⟩ := ih htail
        refine ⟨last, rest, ⟨by simp [hcut.lines], ?_, ?_⟩, hrest⟩
        · rw [List.map_cons, stateAfter_cons hstep, hcut.stateAfter]
        · rw [List.map_cons, log_cons hstep, hcut.log]
      | leave reply? =>
        -- nothing comes behind the line that ends the session
        rw [log, hstep] at h
        have hnil := (List.cons.inj h).2
        simp at hnil

/-- **A line that has no result may be left out of a session**, and all other entries stay. -/
theorem log_eraseIdx {ls : List (List UInt8)} {earlier later : List Entry} {e : Entry}
    (hlog : log ans ls = earlier ++ e :: later) (hline : GoesOn e.bytes)
    (hnone : e.result? = none) :
    log ans (ls.eraseIdx earlier.length) = earlier ++ later ∧
      (e.reply? = none ↔ e.text = []) := by
  obtain ⟨last, rest, hcut, hrest⟩ := exists_isCut hlog
  obtain ⟨reply?, hstep, hblank⟩ := hline.exists_step last
  rw [log_cons hstep] at hrest
  obtain ⟨he, hlater⟩ := List.cons.inj hrest
  obtain rfl : reply? = e.reply? := congrArg Entry.reply? he
  refine ⟨?_, hblank⟩
  -- the step keeps the last result, so the later lines find what they found before
  have hvalue : e.reply?.bind Reply.value? = none := hnone
  rw [hvalue, Option.getD_none] at hlater
  have herase : ls.eraseIdx earlier.length = earlier.map Entry.bytes ++ rest := by
    rw [hcut.lines, List.eraseIdx_append_of_length_le (by simp)]
    simp
  rw [herase, log_append hcut.stateAfter, hcut.log, hlater]

/-- **A line without a result leaves no trace.**  An input less a line for which no result is
printed has the replies to all other lines, which are as before.  At any line the last result is the
value that was printed last as one.  Each line is come to, if none ends the session. -/
theorem transcript_dropLine (input : List UInt8) :
    ((∀ line ∈ Text.lines input, GoesOn line) →
      (log 0 (Text.lines input)).map Entry.bytes = Text.lines input) ∧
    (∀ (earlier later : List Entry) (e : Entry),
      log 0 (Text.lines input) = earlier ++ e :: later → GoesOn e.bytes →
        (∀ v, ¬e.PrintsResult v) →
          transcript input = earlier.filterMap Entry.reply? ++
            (e.reply?.toList ++ later.filterMap Entry.reply?) ∧
          transcript (Text.dropLine earlier.length input) =
            earlier.filterMap Entry.reply? ++ later.filterMap Entry.reply? ∧
          log 0 (Text.lines (Text.dropLine earlier.length input)) = earlier ++ later ∧
          (e.reply? = none ↔ e.text = [])) ∧
    ∀ before after, Text.lines input = before ++ after → (∀ line ∈ before, GoesOn line) →
      ∃ ans, stateAfter 0 before = some ans ∧ IsLastPrinted (log 0 before) ans ∧
        transcript input = replies 0 before ++ replies ans after := by
  refine ⟨fun hopen => map_bytes_log hopen 0, ?_, ?_⟩
  · intro earlier later e hlog hline hprints
    obtain ⟨hlog', hblank⟩ := log_eraseIdx hlog hline (Entry.result?_eq_none_iff.mpr hprints)
    rw [← Text.lines_dropLine] at hlog'
    refine ⟨?_, ?_, hlog', hblank⟩
    · rw [transcript_eq_log, hlog, List.filterMap_append, List.filterMap_cons]
      cases e.reply? <;> rfl
    · rw [transcript_eq_log, hlog', List.filterMap_append]
  · intro before after hls hbefore
    obtain ⟨ans, hans⟩ := exists_stateAfter hbefore 0
    refine ⟨ans, hans, isLastPrinted_of_stateAfter hans, ?_⟩
    rw [transcript_eq_log, hls, log_append hans, List.filterMap_append, replies_eq_log,
      replies_eq_log]

/-- A division by zero and a tree come between a result and the line that recalls it. -/
theorem transcript_dropLine_between :
    transcript (Text.encode "2-5\n1/0\n:tree ans\nans*2".toList) =
        [.result (-3), .failure .divisionByZero, .tree (.literal (-3)), .result (-6)] ∧
      transcript (Text.dropLine 1 (Text.encode "2-5\n1/0\n:tree ans\nans*2".toList)) =
        [.result (-3), .tree (.literal (-3)), .result (-6)] ∧
      IsLastPrinted (log 0 [Text.encode "2-5".toList, Text.encode "1/0".toList]) (-3) := by
  have hlog : log 0 (Text.lines (Text.encode "2-5\n1/0\n:tree ans\nans*2".toList)) =
      [⟨Text.encode "2-5".toList, some (.result (-3))⟩] ++
      ⟨Text.encode "1/0".toList, some (.failure .divisionByZero)⟩ ::
        [⟨Text.encode ":tree ans".toList, some (.tree (.literal (-3)))⟩,
          ⟨Text.encode "ans*2".toList, some (.result (-6))⟩] := by
    decide +kernel
  have hlines : Text.lines (Text.encode "2-5\n1/0\n:tree ans\nans*2".toList) =
      [Text.encode "2-5".toList, Text.encode "1/0".toList] ++
        [Text.encode ":tree ans".toList, Text.encode "ans*2".toList] := by
    decide +kernel
  have hfirst : GoesOn (Text.encode "2-5".toList) :=
    ⟨"2-5".toList, Text.decode?_encode _, by decide +kernel⟩
  have hsecond : GoesOn (Text.encode "1/0".toList) :=
    ⟨"1/0".toList, Text.decode?_encode _, by decide +kernel⟩
  have hprints : ∀ v, ¬Entry.PrintsResult
      ⟨Text.encode "1/0".toList, some (.failure .divisionByZero)⟩ v :=
    Entry.result?_eq_none_iff.mp rfl
  obtain ⟨-, hdrop, hstate⟩ :=
    transcript_dropLine (Text.encode "2-5\n1/0\n:tree ans\nans*2".toList)
  obtain ⟨htranscript, hdropped, -⟩ := hdrop _ _ _ hlog hsecond hprints
  have hbefore : ∀ line ∈ [Text.encode "2-5".toList, Text.encode "1/0".toList], GoesOn line := by
    intro line hmem
    rcases List.mem_pair.mp hmem with rfl | rfl
    · exact hfirst
    · exact hsecond
  obtain ⟨ans, hans, hlast, -⟩ := hstate _ _ hlines hbefore
  have hvalue : stateAfter 0 [Text.encode "2-5".toList, Text.encode "1/0".toList] = some (-3) := by
    decide +kernel
  obtain rfl : ans = -3 := Option.some.inj (hans.symm.trans hvalue)
  exact ⟨htranscript, hdropped, hlast⟩

end Session

end ExactCalc
