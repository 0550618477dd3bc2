/-
The framing of a session.

* `request?`, `requests` — what a line says, and what the lines of an input say one after the other,
  blank lines left out;
* `endsSession`, `processed`, `ending?` — the texts that are answered, and what ends the session;
* `Answers` — one reply for each text, in order;
* `Reply.IsFramed` — a reply is one line, headed on its channel by what it is;
* `converse`, `transcript_eq_converse` — a session is led by the requests alone;
* `requests_append`, `requests_line` — an input cut between two lines, and behind a line;
* `SameRequests` — two inputs say the same, whatever part of a line is written in front of them;
* `transcript_framed` — the replies to an input, and the changes to it that make no difference.
-/
import ExactCalc.Proofs.Adjacency
import ExactCalc.Proofs.Deletion
import ExactCalc.Proofs.Encoding

namespace ExactCalc

namespace Text

/-! ### Blanks at the ends of a text -/

/-- Blanks at the ends of a text do not count. -/
theorem trim_surround {front back : List Char} (hfront : ∀ c ∈ front, isBlank c = true)
    (hback : ∀ c ∈ back, isBlank c = true) (text : List Char) :
    trim (front ++ (text ++ back)) = trim text := by
  rw [trim, List.dropWhile_append_of_pos hfront, trim, List.dropWhile_append]
  split
  · next hblank =>
    have hnil : (back ++ []).dropWhile isBlank = [] := List.dropWhile_append_of_pos hback
    rw [List.append_nil] at hnil
    rw [List.isEmpty_iff.mp hblank, hnil]
  · have hreverse : ∀ c ∈ back.reverse, isBlank c = true := fun c hc =>
      hback c (List.mem_reverse.mp hc)
    rw [List.reverse_append, List.dropWhile_append_of_pos hreverse]

theorem mem_of_mem_trim {c : Char} {text : List Char} (h : c ∈ trim text) : c ∈ text := by
  have hdrop := (List.dropWhile_sublist isBlank).mem (List.mem_reverse.mp h)
  exact (List.dropWhile_sublist isBlank).mem (List.mem_reverse.mp hdrop)

/-- A replacement brings in no other characters than its own. -/
theorem mem_or_mem_of_mem_replaceWord {c : Char} {word replacement text : List Char}
    (h : c ∈ replaceWord word replacement text) : c ∈ replacement ∨ c ∈ text := by
  obtain ⟨chunk, hchunk, hc⟩ := List.mem_flatMap.mp h
  split at hc
  · exact .inl hc
  · right
    rw [← List.flatten_splitBy (fun a b => isWord a && isWord b) text]
    exact List.mem_flatten.mpr ⟨chunk, hchunk, hc⟩

/-- A line of bytes without a line feed is no text with one. -/
theorem feed_not_mem_of_decode? {line : List UInt8} {text : List Char} (h : 10 ∉ line)
    (hread : decode? line = some text) : '\n' ∉ text := by
  intro hmem
  rw [decode?_eq_some_iff.mp hread, encode_eq_flatMap] at h
  exact h (List.mem_flatMap.mpr ⟨'\n', hmem, by decide⟩)

theorem feed_not_mem_encode {text : List Char} (h : '\n' ∉ text) : 10 ∉ encode text := by
  intro hmem
  rw [encode_eq_flatMap] at hmem
  obtain ⟨c, hc, hb⟩ := List.mem_flatMap.mp hmem
  rcases Nat.lt_or_ge c.toNat 0x80 with hlt | hle
  · rw [utf8EncodeChar_of_lt hlt, List.mem_singleton] at hb
    have hnat := congrArg UInt8.toNat hb
    rw [UInt8.toNat_ofNat_of_lt' (by simp [UInt8.size]; omega)] at hnat
    have hchar : c = '\n' := Char.toNat_inj.mp hnat.symm
    exact h (hchar ▸ hc)
  · obtain ⟨b, rest, heq, hfirst, hrest⟩ := exists_utf8EncodeChar_of_le hle
    rw [heq] at hb
    rcases List.mem_cons.mp hb with rfl | hb
    · exact absurd hfirst (by decide)
    · exact absurd (hrest _ hb) (by decide)

end Text

namespace Session

variable {line : List Char}

/-! ### Replies -/

/-- A reply is one line, which says on its channel what it is. -/
structure Reply.IsFramed (r : Reply) : Prop where
  oneLine : '\n' ∉ r.text.toList
  heading : (r.channel = .output ∧
      ("Result: ".toList <+: r.text.toList ∨ "Tree: ".toList <+: r.text.toList)) ∨
    (r.channel = .error ∧ "Error: ".toList <+: r.text.toList)

theorem feed_not_mem_print (e : Expr) : '\n' ∉ e.print := by
  intro hmem
  have hblank : Text.dropBlanks e.print = e.print := by
    rw [← Expr.text_derivation, Formula.Derivation.dropBlanks_text]
  exact absurd (Text.dropBlanks_eq_self.mp hblank _ hmem) (by decide)

theorem feed_not_mem_toString (n : Nat) : '\n' ∉ (toString n).toList := by
  intro hmem
  have hdigits : (toString n).toList = Nat.toDigits 10 n := by
    simp [toString, Nat.repr]
  rw [hdigits] at hmem
  exact absurd (Nat.isDigit_of_mem_toDigits (by decide) (by decide) hmem) (by decide)

theorem feed_not_mem_append {s t : String} (hs : '\n' ∉ s.toList) (ht : '\n' ∉ t.toList) :
    '\n' ∉ (s ++ t).toList := by
  rw [String.toList_append, List.mem_append, not_or]
  exact ⟨hs, ht⟩

theorem feed_not_mem_ofList (h : '\n' ∉ line) : '\n' ∉ (String.ofList line).toList := by
  rwa [String.toList_ofList]

theorem feed_not_mem_describe (e : Expr) : '\n' ∉ e.describe.toList := by
  have hprint := feed_not_mem_ofList (feed_not_mem_print e)
  refine feed_not_mem_append (feed_not_mem_append (feed_not_mem_append (feed_not_mem_append
    (feed_not_mem_append (feed_not_mem_append ?_ hprint) ?_) (feed_not_mem_toString e.depth)) ?_)
    (feed_not_mem_toString e.size)) ?_ <;> simp

namespace Reply

theorem isFramed_result (v : Int) : (result v).IsFramed where
  oneLine := feed_not_mem_append (by simp) (feed_not_mem_ofList (feed_not_mem_print (.literal v)))
  heading := .inl ⟨rfl, .inl (by simp [text])⟩

theorem isFramed_tree (e : Expr) : (tree e).IsFramed where
  oneLine := feed_not_mem_describe e
  heading := .inl ⟨rfl, .inr (by simp [text, Expr.describe])⟩

theorem isFramed_failure {f : Failure} (h : '\n' ∉ f.message.toList) : (failure f).IsFramed where
  oneLine := feed_not_mem_append (by simp) h
  heading := .inr ⟨rfl, by simp [text]⟩

theorem isFramed_undecodable : undecodable.IsFramed where
  oneLine := by decide
  heading := .inr ⟨rfl, by decide⟩

theorem isFramed_invalid (h : '\n' ∉ line) : (failure (.invalid line)).IsFramed :=
  isFramed_failure
    (feed_not_mem_append (feed_not_mem_append (by simp) (feed_not_mem_ofList h)) (by simp))

end Reply

/-- The last result brings no line feed into a line. -/
theorem feed_not_mem_substitute (ans : Int) (h : '\n' ∉ line) : '\n' ∉ substitute ans line := by
  intro hmem
  rcases Text.mem_or_mem_of_mem_replaceWord hmem with hoperand | hline
  · have hblank : Text.dropBlanks (Expr.literal ans).printOperand =
        (Expr.literal ans).printOperand := by
      rw [← Expr.text_operandDerivation, Formula.Derivation.dropBlanks_text]
    exact absurd (Text.dropBlanks_eq_self.mp hblank _ hoperand) (by decide)
  · exact h hline

theorem isFramed_treeReply (h : '\n' ∉ line) : (treeReply line).IsFramed := by
  rw [treeReply]
  by_cases hvalid : Formula.isValid line = true
  · obtain ⟨d, hd⟩ := Formula.isValid_iff_exists_derivation.mp hvalid
    rw [Formula.parse_of_derivation d hd]
    exact Reply.isFramed_tree d.tree
  · rw [Expr.parse, if_neg hvalid]
    exact Reply.isFramed_invalid h

theorem treeReply_ne_undecodable (line : List Char) : treeReply line ≠ .undecodable := by
  rw [treeReply]
  split <;> simp

/-- An expression is answered by its value or by a failure. -/
theorem exists_evaluateStep (ans : Int) (line : List Char) :
    ∃ next r, evaluateStep ans line = .stay next (some r) ∧ r ≠ .undecodable ∧
      ('\n' ∉ line → r.IsFramed) := by
  rw [evaluateStep]
  cases hvalid : Formula.isValid line with
  | true =>
    rcases evaluate_of_isValid hvalid with ⟨v, hv⟩ | hzero
    · rw [hv]
      exact ⟨v, _, rfl, by simp, fun _ => Reply.isFramed_result v⟩
    · rw [hzero]
      exact ⟨ans, _, rfl, by simp, fun _ => Reply.isFramed_failure (by decide +kernel)⟩
  | false =>
    rw [evaluate_of_not_isValid hvalid]
    exact ⟨ans, _, rfl, by simp, Reply.isFramed_invalid⟩

/-- A text that is neither blank nor a command to leave has one reply. -/
theorem exists_answer (ans : Int) (hblank : line ≠ []) (hexit : line ∉ exitCommands) :
    ∃ next r, answer ans line = .stay next (some r) ∧ r ≠ .undecodable ∧
      ('\n' ∉ line → r.IsFramed) := by
  rw [answer, if_neg hblank, if_neg hexit]
  dsimp only
  split
  · refine ⟨ans, _, rfl, treeReply_ne_undecodable _, fun h => isFramed_treeReply fun hmem => ?_⟩
    exact feed_not_mem_substitute ans h (List.mem_of_mem_drop hmem)
  · obtain ⟨next, r, hstep, hne, hframed⟩ := exists_evaluateStep ans (substitute ans line)
    exact ⟨next, r, hstep, hne, fun h => hframed (feed_not_mem_substitute ans h)⟩

/-! ### Requests -/

/-- What a line says, without the blanks at its ends.  A line that is not UTF-8 says nothing. -/
def request? (line : List UInt8) : Option (List Char) :=
  (Text.decode? line).map Text.trim

/-- What the lines of an input say, the blank lines left out. -/
def requests (input : List UInt8) : List (Option (List Char)) :=
  ((Text.lines input).map request?).filter fun request => request ≠ some []

/-- A line that is not UTF-8 ends a session, and so does a command to leave. -/
def endsSession : Option (List Char) → Bool
  | none => true
  | some text => exitCommands.contains text

theorem endsSession_some_iff {text : List Char} :
    endsSession (some text) = true ↔ text ∈ exitCommands :=
  List.contains_iff_mem

/-- The texts that a session has to answer, up to the one that ends it. -/
def processed (input : List UInt8) : List (List Char) :=
  ((requests input).takeWhile fun request => !endsSession request).filterMap id

/-- What ends a session before the end of its input. -/
def ending? (input : List UInt8) : Option (Option (List Char)) :=
  (requests input).find? endsSession

/-- The texts are answered one after the other, from a last result on, each by one reply. -/
inductive Answers : Int → List (List Char) → List Reply → Prop where
  | nil (ans : Int) : Answers ans [] []
  | cons {ans next : Int} {text : List Char} {texts : List (List Char)} {r : Reply}
      {rs : List Reply} (h : answer ans text = .stay next (some r))
      (hrest : Answers next texts rs) : Answers ans (text :: texts) (r :: rs)

/-- The replies to some requests. -/
def converse (ans : Int) : List (Option (List Char)) → List Reply
  | [] => []
  | none :: _ => [.undecodable]
  | some text :: rest =>
    match answer ans text with
    | .stay next reply? => reply?.toList ++ converse next rest
    | .leave reply? => reply?.toList

theorem answer_blank (ans : Int) : answer ans [] = .stay ans none := rfl

theorem answer_exit (ans : Int) (h : line ∈ exitCommands) : answer ans line = .leave none := by
  have hblank : line ≠ [] := by
    rintro rfl
    exact absurd h (by decide)
  rw [answer, if_neg hblank, if_pos h]

/-- **A session is led by what its lines say, and blank lines do not count.** -/
theorem replies_eq_converse (ans : Int) (ls : List (List UInt8)) :
    replies ans ls = converse ans ((ls.map request?).filter fun request => request ≠ some []) := by
  induction ls generalizing ans with
  | nil => rfl
  | cons line rest ih =>
    rw [replies, step, List.map_cons, request?]
    cases Text.decode? line with
    | none => simp [converse]
    | some text =>
      dsimp only
      by_cases hblank : Text.trim text = []
      · simp [hblank, answer_blank, ih]
      · rw [Option.map_some, List.filter_cons_of_pos (by simpa using hblank), converse]
        cases answer ans (Text.trim text) with
        | stay next reply? => simp only [ih]
        | leave reply? => rfl

theorem transcript_eq_converse (input : List UInt8) :
    transcript input = converse 0 (requests input) :=
  replies_eq_converse 0 (Text.lines input)

/-- What comes behind the end of a session has no influence. -/
theorem converse_append_of_endsSession {request : Option (List Char)}
    (h : endsSession request = true) (ans : Int)
    (earlier later later' : List (Option (List Char))) :
    converse ans (earlier ++ request :: later) = converse ans (earlier ++ request :: later') := by
  induction earlier generalizing ans with
  | nil =>
    cases request with
    | none => rfl
    | some text =>
      have hexit : text ∈ exitCommands := endsSession_some_iff.mp h
      rw [List.nil_append, List.nil_append, converse, converse, answer_exit ans hexit]
  | cons first earlier ih =>
    cases first with
    | none => rfl
    | some text =>
      rw [List.cons_append, List.cons_append, converse, converse]
      cases answer ans text with
      | stay next reply? => simp only [ih]
      | leave reply? => rfl

theorem Answers.length_eq {ans : Int} {texts : List (List Char)} {rs : List Reply}
    (h : Answers ans texts rs) : rs.length = texts.length := by
  induction h with
  | nil => rfl
  | cons _ _ ih => rw [List.length_cons, List.length_cons, ih]

/-- **Each text up to the end of a session has its reply**, and a line that is not UTF-8 has one,
too. -/
theorem exists_answers {rqs : List (Option (List Char))}
    (h : ∀ text, some text ∈ rqs → text ≠ [] ∧ '\n' ∉ text) (ans : Int) :
    ∃ rs, converse ans rqs =
        rs ++ (if rqs.find? endsSession = some none then [.undecodable] else []) ∧
      Answers ans ((rqs.takeWhile fun request => !endsSession request).filterMap id) rs ∧
      ∀ r ∈ rs, r ≠ .undecodable ∧ r.IsFramed := by
  induction rqs generalizing ans with
  | nil => exact ⟨[], rfl, .nil ans, nofun⟩
  | cons request rqs ih =>
    cases request with
    | none => exact ⟨[], rfl, .nil ans, nofun⟩
    | some text =>
      obtain ⟨hblank, hfeed⟩ := h text List.mem_cons_self
      by_cases hexit : text ∈ exitCommands
      · have hends : endsSession (some text) = true := endsSession_some_iff.mpr hexit
        refine ⟨[], ?_, ?_, nofun⟩
        · rw [converse, answer_exit ans hexit, List.find?_cons_of_pos hends, if_neg nofun]
          rfl
        · rw [List.takeWhile_cons_of_neg (by simp [hends])]
          exact .nil ans
      · have hends : endsSession (some text) = false :=
          Bool.eq_false_iff.mpr fun h => hexit (endsSession_some_iff.mp h)
        obtain ⟨next, r, hanswer, hne, hframed⟩ := exists_answer ans hblank hexit
        obtain ⟨rs, hrest, hanswers, hall⟩ :=
          ih (fun text' hmem => h text' (List.mem_cons_of_mem _ hmem)) next
        refine ⟨r :: rs, ?_, ?_, ?_⟩
        · rw [converse, hanswer, List.find?_cons_of_neg (by simp [hends])]
          simp [hrest]
        · rw [List.takeWhile_cons_of_pos (by simp [hends])]
          exact .cons hanswer hanswers
        · intro r' hr'
          rcases List.mem_cons.mp hr' with rfl | hr'
          · exact ⟨hne, hframed hfeed⟩
          · exact hall r' hr'

theorem mem_requests {input : List UInt8} {text : List Char} (h : some text ∈ requests input) :
    text ≠ [] ∧ '\n' ∉ text := by
  obtain ⟨hmem, hblank⟩ := List.mem_filter.mp h
  obtain ⟨bytes, hbytes, hrequest⟩ := List.mem_map.mp hmem
  obtain ⟨whole, hread, rfl⟩ := Option.map_eq_some_iff.mp hrequest
  refine ⟨by simpa using hblank, fun hfeed => ?_⟩
  exact Text.feed_not_mem_of_decode? (Text.feed_not_mem_of_mem_lines hbytes) hread
    (Text.mem_of_mem_trim hfeed)

end Session

/-! ### Cutting an input -/

namespace Text

/-- Behind these bytes a line begins. -/
def StartsLine (before : List UInt8) : Prop :=
  ∀ b ∈ before.getLast?, b = 10

/-- In front of these bytes a line ends. -/
def EndsLine (after : List UInt8) : Prop :=
  ∀ b ∈ after.head?, b = 10

/-- Blanks that end no line. -/
def IsPadding (text : List Char) : Prop :=
  ∀ c ∈ text, isBlank c = true ∧ c ≠ '\n'

instance (before : List UInt8) : Decidable (StartsLine before) :=
  Option.decidableForallMem before.getLast?

instance (after : List UInt8) : Decidable (EndsLine after) :=
  Option.decidableForallMem after.head?

instance (text : List Char) : Decidable (IsPadding text) :=
  List.decidableBAll (fun c => isBlank c = true ∧ c ≠ '\n') text

theorem lines_ne_nil {input : List UInt8} (h : input ≠ []) : lines input ≠ [] := by
  cases input with
  | nil => exact absurd rfl h
  | cons b rest =>
    rw [lines]
    split
    · exact List.cons_ne_nil _ _
    · split <;> exact List.cons_ne_nil _ _

theorem lines_append {before : List UInt8} (h : StartsLine before) (rest : List UInt8) :
    lines (before ++ rest) = lines before ++ lines rest := by
  induction before with
  | nil => rfl
  | cons b before ih =>
    rcases List.eq_nil_or_concat before with rfl | ⟨before', d, hbefore⟩
    · obtain rfl : b = 10 := h b rfl
      simp
    · have htail : StartsLine before := by
        intro e he
        refine h e ?_
        rw [hbefore, List.concat_eq_append, List.getLast?_concat] at he
        rw [hbefore, List.concat_eq_append, ← List.cons_append, List.getLast?_concat]
        exact he
      have hne : before ≠ [] := by simp [hbefore]
      rw [List.cons_append, lines, lines, ih htail]
      split
      · rfl
      · -- the line that `b` stands in goes on in `before`
        cases hlines : lines before with
        | nil => exact absurd hlines (lines_ne_nil hne)
        | cons line more => rfl

/-- Bytes without a line feed are one line, or nothing. -/
theorem lines_of_feed_not_mem {line : List UInt8} (h : 10 ∉ line) :
    lines line = if line = [] then [] else [line] := by
  induction line with
  | nil => rfl
  | cons b line ih =>
    have hb : b ≠ 10 := fun heq => h (by simp [heq])
    rw [lines, if_neg hb, ih fun hmem => h (List.mem_cons_of_mem b hmem)]
    by_cases hline : line = []
    · simp [hline]
    · simp [hline]

/-- An input whose line ends are a carriage return and a line feed. -/
def crlf (input : List UInt8) : List UInt8 :=
  input.flatMap fun b => if b = 10 then [13, 10] else [b]

end Text

namespace Session

open Text

variable {before line after x y : List UInt8}

/-- What a single line says, if it is not blank. -/
def ask (line : List UInt8) : List (Option (List Char)) :=
  [request? line].filter fun request => request ≠ some []

theorem requests_append (h : StartsLine before) (rest : List UInt8) :
    requests (before ++ rest) = requests before ++ requests rest := by
  rw [requests, lines_append h, List.map_append, List.filter_append]
  rfl

theorem requests_feed (rest : List UInt8) : requests (10 :: rest) = requests rest := by
  have hblank : request? [] = some [] := by decide
  rw [requests, lines_feed, List.map_cons, List.filter_cons_of_neg (by simp [hblank]), requests]

/-- The end of an input may stand for a line feed. -/
theorem requests_line (hline : 10 ∉ line) (hafter : EndsLine after) :
    requests (line ++ after) = ask line ++ requests after := by
  cases after with
  | nil =>
    have hblank : request? [] = some [] := by decide
    rw [List.append_nil, requests, lines_of_feed_not_mem hline]
    by_cases hnil : line = []
    · simp [hnil, ask, hblank, requests]
    · simp [hnil, ask, requests]
  | cons b after =>
    obtain rfl : b = 10 := hafter b rfl
    rw [requests_feed, requests, lines_append_feed hline, ← List.singleton_append,
      List.map_append, List.filter_append]
    rfl

theorem request?_surround {front back : List Char} (hfront : IsPadding front)
    (hback : IsPadding back) (line : List UInt8) :
    request? (encode front ++ (line ++ encode back)) = request? line := by
  rw [request?, decode?_surround, Option.map_map]
  refine congrArg (Option.map · _) (funext fun text => ?_)
  exact trim_surround (fun c hc => (hfront c hc).1) (fun c hc => (hback c hc).1) text

/-- Padding does not change what a line says. -/
theorem ask_surround {front back : List Char} (hfront : IsPadding front) (hback : IsPadding back)
    (line : List UInt8) : ask (encode front ++ (line ++ encode back)) = ask line := by
  rw [ask, request?_surround hfront hback, ask]

theorem ask_blank {blanks : List Char} (h : IsPadding blanks) : ask (encode blanks) = [] := by
  have hnil : IsPadding [] := nofun
  have hask := ask_surround h hnil []
  rw [encode_nil, List.append_nil, List.append_nil] at hask
  rw [hask]
  decide

/-! ### Changes to an input -/

/-- Two inputs say the same, whatever part of a line is written in front of both. -/
def SameRequests (x y : List UInt8) : Prop :=
  ∀ line, 10 ∉ line → requests (line ++ x) = requests (line ++ y)

namespace SameRequests

theorem refl (x : List UInt8) : SameRequests x x :=
  fun _ _ => rfl

theorem feed (h : SameRequests x y) : SameRequests (10 :: x) (10 :: y) := by
  intro line hline
  have hxy : requests x = requests y := h [] List.not_mem_nil
  rw [requests_line hline (by simp [EndsLine]), requests_line hline (by simp [EndsLine]),
    requests_feed, requests_feed, hxy]

theorem cons (b : UInt8) (h : SameRequests x y) : SameRequests (b :: x) (b :: y) := by
  by_cases hb : b = 10
  · rw [hb]
    exact h.feed
  · intro line hline
    have hlonger : 10 ∉ line ++ [b] := by
      simp [hline, Ne.symm hb]
    simpa using h (line ++ [b]) hlonger

/-- A carriage return in front of a line feed is a blank at the end of the line. -/
theorem carriage (h : SameRequests x y) : SameRequests (13 :: 10 :: x) (10 :: y) := by
  intro line hline
  have hlonger : 10 ∉ line ++ [13] := by
    simp [hline]
  have hnil : IsPadding [] := nofun
  have hpadding : IsPadding ['\r'] := by
    simp [IsPadding, isBlank]
  have hask : ask (line ++ [13]) = ask line := ask_surround hnil hpadding line
  have hsplit : line ++ 13 :: 10 :: x = (line ++ [13]) ++ 10 :: x := by simp
  rw [hsplit, requests_line hlonger (by simp [EndsLine]), hask,
    ← requests_line hline (by simp [EndsLine])]
  exact h.feed line hline

theorem feed_end : SameRequests [10] [] := by
  intro line hline
  rw [requests_line hline (by simp [EndsLine]), requests_line hline (by simp [EndsLine])]
  rfl

end SameRequests

theorem sameRequests_crlf (input : List UInt8) : SameRequests (crlf input) input := by
  induction input with
  | nil => exact .refl []
  | cons b input ih =>
    rw [crlf, List.flatMap_cons]
    by_cases hb : b = 10
    · rw [if_pos hb, hb]
      exact ih.carriage
    · rw [if_neg hb]
      exact ih.cons b

theorem sameRequests_append_feed (input : List UInt8) : SameRequests (input ++ [10]) input := by
  induction input with
  | nil => exact .feed_end
  | cons b input ih => exact ih.cons b

theorem SameRequests.transcript_eq (h : SameRequests x y) : transcript x = transcript y := by
  have hxy : requests x = requests y := h [] List.not_mem_nil
  rw [transcript_eq_converse, transcript_eq_converse, hxy]

/-! ### What leaves a transcript as it is -/

/-- What follows the line that ends a session has no influence. -/
theorem transcript_of_endsSession (hbefore : StartsLine before) (hline : 10 ∉ line)
    (hends : endsSession (request? line) = true) (after after' : List UInt8) :
    transcript (before ++ (line ++ 10 :: after')) =
      transcript (before ++ (line ++ 10 :: after)) := by
  have hask : ask line = [request? line] := by
    refine List.filter_cons_of_pos (decide_eq_true fun hblank => ?_)
    rw [hblank] at hends
    exact absurd hends (by decide)
  have hcut : ∀ rest, requests (before ++ (line ++ 10 :: rest)) =
      requests before ++ request? line :: requests (10 :: rest) := by
    intro rest
    rw [requests_append hbefore, requests_line hline (by simp [EndsLine]), hask,
      List.singleton_append]
  rw [transcript_eq_converse, transcript_eq_converse, hcut, hcut]
  exact converse_append_of_endsSession hends 0 _ _ _

theorem feed_not_mem_encode_of_isPadding {text : List Char} (h : IsPadding text) :
    10 ∉ encode text :=
  feed_not_mem_encode fun hmem => (h _ hmem).2 rfl

/-- A blank line may be put in between two lines. -/
theorem transcript_blank_line {blanks : List Char} (hbefore : StartsLine before)
    (hblanks : IsPadding blanks) (after : List UInt8) :
    transcript (before ++ (encode blanks ++ 10 :: after)) = transcript (before ++ after) := by
  have hfeed : 10 ∉ encode blanks := feed_not_mem_encode_of_isPadding hblanks
  rw [transcript_eq_converse, transcript_eq_converse, requests_append hbefore,
    requests_append hbefore, requests_line hfeed (by simp [EndsLine]), ask_blank hblanks,
    requests_feed, List.nil_append]

/-- A line may be padded at both ends. -/
theorem transcript_padded_line {front back : List Char} (hbefore : StartsLine before)
    (hline : 10 ∉ line) (hafter : EndsLine after) (hfront : IsPadding front)
    (hback : IsPadding back) :
    transcript (before ++ ((encode front ++ (line ++ encode back)) ++ after)) =
      transcript (before ++ (line ++ after)) := by
  have hpadded : 10 ∉ encode front ++ (line ++ encode back) := by
    rw [List.mem_append, List.mem_append, not_or, not_or]
    exact ⟨feed_not_mem_encode_of_isPadding hfront, hline, feed_not_mem_encode_of_isPadding hback⟩
  rw [transcript_eq_converse, transcript_eq_converse, requests_append hbefore,
    requests_append hbefore, requests_line hpadded hafter, ask_surround hfront hback,
    requests_line hline hafter]

/-- **The framing of a session.**  Up to the line that ends it, each line that is not blank has one
reply, in order, and only a line that is not UTF-8 has one more at the end.  Each reply is one line,
headed on its channel by what it is.  What follows the line that ends a session has no influence,
and neither have carriage returns at the ends of lines, blank lines, blanks at the ends of a line,
and the last line feed. -/
theorem transcript_framed (input : List UInt8) :
    (∃ rs, transcript input = rs ++ (if ending? input = some none then [.undecodable] else []) ∧
      Answers 0 (processed input) rs ∧ rs.length = (processed input).length ∧
      ∀ r ∈ rs, r ≠ .undecodable) ∧
    (∀ r ∈ transcript input, r.IsFramed) ∧
    (∀ before line after after', input = before ++ (line ++ 10 :: after) → StartsLine before →
      10 ∉ line → endsSession (request? line) = true →
        transcript (before ++ (line ++ 10 :: after')) = transcript input) ∧
    transcript (crlf input) = transcript input ∧
    (∀ before after blanks, input = before ++ after → StartsLine before → IsPadding blanks →
      transcript (before ++ (encode blanks ++ 10 :: after)) = transcript input) ∧
    (∀ before line after front back, input = before ++ (line ++ after) → StartsLine before →
      10 ∉ line → EndsLine after → IsPadding front → IsPadding back →
        transcript (before ++ ((encode front ++ (line ++ encode back)) ++ after)) =
          transcript input) ∧
    ∀ init, input = init ++ [10] → transcript init = transcript input := by
  obtain ⟨rs, hconverse, hanswers, hall⟩ :=
    exists_answers (fun text hmem => mem_requests hmem) 0
  rw [← transcript_eq_converse] at hconverse
  refine ⟨⟨rs, hconverse, hanswers, hanswers.length_eq, fun r hr => (hall r hr).1⟩, ?_, ?_,
    (sameRequests_crlf input).transcript_eq, ?_, ?_, ?_⟩
  · -- the last reply may be the one to a line that is not UTF-8, which answers no text
    intro r hr
    rw [hconverse, List.mem_append] at hr
    rcases hr with hr | hr
    · exact (hall r hr).2
    · split at hr
      · rw [List.mem_singleton.mp hr]
        exact Reply.isFramed_undecodable
      · cases hr
  · rintro before line after after' rfl hbefore hline hends
    exact transcript_of_endsSession hbefore hline hends after after'
  · rintro before after blanks rfl hbefore hblanks
    exact transcript_blank_line hbefore hblanks after
  · rintro before line after front back rfl hbefore hline hafter hfront hback
    exact transcript_padded_line hbefore hline hafter hfront hback
  · rintro init rfl
    exact (sameRequests_append_feed init).transcript_eq.symm

/-- Bytes that are not UTF-8 behind the end, a blank line, padding, and no last line feed. -/
theorem transcript_framed_changes :
    transcript (encode "2-5\nquit\n".toList) = [.result (-3)] ∧
      transcript (encode "2-5\n".toList ++ (encode "quit".toList ++ 10 :: [0xFF, 10])) =
        [.result (-3)] ∧
      transcript (encode "2-5\n".toList ++
        (encode " \u3000\r".toList ++ 10 :: encode "quit\n".toList)) = [.result (-3)] ∧
      transcript ([] ++
        ((encode "\t".toList ++ (encode "2-5".toList ++ encode "\u2003\r".toList)) ++
          encode "\nquit\n".toList)) = [.result (-3)] ∧
      transcript (encode "2-5\nquit".toList) = [.result (-3)] := by
  have htranscript : transcript (encode "2-5\nquit\n".toList) = [.result (-3)] := by
    decide +kernel
  obtain ⟨-, -, hlater, -, hblank, hpadding, hlast⟩ :=
    transcript_framed (encode "2-5\nquit\n".toList)
  refine ⟨htranscript, ?_, ?_, ?_, ?_⟩
  · rw [hlater (encode "2-5\n".toList) (encode "quit".toList) [] [0xFF, 10] (by decide +kernel)
      (by decide +kernel) (by decide +kernel) (by decide +kernel), htranscript]
  · rw [hblank (encode "2-5\n".toList) (encode "quit\n".toList) " \u3000\r".toList
      (by decide +kernel) (by decide +kernel) (by decide +kernel), htranscript]
  · rw [hpadding [] (encode "2-5".toList) (encode "\nquit\n".toList) "\t".toList "\u2003\r".toList
      (by decide +kernel) (by decide +kernel) (by decide +kernel) (by decide +kernel)
      (by decide +kernel) (by decide +kernel), htranscript]
  · rw [hlast (encode "2-5\nquit".toList) (by decide +kernel), htranscript]

end Session

end ExactCalc
