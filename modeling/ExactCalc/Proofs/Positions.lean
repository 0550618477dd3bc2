/-
Looking at a text by positions.

A function that looks at a character has no result where the text has none, so that each result
says, too, that no position was outside of the text.

* `signAt?`, `operatorAt?`, `operator?` — whether a sign or an operator stands at a position, and
  where the next operator is;
* `leftStart?`, `rightEnd?` — where the left operand of an operator begins, and where the right one
  ends;
* `areBracketed?` — whether two positions stand directly inside brackets;
* `isEnclosed` — whether the first and the last character are partners;
* `operator?_eq`, `leftStart?_eq`, `rightEnd?_eq`, `areBracketed?_eq` — this is what a cursor finds;
* `Cut`, `cut` — the first operator outside brackets, by its position;
* `cut_eq` — this is where the text is cut.
-/
import ExactCalc.Proofs.Rejection
import ExactCalc.Proofs.Spans

namespace ExactCalc.Formula

/-- Whether a sign stands at a position. -/
def signAt? (text : List Char) (i : Nat) : Option Bool := do
  let c ← text[i]?
  if c = '-' ∧ i ≠ 0 then
    let previous ← text[i - 1]?
    return previous == '('
  else return c == '-'

/-- Whether an operator of a tier stands at a position.  A sign is no operator. -/
def operatorAt? (tier : Tier) (text : List Char) (i : Nat) : Option Bool := do
  let c ← text[i]?
  if tier.holds c then
    let sign ← signAt? text i
    return !sign
  else return false

/-- The position of the first operator of a tier from a position on. -/
def operator? (tier : Tier) (text : List Char) (start : Nat) : Option (Option Nat) :=
  (List.range' start (text.length - start)).findM? (operatorAt? tier text)

/-- Where the operand begins that ends with the character `last` in front of position `i`. -/
def operandStart (text : List Char) (i : Nat) (last : Char) : Nat :=
  if last = ')' then (opening? text (i - 1)).getD i
  else i - ((text.take i).reverse.takeWhile Char.isDigit).length

/-- The position where the left operand of the operator at position `i` begins, with its sign. -/
def leftStart? (text : List Char) (i : Nat) : Option Nat :=
  if i = 0 then some 0
  else do
    let last ← text[i - 1]?
    let start := operandStart text i last
    if start = 0 then return 0
    else
      let sign ← signAt? text (start - 1)
      return if sign then start - 1 else start

/-- The position behind the right operand of the operator at position `i`. -/
def rightEnd? (text : List Char) (i : Nat) : Option Nat :=
  if text[i + 1]? = some '(' then
    some ((closing? text (i + 1)).elim (i + 1) fun close => close + 1)
  else if i + 1 ≤ text.length then
    some (i + 1 + ((text.drop (i + 1)).takeWhile Char.isDigit).length)
  else none

/-- An opening bracket stands in front of the position `start`, and a closing one at `stop`. -/
def areBracketed? (text : List Char) (start stop : Nat) : Option Bool :=
  if start = 0 then some false
  else do
    let previous ← text[start - 1]?
    return previous == '(' && text[stop]? == some ')'

/-- The first bracket of a text is closed by the last character. -/
def isEnclosed (text : List Char) : Bool :=
  text.head? == some '(' && closing? text 0 == some (text.length - 1)

/-! ### What a cursor finds -/

theorem signAt?_eq (before : List Char) (c : Char) (after : List Char) :
    signAt? (before.reverse ++ c :: after) before.length = some (isSign before c) := by
  have hget : (before.reverse ++ c :: after)[before.length]? = some c := by simp
  rw [signAt?, hget]
  cases before with
  | nil => simp [isSign, opensLevel]
  | cons b before =>
    by_cases hc : c = '-'
    · simp [hc, isSign, opensLevel]
    · simp [hc, isSign]

theorem operatorAt?_eq (tier : Tier) (before : List Char) (c : Char) (after : List Char) :
    operatorAt? tier (before.reverse ++ c :: after) before.length =
      some (tier.holds c && !isSign before c) := by
  have hget : (before.reverse ++ c :: after)[before.length]? = some c := by simp
  rw [operatorAt?, hget, signAt?_eq]
  cases hc : tier.holds c <;> simp [hc]

/-- **The next operator stands where a cursor finds it.** -/
theorem operator?_eq (tier : Tier) (before after : List Char) :
    operator? tier (before.reverse ++ after) before.length =
      some ((Cursor.site? tier before after).map fun s => s.before.length) := by
  have hlength : (before.reverse ++ after).length - before.length = after.length := by simp
  rw [operator?, hlength]
  clear hlength
  induction after generalizing before with
  | nil => rfl
  | cons c after ih =>
    have ih := ih (c :: before)
    rw [List.reverse_cons, List.append_assoc, List.singleton_append, List.length_cons] at ih
    rw [List.length_cons, List.range'_succ, List.findM?, operatorAt?_eq, Cursor.site?]
    cases hc : tier.holds c && !isSign before c with
    | true => simp
    | false => simpa using ih

theorem operandStart_eq (b : Char) (before after : List Char) :
    operandStart ((b :: before).reverse ++ after) (before.length + 1) b =
      (splitOperand ')' '(' (b :: before)).2.length := by
  have htake : ((b :: before).reverse ++ after).take before.length = before.reverse := by simp
  have htake' : ((b :: before).reverse ++ after).take (before.length + 1) =
      (b :: before).reverse :=
    List.take_left' (by simp)
  rw [operandStart, htake', List.reverse_reverse, splitOperand]
  split
  · rw [opening?, Nat.add_sub_cancel, htake, List.reverse_reverse]
    cases splitAtPartner ')' '(' 0 before <;> rfl
  · have hlength := congrArg List.length
      (List.takeWhile_append_dropWhile (p := Char.isDigit) (l := b :: before))
    rw [List.length_append, List.length_cons] at hlength
    exact (Nat.eq_sub_of_add_eq' hlength).symm

namespace Site

variable (s : Site)

/-- **The left operand begins behind what stands before it.** -/
theorem leftStart?_eq : leftStart? s.text s.before.length = some s.left.2.length := by
  obtain ⟨before, symbol, after⟩ := s
  cases before with
  | nil => rfl
  | cons b before =>
    have hget : ((b :: before).reverse ++ symbol :: after)[before.length]? = some b := by simp
    have hpart := splitOperand_append ')' '(' (b :: before)
    simp only [leftStart?, text, left, List.length_cons, Nat.add_sub_cancel, hget,
      Option.bind_eq_bind, Option.bind_some, operandStart_eq, Nat.succ_ne_zero, if_false]
    generalize splitOperand ')' '(' (b :: before) = parts at hpart ⊢
    obtain ⟨operand, outer⟩ := parts
    cases outer with
    | nil => rfl
    | cons d outer =>
      have htext : (b :: before).reverse ++ symbol :: after =
          outer.reverse ++ d :: (operand.reverse ++ symbol :: after) := by
        rw [← hpart]
        simp
      rw [htext]
      simp only [List.length_cons, Nat.add_sub_cancel, signAt?_eq, splitSign]
      cases isSign outer d <;> simp

/-- **The right operand ends before what stands behind it.** -/
theorem rightEnd?_eq :
    rightEnd? s.text s.before.length = some (s.before.length + 1 + s.right.1.length) := by
  obtain ⟨before, symbol, after⟩ := s
  have hget : (before.reverse ++ symbol :: after)[before.length + 1]? = after.head? := by
    rw [← List.length_reverse, getElem?_append_add, List.getElem?_cons_succ,
      List.head?_eq_getElem?]
  have hdrop : (before.reverse ++ symbol :: after).drop (before.length + 1) = after := by
    rw [← List.length_reverse, List.drop_length_add_append]
    rfl
  have hle : before.length + 1 ≤ (before.reverse ++ symbol :: after).length := by
    simp
  rw [rightEnd?, text, hget, hdrop, right]
  cases after with
  | nil => simp [splitOperand]
  | cons c rest =>
    by_cases hc : c = '('
    · subst hc
      have htext : before.reverse ++ symbol :: '(' :: rest =
          (before.reverse ++ [symbol]) ++ '(' :: rest := by
        simp
      rw [closing?_eq _ htext (by simp), splitOperand]
      cases splitAtPartner '(' ')' 0 rest with
      | none => rfl
      | some parts =>
        simp
        omega
    · rw [if_neg (by simpa using hc), if_pos hle, splitOperand, if_neg hc]

/-- **The operands stand between brackets if a cursor finds them so.** -/
theorem areBracketed?_eq :
    areBracketed? s.text s.left.2.length (s.before.length + 1 + s.right.1.length) =
      some s.isGrouped := by
  have hstop : s.text[s.before.length + 1 + s.right.1.length]? = s.right.2.head? := by
    have htext : s.text = (s.before.reverse ++ s.symbol :: s.right.1) ++ s.right.2 := by
      rw [text, ← s.right_append]
      simp
    have hlength : s.before.length + 1 + s.right.1.length =
        (s.before.reverse ++ s.symbol :: s.right.1).length + 0 := by
      simp
      omega
    rw [htext, hlength, getElem?_append_add, List.head?_eq_getElem?]
  have hstart := s.text_eq
  rw [areBracketed?, hstop, isGrouped]
  cases houter : s.left.2 with
  | nil => rfl
  | cons d outer =>
    have hget : s.text[outer.length]? = some d := by
      rw [hstart, houter]
      simp
    simp [hget]

end Site

theorem isEnclosed_eq (text : List Char) : isEnclosed text = (enclosed? text).isSome := by
  cases text with
  | nil => rfl
  | cons c rest =>
    by_cases hc : c = '('
    · subst hc
      have hclosing : closing? ('(' :: rest) 0 =
          (splitAtPartner '(' ')' 0 rest).map fun parts => 0 + 1 + parts.1.length :=
        closing?_eq [] rfl rfl
      rw [isEnclosed, hclosing, enclosed?]
      cases hsplit : splitAtPartner '(' ')' 0 rest with
      | none => rfl
      | some parts =>
        obtain ⟨inner, after⟩ := parts
        rw [eq_append_of_splitAtPartner hsplit]
        cases after with
        | nil => simp [Nat.add_comm]
        | cons d after =>
          simp
          omega
    · simp [isEnclosed, enclosed?_of_ne hc, hc]

/-! ### Cuts -/

/-- Where a text is cut. -/
inductive Cut where
  | whole
  | operation (i : Nat) (op : Operator)
  | unbalanced
  deriving DecidableEq, Repr

/-- The position of the operator that is found. -/
def Split.toCut : Split → Cut
  | .whole => .whole
  | .parts left op _ => .operation left.length op
  | .unbalanced => .unbalanced

theorem Split.exists_of_toCut {s : Split} {i : Nat} {op : Operator}
    (h : s.toCut = .operation i op) :
    ∃ left right, s = .parts left op right ∧ left.length = i := by
  cases s with
  | whole => cases h
  | unbalanced => cases h
  | parts left op' right =>
    cases h
    exact ⟨left, right, rfl, rfl⟩

/-- Looks for an operator among the characters from position `i` on, in front of which `depth`
brackets are open.  An operator that begins a text or a bracket level is none. -/
def cutFrom (text : List Char) (depth i : Nat) : List Char → Cut
  | [] => .whole
  | c :: rest =>
    if c = '(' then cutFrom text (depth + 1) (i + 1) rest
    else if c = ')' then
      if depth = 0 then .unbalanced else cutFrom text (depth - 1) (i + 1) rest
    else
      match if depth = 0 ∧ 0 < i ∧ text[i - 1]? ≠ some '(' then Operator.ofChar? c else none with
      | some op => .operation i op
      | none => cutFrom text depth (i + 1) rest

/-- Looks for the first operator of a text outside brackets that is no sign. -/
def cut (text : List Char) : Cut :=
  cutFrom text 0 0 text

/-- **Outside brackets, no bracket is opened directly in front of an operator**, so that it counts
wherever it stands behind the first character. -/
theorem cutFrom_eq (front : List Char) (b : Char) (depth : Nat) (rest : List Char)
    (h : depth = 0 → b ≠ '(') :
    cutFrom ((front ++ [b]) ++ rest) depth (front.length + 1) rest =
      ((splitFrom depth rest).prepend (front ++ [b])).toCut := by
  induction rest generalizing front b depth with
  | nil => simp [cutFrom, splitFrom, Split.toCut]
  | cons c rest ih =>
    have hget : ((front ++ [b]) ++ c :: rest)[front.length]? = some b := by simp
    have hnext : ∀ depth', (depth' = 0 → c ≠ '(') →
        cutFrom ((front ++ [b]) ++ c :: rest) depth' (front.length + 1 + 1) rest =
          (((splitFrom depth' rest).cons c).prepend (front ++ [b])).toCut := by
      intro depth' hc
      have hstep := ih (front ++ [b]) c depth' hc
      rw [List.append_assoc, List.singleton_append, List.length_append, List.length_singleton,
        Split.prepend_append] at hstep
      exact hstep
    rw [cutFrom, splitFrom, Nat.add_sub_cancel, hget]
    by_cases hopen : c = '('
    · subst hopen
      have hop : Operator.ofChar? '(' = none := rfl
      simp only [if_true, hnext (depth + 1) (by simp), hop]
      simp [depthAfter]
    by_cases hclose : c = ')'
    · subst hclose
      have hop : Operator.ofChar? ')' = none := rfl
      by_cases hd : depth = 0
      · simp [hd, Split.toCut]
      · simp only [if_neg hopen, if_true, if_neg hd, hnext (depth - 1) (fun _ => hopen)]
        simp [hd, depthAfter]
    have hnot : ¬(c = ')' ∧ depth = 0) := fun hc => hclose hc.1
    -- by `h`, what stands in front of an operator outside brackets needs no look
    have hguard : (depth = 0 ∧ 0 < front.length + 1 ∧ some b ≠ some '(') ↔ depth = 0 := by
      constructor
      · exact fun hd => hd.1
      · exact fun hd => ⟨hd, Nat.succ_pos _, fun hb => h hd (Option.some.inj hb)⟩
    simp only [if_neg hopen, if_neg hclose, if_neg hnot, hguard, depthAfter]
    cases if depth = 0 then Operator.ofChar? c else none with
    | some op => simp [Split.toCut]
    | none => exact hnext depth fun _ => hopen

/-- **A text is cut at the operator that is found.** -/
theorem cut_eq (text : List Char) : cut text = (splitAtOperator text).toCut := by
  cases text with
  | nil => rfl
  | cons c rest =>
    have hnext : ∀ depth, (depth = 0 → c ≠ '(') →
        cutFrom (c :: rest) depth 1 rest = ((splitFrom depth rest).cons c).toCut :=
      fun depth h => cutFrom_eq [] c depth rest h
    rw [cut, cutFrom, splitAtOperator]
    by_cases hopen : c = '('
    · subst hopen
      exact hnext 1 (by simp)
    by_cases hclose : c = ')'
    · subst hclose
      rfl
    rw [if_neg hopen, if_neg hclose, if_neg hclose, depthAfter, if_neg hopen, if_neg hclose]
    simpa using hnext 0 fun _ => hopen

end ExactCalc.Formula
