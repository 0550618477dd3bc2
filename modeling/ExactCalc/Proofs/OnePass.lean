/-
The value of a formula in one pass.

* `Tally` — the running sum and the running product of a bracket level;
* `Pass.step` — one character, with the numbers of all levels that are open;
* `onePass` — the value of a text, `none` if a divisor is zero;
* `Expr.value?` — the value of a tree in the same form;
* `Pass.read_text` — the pass over the text of a derivation gives the value of its tree;
* `evaluate_eq_onePass` — evaluation by a tree and in one pass agree.

Design notes: the pass takes a sign at the front of a level as one of the whole first term, while
the tree has it at the first operand.  Both have the same value because products and truncated
quotients are odd in their first operand (`Int.neg_mul`, `Int.neg_tdiv`).
-/
import ExactCalc.Proofs.Parsing

namespace ExactCalc

namespace Formula

/-- The running numbers of one bracket level. -/
structure Tally where
  /-- The sum of the terms that are complete. -/
  sum : Int
  /-- The term that is being read is taken from the sum, not added to it. -/
  minus : Bool
  /-- The product and quotient of the operands of that term so far, if there are any. -/
  product? : Option Int
  /-- The next operand of that term is a divisor. -/
  divides : Bool
  deriving DecidableEq, Repr

namespace Tally

/-- Nothing has been read. -/
def initial : Tally := ⟨0, false, none, false⟩

/-- The sum with the term that is being read. -/
def total (t : Tally) : Int :=
  if t.minus then t.sum - t.product?.getD 0 else t.sum + t.product?.getD 0

/-- Takes one more operand into the term.  A divisor is not zero, and a quotient is cut off toward
zero. -/
def operand (t : Tally) (x : Int) : Option Tally :=
  match t.product? with
  | none => some { t with product? := some x }
  | some p =>
    if t.divides then
      if x = 0 then none else some { t with product? := some (p.tdiv x) }
    else some { t with product? := some (p * x) }

/-- Reads an operator or a sign: `*` and `/` continue the term, `+` and `-` complete it. -/
def operator (t : Tally) (c : Char) : Tally :=
  if c = '*' then { t with divides := false }
  else if c = '/' then { t with divides := true }
  else ⟨t.total, c == '-', none, false⟩

end Tally

/-- How far a pass has come: the number that is being read, the level that is being read, and the
levels round it, the innermost first. -/
structure Pass where
  number? : Option Nat
  tally : Tally
  outer : List Tally
  deriving DecidableEq, Repr

namespace Pass

/-- Takes the number that has been read as an operand. -/
def settle (s : Pass) : Option Pass :=
  match s.number? with
  | none => some s
  | some n => (s.tally.operand n).map fun t => ⟨none, t, s.outer⟩

/-- Reads a closing bracket or an operator, behind a settled operand. -/
def act (s : Pass) (c : Char) : Option Pass :=
  if c = ')' then
    match s.outer with
    | [] => some s
    | t :: outer => (t.operand s.tally.total).map fun t => ⟨none, t, outer⟩
  else some { s with tally := s.tally.operator c }

/-- Reads one character. -/
def step (s : Pass) (c : Char) : Option Pass :=
  if c.isDigit then
    some { s with number? := some (Nat.ofDigitChars 10 [c] (s.number?.getD 0)) }
  else if c = '(' then some ⟨none, .initial, s.tally :: s.outer⟩
  else s.settle.bind fun s => s.act c

/-- Reads a text up to its end. -/
def read (s : Pass) (text : List Char) : Option Pass :=
  (text.foldlM step s).bind settle

end Pass

/-- The value of a text that is read once from left to right, `none` if a divisor is zero. -/
def onePass (text : List Char) : Option Int :=
  (Pass.read ⟨none, .initial, []⟩ text).map fun s => s.tally.total

end Formula

/-! ### The value of a tree -/

namespace Expr

/-- The value of an expression, `none` if a divisor is zero. -/
def value? (e : Expr) : Option Int :=
  e.eval.toOption

@[simp]
theorem value?_literal (v : Int) : (literal v).value? = some v := rfl

theorem value?_binary (op : Operator) (left right : Expr) :
    (binary op left right).value? =
      left.value?.bind fun a => right.value?.bind fun b => (op.apply a b).toOption := by
  simp only [value?, eval]
  cases left.eval with
  | error f => rfl
  | ok a => cases right.eval <;> rfl

theorem value?_negate (e : Expr) : e.negate.value? = e.value?.map fun v => -v := by
  rw [negate, value?_binary]
  cases e.value? with
  | none => rfl
  | some v => simp [Operator.apply, Except.toOption]

theorem eval_eq (e : Expr) : e.eval = e.value?.elim (.error .divisionByZero) .ok := by
  rw [value?]
  cases h : e.eval with
  | error f =>
    rw [eq_divisionByZero_of_eval h]
    rfl
  | ok v => rfl

end Expr

namespace Formula

/-! ### The pass over a derivation -/

namespace Pass

theorem read_opening (t : Tally) (outer : List Tally) (text : List Char) :
    read ⟨none, t, outer⟩ ('(' :: text) = read ⟨none, .initial, t :: outer⟩ text := rfl

/-- Before an operator or a closing bracket, the pass takes the last number as an operand. -/
theorem read_append_cons (s : Pass) (u v : List Char) {c : Char} (hd : c.isDigit = false)
    (ho : c ≠ '(') :
    s.read (u ++ c :: v) = (s.read u).bind fun s' => (s'.act c).bind fun s'' => s''.read v := by
  have hstep : ∀ s' : Pass, s'.step c = s'.settle.bind fun s'' => s''.act c := by
    intro s'
    simp [step, hd, ho]
  simp only [read, List.foldlM_append, List.foldlM_cons, hstep, Option.bind_eq_bind,
    Option.bind_assoc]

theorem foldlM_digits {digits : List Char} (h : ∀ c ∈ digits, c.isDigit = true) (n : Nat)
    (t : Tally) (outer : List Tally) :
    digits.foldlM step ⟨some n, t, outer⟩ =
      some ⟨some (Nat.ofDigitChars 10 digits n), t, outer⟩ := by
  induction digits generalizing n with
  | nil => rfl
  | cons c digits ih =>
    have hstep : step ⟨some n, t, outer⟩ c = some ⟨some (Nat.ofDigitChars 10 [c] n), t, outer⟩ := by
      simp [step, h c List.mem_cons_self]
    rw [List.foldlM_cons, hstep, Option.bind_eq_bind, Option.bind_some,
      ih fun d hd => h d (List.mem_cons_of_mem c hd)]
    rfl

theorem read_digits (run : DigitRun) (t : Tally) (outer : List Tally) :
    read ⟨none, t, outer⟩ run.val = (t.operand run.value).map fun t => ⟨none, t, outer⟩ := by
  obtain ⟨c, digits, hrun, hc⟩ := run.exists_cons
  have hstep : step ⟨none, t, outer⟩ c = step ⟨some 0, t, outer⟩ c := by simp [step, hc]
  have hfold : run.val.foldlM step ⟨none, t, outer⟩ = run.val.foldlM step ⟨some 0, t, outer⟩ := by
    rw [hrun, List.foldlM_cons, List.foldlM_cons, hstep]
  rw [read, hfold, foldlM_digits run.isDigit_of_mem]
  rfl

end Pass

namespace Tally

/-- The running numbers of a level agree with what the level means. -/
def Holds (t : Tally) (r : Reading) : Prop :=
  ∃ p, t.product? = some p ∧
    match r.sum? with
    | none => t.sum = 0 ∧ r.term.value? = some (if t.minus then -p else p)
    | some (e, op) => e.value? = some t.sum ∧ r.term.value? = some p ∧
        op = if t.minus then .sub else .add

/-- A level has running numbers that agree with it, or a divisor in it is zero. -/
def Agrees : Option Tally → Reading → Prop
  | none, r => r.term.value? = none ∨ ∃ e op, r.sum? = some (e, op) ∧ e.value? = none
  | some t, r => t.Holds r

theorem Holds.value?_tree {t : Tally} {r : Reading} (h : t.Holds r) :
    r.tree.value? = some t.total := by
  obtain ⟨sum?, term⟩ := r
  obtain ⟨p, hp, h⟩ := h
  cases sum? with
  | none =>
    obtain ⟨hsum, hterm⟩ := h
    rw [Reading.tree, total, hp, hsum]
    cases hm : t.minus <;> simpa [hm] using hterm
  | some sum =>
    obtain ⟨e, op⟩ := sum
    obtain ⟨hsum, hterm, rfl⟩ := h
    rw [Reading.tree, Expr.value?_binary, hsum, hterm, total, hp]
    cases t.minus <;> rfl

theorem Agrees.value?_tree {t? : Option Tally} {r : Reading} (h : Agrees t? r) :
    r.tree.value? = t?.map total := by
  cases t? with
  | some t => exact Holds.value?_tree h
  | none =>
    obtain ⟨sum?, term⟩ := r
    cases sum? with
    | none =>
      rcases h with h | ⟨e, op, hsum, -⟩
      · exact h
      · cases hsum
    | some sum =>
      obtain ⟨e, op⟩ := sum
      rw [Reading.tree, Expr.value?_binary]
      rcases h with h | ⟨e, op, hsum, he⟩
      · have hterm : term.value? = none := h
        cases e.value? <;> simp [hterm]
      · cases hsum
        simp [he]

/-- The first operand of a level.  A sign counts for the whole term. -/
theorem agrees_first (signed : Bool) (operand : Derivation .operand) :
    Agrees (operand.tree.value?.bind
        (if signed then Tally.initial.operator '-' else Tally.initial).operand)
      (Derivation.first signed operand).reading := by
  have hvalue : (Derivation.first signed operand).tree.value? =
      operand.tree.value?.map fun v => if signed then -v else v := by
    cases signed with
    | false => simp [Derivation.tree_unsigned]
    | true =>
      cases operand with
      | digits run => rfl
      | group inner =>
        rw [Derivation.tree_signed_group, Derivation.tree_group, Expr.value?_negate]
        rfl
  rw [Derivation.reading_first]
  cases hx : operand.tree.value? with
  | none =>
    refine .inl ?_
    rw [hvalue, hx]
    rfl
  | some x =>
    rw [hx] at hvalue
    cases signed with
    | false => exact ⟨x, rfl, rfl, hvalue⟩
    | true => exact ⟨x, rfl, rfl, hvalue⟩

/-- An additive operator completes the term. -/
theorem Holds.extend_additive {t : Tally} {r : Reading} (h : t.Holds r) (op : Operator)
    (ht : op.tier = .additive) {e : Expr} {x : Int} (hx : e.value? = some x) :
    Agrees ((t.operator op.symbol).operand x) (r.extend op e) := by
  rw [r.extend_of_additive e ht]
  cases op with
  | add => exact ⟨x, rfl, h.value?_tree, hx, rfl⟩
  | sub => exact ⟨x, rfl, h.value?_tree, hx, rfl⟩
  | mul | div => cases ht

/-- A tight operator continues the term.  What it does to the product so far is odd, so that it does
not matter whether the sign of the term stands before or behind it. -/
theorem Holds.extend_multiplicative {t : Tally} {r : Reading} (h : t.Holds r) (op : Operator)
    (ht : op.tier = .multiplicative) {e : Expr} {x : Int} (hx : e.value? = some x) {f : Int → Int}
    (hf : ∀ p, (op.apply p x).toOption = some (f p)) (hodd : ∀ p, f (-p) = -f p) (divides : Bool) :
    Holds { t with product? := t.product?.map f, divides := divides } (r.extend op e) := by
  obtain ⟨sum?, term⟩ := r
  obtain ⟨p, hp, h⟩ := h
  have hvalue : ∀ q, term.value? = some q → (Expr.binary op term e).value? = some (f q) := by
    intro q hq
    rw [Expr.value?_binary, hq, hx]
    exact hf q
  have hextend : Reading.extend ⟨sum?, term⟩ op e = ⟨sum?, .binary op term e⟩ :=
    Reading.extend_of_multiplicative _ e ht
  rw [hextend]
  refine ⟨f p, congrArg (Option.map f) hp, ?_⟩
  -- the sign is part of the tree in the first term only, behind it is the operator `-`
  cases sum? with
  | none =>
    obtain ⟨hsum, hterm⟩ := h
    refine ⟨hsum, (hvalue _ hterm).trans ?_⟩
    cases t.minus with
    | false => rfl
    | true => exact congrArg some (hodd p)
  | some sum =>
    obtain ⟨hsum, hterm, hop⟩ := h
    exact ⟨hsum, hvalue p hterm, hop⟩

theorem Holds.extend_mul {t : Tally} {r : Reading} (h : t.Holds r) {e : Expr} {x : Int}
    (hx : e.value? = some x) : Agrees ((t.operator '*').operand x) (r.extend .mul e) := by
  have hholds := h.extend_multiplicative .mul rfl hx (fun _ => rfl)
    (fun p => Int.neg_mul p x) false
  obtain ⟨p, hp, -⟩ := h
  have hoperand : (t.operator '*').operand x =
      some { t with product? := t.product?.map fun p => p * x, divides := false } := by
    simp [operator, operand, hp]
  rw [hoperand]
  exact hholds

theorem Holds.extend_div {t : Tally} {r : Reading} (h : t.Holds r) {e : Expr} {x : Int}
    (hx : e.value? = some x) : Agrees ((t.operator '/').operand x) (r.extend .div e) := by
  obtain ⟨p, hp, -⟩ := id h
  by_cases h0 : x = 0
  · have hoperand : (t.operator '/').operand x = none := by
      simp [operator, operand, hp, h0]
    rw [hoperand]
    refine .inl ?_
    show (Expr.binary .div r.term e).value? = none
    rw [Expr.value?_binary, hx, h0]
    cases r.term.value? <;> rfl
  · have hoperand : (t.operator '/').operand x =
        some { t with product? := t.product?.map fun p => p.tdiv x, divides := true } := by
      simp [operator, operand, hp, h0]
    rw [hoperand]
    refine h.extend_multiplicative .div rfl hx (fun p => ?_) (fun p => Int.neg_tdiv p x) true
    simp [Operator.apply, h0, Except.toOption]

/-- Where an operand has no value, the level has none. -/
theorem agrees_none_of_operand (r : Reading) (op : Operator) {e : Expr} (hx : e.value? = none) :
    Agrees none (r.extend op e) := by
  refine .inl ?_
  cases ht : op.tier with
  | additive =>
    rw [r.extend_of_additive e ht]
    exact hx
  | multiplicative =>
    rw [r.extend_of_multiplicative e ht, Expr.value?_binary, hx]
    cases r.term.value? <;> rfl

/-- Once a divisor is zero, no operand behind it helps. -/
theorem agrees_none_extend {r : Reading} (h : Agrees none r) (op : Operator) (e : Expr) :
    Agrees none (r.extend op e) := by
  cases ht : op.tier with
  | additive =>
    rw [r.extend_of_additive e ht]
    exact .inr ⟨r.tree, op, rfl, Agrees.value?_tree h⟩
  | multiplicative =>
    rw [r.extend_of_multiplicative e ht]
    rcases h with hterm | hsum
    · refine .inl ?_
      rw [Expr.value?_binary, hterm, Option.bind_none]
    · exact .inr hsum

/-- One more operator and operand of a level. -/
theorem Agrees.extend {t? : Option Tally} {r : Reading} (h : Agrees t? r) (op : Operator)
    (e : Expr) :
    Agrees (t?.bind fun t => e.value?.bind (t.operator op.symbol).operand) (r.extend op e) := by
  cases t? with
  | none => exact agrees_none_extend h op e
  | some t =>
    cases hx : e.value? with
    | none => exact agrees_none_of_operand r op hx
    | some x =>
      cases op with
      | add => exact Holds.extend_additive h .add rfl hx
      | sub => exact Holds.extend_additive h .sub rfl hx
      | mul => exact Holds.extend_mul h hx
      | div => exact Holds.extend_div h hx

end Tally

namespace Pass

/-- What the pass does with the text of a part: an operand is taken into the level it stands in, and
a level leaves running numbers that agree with it. -/
def ReadsAs : {part : Part} → Derivation part → Prop
  | .operand, d => ∀ t outer, read ⟨none, t, outer⟩ d.text =
      d.tree.value?.bind fun x => (t.operand x).map fun t => ⟨none, t, outer⟩
  | .level, d => ∃ t?, Tally.Agrees t? d.reading ∧
      ∀ outer, read ⟨none, .initial, outer⟩ d.text = t?.map fun t => ⟨none, t, outer⟩

/-- **The pass over a derived text follows the meaning of the text.** -/
theorem read_text {part : Part} (d : Derivation part) : ReadsAs d := by
  induction d with
  | digits run => exact read_digits run
  | group inner ih =>
    intro t outer
    obtain ⟨t?, hagrees, hread⟩ := ih
    -- the level inside has its own running numbers, and their total is the operand
    rw [Derivation.tree_group, Derivation.tree, hagrees.value?_tree, Derivation.text, read_opening,
      read_append_cons _ _ _ rfl (by decide), hread]
    cases t? with
    | none => rfl
    | some t' =>
      show ((t.operand t'.total).map _).bind _ = (t.operand t'.total).map _
      cases t.operand t'.total <;> rfl
  | first signed operand ih =>
    refine ⟨_, Tally.agrees_first signed operand, fun outer => ?_⟩
    cases signed with
    | false =>
      refine (ih .initial outer).trans ?_
      cases operand.tree.value? <;> rfl
    | true =>
      refine (ih (Tally.initial.operator '-') outer).trans ?_
      cases operand.tree.value? <;> rfl
  | more before op operand ihb ihp =>
    obtain ⟨t?, hagrees, hread⟩ := ihb
    refine ⟨_, hagrees.extend op operand.tree, fun outer => ?_⟩
    rw [Derivation.text, read_append_cons _ _ _ op.isDigit_symbol op.symbol_ne_opening, hread]
    cases t? with
    | none => rfl
    | some t =>
      have hact : act ⟨none, t, outer⟩ op.symbol = some ⟨none, t.operator op.symbol, outer⟩ := by
        simp [act, op.symbol_ne_closing]
      simp only [Option.map_some, Option.bind_some, hact]
      refine (ihp (t.operator op.symbol) outer).trans ?_
      cases operand.tree.value? <;> rfl

end Pass

theorem onePass_text (d : Derivation .level) : onePass d.text = d.tree.value? := by
  obtain ⟨t?, hagrees, hread⟩ := Pass.read_text d
  rw [onePass, hread, Derivation.tree, hagrees.value?_tree]
  cases t? <;> rfl

end Formula

open Formula

/-- **Evaluation by way of a tree and in one pass agree**: the same value, or a zero divisor in
both. -/
theorem evaluate_eq_onePass {text : List Char} (h : isValid text = true) :
    evaluate text = (onePass (Text.dropBlanks text)).elim (.error .divisionByZero) .ok := by
  obtain ⟨d, hd⟩ := isValid_iff_exists_derivation.mp h
  rw [evaluate_of_derivation d hd, ← hd, onePass_text, Expr.eval_eq]

/-- A sign in front of a quotient that is cut off, and blanks. -/
theorem evaluate_eq_onePass_signed_quotient :
    isValid "-7 / 2*(3-10)".toList = true ∧
      onePass "-7/2*(3-10)".toList = some 21 ∧
      evaluate "-7 / 2*(3-10)".toList = .ok 21 := by
  have hvalid : isValid "-7 / 2*(3-10)".toList = true := by decide +kernel
  have hvalue : onePass "-7/2*(3-10)".toList = some 21 := by decide +kernel
  have hblanks : Text.dropBlanks "-7 / 2*(3-10)".toList = "-7/2*(3-10)".toList := by decide +kernel
  refine ⟨hvalid, hvalue, ?_⟩
  rw [evaluate_eq_onePass hvalid, hblanks, hvalue]
  rfl

end ExactCalc
