/-
The numbers and operators of a text are those of its tree, in the same order.

* `Expr.inorder` — the in-order traversal of an expression;
* `places` — every character of a text with what stands on its two sides;
* `Site.tokens`, `tokens` — what a character contributes, and the numbers and operators of a text;
* `Nested.tokensFrom_append` — a nested text contributes the traversal of its tree;
* `Expr.size_eq`, `Expr.depth_le` — the nodes counted by the operators of the traversal;
* `inorder_eq_tokens` — so it is with every text that has a tree, and the counts follow.
-/
import ExactCalc.Proofs.Nesting

namespace ExactCalc

/-- A number or an operator. -/
inductive Token where
  | number (value : Int)
  | operator (op : Operator)
  deriving DecidableEq, Repr

def Token.isOperator : Token → Bool
  | number _ => false
  | operator _ => true

namespace Expr

/-- The left operand, the operator and the right operand, one after the other. -/
def inorder : Expr → List Token
  | literal value => [.number value]
  | binary op left right => left.inorder ++ .operator op :: right.inorder

theorem inorder_negation (e : Expr) :
    (binary .sub (literal 0) e).inorder = .number 0 :: .operator .sub :: e.inorder := rfl

/-- The number of operators, which is that of the inner nodes. -/
def operatorCount (e : Expr) : Nat :=
  e.inorder.countP Token.isOperator

theorem operatorCount_binary (op : Operator) (left right : Expr) :
    (binary op left right).operatorCount = left.operatorCount + right.operatorCount + 1 := by
  simp [operatorCount, inorder, List.countP_cons, Token.isOperator]
  omega

/-- There is one leaf more than there are operators. -/
theorem size_eq (e : Expr) : e.size = 2 * e.operatorCount + 1 := by
  induction e with
  | literal value => rfl
  | binary op left right ihl ihr =>
    rw [size, operatorCount_binary, ihl, ihr]
    omega

theorem depth_le (e : Expr) : e.depth ≤ e.operatorCount + 1 := by
  induction e with
  | literal value => exact Nat.le_refl _
  | binary op left right ihl ihr =>
    rw [depth, operatorCount_binary]
    omega

end Expr

namespace Formula

/-! ### What the characters of a text contribute -/

/-- An operand begins behind the reversed text `before`. -/
def opensOperand : List Char → Bool
  | [] => true
  | c :: _ => c == '(' || (Operator.ofChar? c).isSome

/-- The reversed text `before` ends with the sign of an operand: a `-` at the start, behind an
opening bracket or behind an operator. -/
def endsWithSign : List Char → Bool
  | [] => false
  | c :: before => c == '-' && opensOperand before

/-- Every character of the text `after`, with what stands on its two sides. -/
def placesFrom (before : List Char) : List Char → List Site
  | [] => []
  | c :: after => ⟨before, c, after⟩ :: placesFrom (c :: before) after

/-- Every character of a text, with what stands on its two sides. -/
def places (text : List Char) : List Site :=
  placesFrom [] text

namespace Site

/-- The symbol is the sign of an operand. -/
def isOperandSign (s : Site) : Bool :=
  endsWithSign (s.symbol :: s.before)

/-- The symbol is an operator and no sign. -/
def isBinary (s : Site) : Bool :=
  (Operator.ofChar? s.symbol).isSome && !s.isOperandSign

/-- The symbol is the sign of a group. -/
def negatesGroup (s : Site) : Bool :=
  s.isOperandSign && s.after.head? == some '('

/-- The number that begins at a site, with the sign in front of it. -/
def number (s : Site) : Int :=
  let value : Int := Nat.ofDigitChars 10 ((s.symbol :: s.after).takeWhile Char.isDigit) 0
  if endsWithSign s.before then -value else value

/-- What a character contributes: an operator itself, the first digit of a run its number, the sign
of a group a zero from which the group is subtracted, and all else nothing. -/
def tokens (s : Site) : List Token :=
  if s.symbol.isDigit then
    if s.before.head?.any Char.isDigit then [] else [.number s.number]
  else if s.isOperandSign then
    if s.after.head? = some '(' then [.number 0, .operator .sub] else []
  else (Operator.ofChar? s.symbol).toList.map .operator

end Site

/-- The numbers and operators of the text `after`. -/
def tokensFrom (before after : List Char) : List Token :=
  (placesFrom before after).flatMap Site.tokens

/-- The numbers and operators of a text.  Brackets contribute nothing. -/
def tokens (text : List Char) : List Token :=
  (places text).flatMap Site.tokens

section Tokens

variable {before after : List Char}

theorem tokensFrom_cons (before : List Char) (c : Char) (after : List Char) :
    tokensFrom before (c :: after) =
      (Site.mk before c after).tokens ++ tokensFrom (c :: before) after := rfl

theorem opensOperand_of_isDigit {c : Char} (h : c.isDigit = true) :
    opensOperand (c :: before) = false := by
  have hne : c ≠ '(' := ne_of_isDigit h rfl
  simp [opensOperand, hne, Operator.ofChar?_of_isDigit h]

theorem tokens_bracket {c : Char} (h : c = '(' ∨ c = ')') :
    (Site.mk before c after).tokens = [] := by
  rcases h with rfl | rfl <;> rfl

theorem tokens_operator (op : Operator) (h : opensOperand before = false) :
    (Site.mk before op.symbol after).tokens = [.operator op] := by
  simp [Site.tokens, Site.isOperandSign, endsWithSign, h]

theorem tokens_sign (h : opensOperand before = true) :
    (Site.mk before '-' after).tokens =
      if after.head? = some '(' then [.number 0, .operator .sub] else [] := by
  simp [Site.tokens, Site.isOperandSign, endsWithSign, h]

/-- Behind its first digit, a run contributes nothing. -/
theorem tokensFrom_digits {d : Char} (hd : d.isDigit = true) {digits : List Char}
    (h : ∀ c ∈ digits, c.isDigit = true) :
    tokensFrom (d :: before) (digits ++ after) =
      tokensFrom (digits.reverse ++ d :: before) after := by
  induction digits generalizing d before with
  | nil => rfl
  | cons c digits ih =>
    have hc := h c List.mem_cons_self
    have hnone : (Site.mk (d :: before) c (digits ++ after)).tokens = [] := by
      simp [Site.tokens, hc, hd]
    rw [List.cons_append, tokensFrom_cons, hnone, List.nil_append,
      ih hc fun x hx => h x (List.mem_cons_of_mem c hx)]
    simp

/-- A run of digits contributes its number. -/
theorem tokensFrom_run (run : DigitRun) (hb : opensOperand before = true)
    (ha : ∀ c ∈ after.head?, c.isDigit = false) :
    tokensFrom before (run.val ++ after) =
      .number (if endsWithSign before then -run.value else run.value) ::
        tokensFrom (run.val.reverse ++ before) after := by
  obtain ⟨d, digits, hrun, hd⟩ := run.exists_cons
  have hdigits : ∀ c ∈ d :: digits, c.isDigit = true := hrun ▸ run.isDigit_of_mem
  have htake : (d :: (digits ++ after)).takeWhile Char.isDigit = d :: digits :=
    takeWhile_digits hdigits ha
  have hbefore : before.head?.any Char.isDigit = false := by
    cases before with
    | nil => rfl
    | cons c before =>
      rw [List.head?_cons, Option.any_some, Bool.eq_false_iff]
      intro hc
      rw [opensOperand_of_isDigit hc] at hb
      cases hb
  have htokens : (Site.mk before d (digits ++ after)).tokens =
      [.number (if endsWithSign before then -run.value else run.value)] := by
    simp only [Site.tokens, hd, hbefore, Site.number, htake, DigitRun.value, hrun]
    rfl
  rw [hrun, List.cons_append, tokensFrom_cons, htokens,
    tokensFrom_digits hd fun c hc => hdigits c (List.mem_cons_of_mem d hc)]
  simp

end Tokens

namespace Nested

variable {part : Part} {text : List Char} {e : Expr} {before after : List Char}

/-- A nested text ends with a digit or a closing bracket. -/
theorem reverse_eq_cons (h : Nested part text e) :
    ∃ c rest, text.reverse = c :: rest ∧ (c.isDigit = true ∨ c = ')') := by
  induction h with
  | digits run =>
    obtain ⟨c, rest, hrun, hc⟩ := run.reverse.exists_cons
    exact ⟨c, rest, hrun, .inl hc⟩
  | negative run =>
    obtain ⟨c, rest, hrun, hc⟩ := run.reverse.exists_cons
    have hrun : run.val.reverse = c :: rest := hrun
    exact ⟨c, rest ++ ['-'], by simp [hrun], .inl hc⟩
  | @group text e => exact ⟨')', text.reverse ++ ['('], by simp, .inr rfl⟩
  | @negation text e => exact ⟨')', text.reverse ++ ['(', '-'], by simp, .inr rfl⟩
  | single _ ih => exact ih
  | @operation left right l r op _ _ _ ih =>
    obtain ⟨c, rest, hrest, hc⟩ := ih
    exact ⟨c, rest ++ op.symbol :: left.reverse, by simp [hrest], hc⟩

/-- Behind a nested text stands no sign, but an operator. -/
theorem opensOperand_reverse (h : Nested part text e) (before : List Char) :
    opensOperand (text.reverse ++ before) = false := by
  obtain ⟨c, rest, hrest, hc⟩ := h.reverse_eq_cons
  rw [hrest, List.cons_append]
  rcases hc with hc | rfl
  · exact opensOperand_of_isDigit hc
  · rfl

/-- **A nested text contributes the traversal of its tree.** -/
theorem tokensFrom_append (h : Nested part text e) (hb : opensOperand before = true)
    (hs : endsWithSign before = false) (ha : ∀ c ∈ after.head?, c.isDigit = false) :
    tokensFrom before (text ++ after) = e.inorder ++ tokensFrom (text.reverse ++ before) after := by
  induction h generalizing before after with
  | digits run =>
    rw [tokensFrom_run run hb ha, hs]
    rfl
  | negative run =>
    obtain ⟨c, digits, hrun, hc⟩ := run.exists_cons
    have hne : c ≠ '(' := ne_of_isDigit hc rfl
    have hsign : (Site.mk before '-' (run.val ++ after)).tokens = [] := by
      rw [tokens_sign hb, hrun]
      simp [hne]
    have hopens : opensOperand ('-' :: before) = true := rfl
    have hends : endsWithSign ('-' :: before) = true := hb
    rw [List.cons_append, tokensFrom_cons, hsign, List.nil_append, tokensFrom_run run hopens ha,
      hends]
    simp [Expr.inorder]
  | @group text e _ ih =>
    have ha : ∀ c ∈ (')' :: after).head?, c.isDigit = false := by
      rintro c ⟨⟩
      rfl
    rw [List.cons_append, List.append_assoc, List.singleton_append, tokensFrom_cons,
      tokens_bracket (.inl rfl), List.nil_append, ih rfl rfl ha, tokensFrom_cons,
      tokens_bracket (.inr rfl)]
    simp
  | @negation text e _ ih =>
    have ha : ∀ c ∈ (')' :: after).head?, c.isDigit = false := by
      rintro c ⟨⟩
      rfl
    -- the sign stands for the zero and the operator, the brackets for nothing
    have hsign : (Site.mk before '-' ('(' :: (text ++ ')' :: after))).tokens =
        [.number 0, .operator .sub] := tokens_sign hb
    rw [List.cons_append, List.cons_append, List.append_assoc, List.singleton_append,
      tokensFrom_cons, hsign, tokensFrom_cons, tokens_bracket (.inl rfl), List.nil_append,
      ih rfl rfl ha, tokensFrom_cons, tokens_bracket (.inr rfl), Expr.inorder_negation]
    simp
  | single _ ih => exact ih hb hs ha
  | @operation left right l r op hl _ ihl ihr =>
    have hleft := hl.opensOperand_reverse before
    have hop : ∀ c ∈ (op.symbol :: (right ++ after)).head?, c.isDigit = false := by
      rintro c ⟨⟩
      exact op.isDigit_symbol
    -- behind an operator an operand begins, and the operator is no sign
    have hopens : opensOperand (op.symbol :: (left.reverse ++ before)) = true := by
      simp [opensOperand]
    have hends : endsWithSign (op.symbol :: (left.reverse ++ before)) = false := by
      simp [endsWithSign, hleft]
    rw [List.append_assoc, List.cons_append, ihl hb hs hop, tokensFrom_cons,
      tokens_operator op hleft, ihr hopens hends ha]
    simp [Expr.inorder]

end Nested

/-- The operators among what a character contributes: itself, if it is a binary one, and one if it
is the sign of a group. -/
theorem countP_tokens (s : Site) :
    s.tokens.countP Token.isOperator =
      (if s.isBinary then 1 else 0) + if s.negatesGroup then 1 else 0 := by
  by_cases hd : s.symbol.isDigit = true
  · have hne : s.symbol ≠ '-' := ne_of_isDigit hd rfl
    have hsign : s.isOperandSign = false := by simp [Site.isOperandSign, endsWithSign, hne]
    have hop : Operator.ofChar? s.symbol = none := Operator.ofChar?_of_isDigit hd
    cases hb : s.before.head?.any Char.isDigit with
    | true => simp [Site.tokens, Site.isBinary, Site.negatesGroup, hd, hsign, hop, hb]
    | false =>
      simp [Site.tokens, Site.isBinary, Site.negatesGroup, hd, hsign, hop, hb, Token.isOperator]
  by_cases hsign : s.isOperandSign = true
  · simp only [Site.tokens, Site.isBinary, Site.negatesGroup, hd, hsign]
    by_cases hgroup : s.after.head? = some '('
    · simp [hgroup, List.countP_cons, Token.isOperator]
    · simp [hgroup]
  · cases hop : Operator.ofChar? s.symbol with
    | none => simp [Site.tokens, Site.isBinary, Site.negatesGroup, hd, hsign, hop]
    | some op =>
      simp [Site.tokens, Site.isBinary, Site.negatesGroup, hd, hsign, hop, List.countP_cons,
        Token.isOperator]

theorem countP_flatMap_tokens (sites : List Site) :
    (sites.flatMap Site.tokens).countP Token.isOperator =
      sites.countP Site.isBinary + sites.countP Site.negatesGroup := by
  induction sites with
  | nil => rfl
  | cons s sites ih =>
    rw [List.flatMap_cons, List.countP_append, countP_tokens, ih, List.countP_cons,
      List.countP_cons]
    omega

theorem inorder_of_nested {text : List Char} {e : Expr} (h : Nested .level text e) :
    e.inorder = tokens text := by
  have hnone : ∀ c ∈ ([] : List Char).head?, c.isDigit = false := by simp
  have hopens : opensOperand [] = true := rfl
  have happend := h.tokensFrom_append hopens rfl hnone
  rw [List.append_nil] at happend
  exact (happend.trans (List.append_nil _)).symm

/-- **The traversal of a tree that was read is what its text contributes**: no operand and no
operator is lost, comes twice or elsewhere.  So the text tells the number of nodes, and how deep the
tree can be. -/
theorem inorder_eq_tokens {text : List Char} {e : Expr} (h : Expr.ofGrouped text = .ok e) :
    e.inorder = tokens text ∧
      e.size = 2 * ((places text).countP Site.isBinary +
        (places text).countP Site.negatesGroup) + 1 ∧
      e.depth ≤ (e.size + 1) / 2 := by
  have hinorder := inorder_of_nested (nested_of_ofGrouped h)
  have hcount : e.operatorCount = (places text).countP Site.isBinary +
      (places text).countP Site.negatesGroup := by
    rw [Expr.operatorCount, hinorder, tokens, countP_flatMap_tokens]
  have hsize := e.size_eq
  have hdepth := e.depth_le
  refine ⟨hinorder, hcount ▸ hsize, ?_⟩
  omega

/-- Signs of numbers, signs of groups and subtractions in one text. -/
theorem inorder_eq_tokens_signs : ∃ e, Expr.ofGrouped "-(1--02)*(-3)/-(4+5)".toList = .ok e ∧
    e.inorder = [.number 0, .operator .sub, .number 1, .operator .sub, .number (-2),
      .operator .mul, .number (-3), .operator .div, .number 0, .operator .sub, .number 4,
      .operator .add, .number 5] ∧ e.size = 13 := by
  have htree : Expr.ofGrouped "-(1--02)*(-3)/-(4+5)".toList =
      .ok (.binary .mul (Expr.binary .sub (.literal 1) (.literal (-2))).negate
        (.binary .div (.literal (-3)) (Expr.binary .add (.literal 4) (.literal 5)).negate)) := by
    decide +kernel
  obtain ⟨hinorder, hsize, -⟩ := inorder_eq_tokens htree
  exact ⟨_, htree, hinorder.trans (by decide +kernel), hsize.trans (by decide +kernel)⟩

end Formula

end ExactCalc
