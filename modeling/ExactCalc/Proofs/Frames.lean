/-
What stands round a level.

* `Derivation.extend` — a level with further operators and their operands behind it;
* `Expr.Context`, `Reading.Context` — an expression and a meaning with a place left open;
* `Frame`, `Frame.fill` — the levels round a level;
* `Frame.tree_fill` — the expression of a filled frame has the expression of the level in one place;
* `Scan.Remaining` — what is still to be read in a state;
* `Scan.exists_frame` — a text that is read up to a place and from there to its end has a frame
  there.
-/
import ExactCalc.Proofs.Enclosing
import ExactCalc.Proofs.Precedence

namespace ExactCalc

/-- An expression with one place left open. -/
inductive Expr.Context where
  | hole
  | left (op : Operator) (inner : Context) (right : Expr)
  | right (op : Operator) (left : Expr) (inner : Context)

namespace Expr.Context

/-- The expression with `e` in the open place. -/
def fill : Context → Expr → Expr
  | hole, e => e
  | left op inner r, e => .binary op (inner.fill e) r
  | right op l inner, e => .binary op l (inner.fill e)

/-- One context in the open place of another. -/
def comp : Context → Context → Context
  | hole, K => K
  | left op inner r, K => .left op (inner.comp K) r
  | right op l inner, K => .right op l (inner.comp K)

@[simp]
theorem fill_comp (outer inner : Context) (e : Expr) :
    (outer.comp inner).fill e = outer.fill (inner.fill e) := by
  induction outer with
  | hole => rfl
  | left op _ r ih => exact congrArg (Expr.binary op · r) ih
  | right op l _ ih => exact congrArg (Expr.binary op l) ih

/-- The value depends on the value in the open place alone. -/
theorem eval_fill_congr (K : Context) {e e' : Expr} (h : e.eval = e'.eval) :
    (K.fill e).eval = (K.fill e').eval := by
  induction K with
  | hole => exact h
  | left op inner r ih => rw [fill, fill, eval, eval, ih]
  | right op l inner ih => rw [fill, fill, eval, eval, ih]

end Expr.Context

namespace Formula

/-- A meaning with one place left open, in its term or in the sum before it. -/
inductive Reading.Context where
  | term (sum? : Option (Expr × Operator)) (K : Expr.Context)
  | sum (K : Expr.Context) (op : Operator) (term : Expr)

namespace Reading.Context

def fill : Context → Expr → Reading
  | term sum? K, e => ⟨sum?, K.fill e⟩
  | sum K op t, e => ⟨some (K.fill e, op), t⟩

/-- The meaning as one expression. -/
def tree : Context → Expr.Context
  | term none K => K
  | term (some (s, op)) K => .right op s K
  | sum K op t => .left op K t

theorem tree_fill (C : Context) (e : Expr) : (C.fill e).tree = C.tree.fill e := by
  rcases C with ⟨_ | ⟨s, op⟩, K⟩ | ⟨K, op, t⟩ <;> rfl

/-- The meaning with one more operator and operand behind it. -/
def extend (C : Context) (op : Operator) (operand : Expr) : Context :=
  match op.tier, C with
  | .multiplicative, term sum? K => .term sum? (.left op K operand)
  | .multiplicative, sum K op₀ t => .sum K op₀ (.binary op t operand)
  | .additive, C => .sum C.tree op operand

theorem fill_extend (C : Context) (op : Operator) (operand e : Expr) :
    (C.extend op operand).fill e = (C.fill e).extend op operand := by
  cases ht : op.tier with
  | multiplicative =>
    rw [(C.fill e).extend_of_multiplicative operand ht]
    cases C <;> simp [extend, ht, fill, Expr.Context.fill]
  | additive =>
    simp only [extend, (C.fill e).extend_of_additive operand ht, ht, C.tree_fill]
    rfl

end Reading.Context

/-- Operators, each with the operand behind it. -/
abbrev Tail := List (Operator × Derivation .operand)

namespace Tail

def text (rest : Tail) : List Char :=
  rest.flatMap fun x => x.1.symbol :: x.2.text

theorem text_cons (op : Operator) (operand : Derivation .operand) (rest : Tail) :
    text ((op, operand) :: rest) = op.symbol :: (operand.text ++ text rest) := rfl

end Tail

/-- The meaning of a level with further operators and operands. -/
def Reading.extendBy (r : Reading) (rest : Tail) : Reading :=
  rest.foldl (fun r x => r.extend x.1 x.2.tree) r

/-- Further operators and operands leave the open place where it is. -/
def Reading.Context.extendBy (C : Reading.Context) (rest : Tail) : Reading.Context :=
  rest.foldl (fun C x => C.extend x.1 x.2.tree) C

theorem Reading.Context.fill_extendBy (C : Reading.Context) (rest : Tail) (e : Expr) :
    (C.extendBy rest).fill e = (C.fill e).extendBy rest := by
  induction rest generalizing C with
  | nil => rfl
  | cons x rest ih =>
    have hstep := ih (C.extend x.1 x.2.tree)
    rw [C.fill_extend] at hstep
    exact hstep

namespace Derivation

/-- A level with further operators and operands. -/
def extend (level : Derivation .level) (rest : Tail) : Derivation .level :=
  rest.foldl (fun level x => level.more x.1 x.2) level

@[simp]
theorem text_extend (level : Derivation .level) (rest : Tail) :
    (level.extend rest).text = level.text ++ rest.text := by
  induction rest generalizing level with
  | nil => simp [extend, Tail.text]
  | cons x rest ih =>
    have hmore : (level.extend (x :: rest)).text = ((level.more x.1 x.2).extend rest).text := rfl
    rw [hmore, ih, Tail.text_cons x.1 x.2 rest]
    simp [text]

theorem reading_extend (level : Derivation .level) (rest : Tail) :
    (level.extend rest).reading = level.reading.extendBy rest := by
  induction rest generalizing level with
  | nil => rfl
  | cons x rest ih => exact ih (level.more x.1 x.2)

end Derivation

/-- What a level means with a group as its next operand, the expression of the group left open. -/
def Stub.context : Stub → Reading.Context
  | empty => .term none .hole
  | sign => .term none (.right .sub (.literal 0) .hole)
  | operator before op =>
    match op.tier with
    | .multiplicative => .term before.reading.sum? (.right op before.reading.term .hole)
    | .additive => .term (some (before.tree, op)) .hole

theorem Stub.reading_fill_group (stub : Stub) (inner : Derivation .level) :
    (stub.fill (.group inner)).reading = stub.context.fill inner.tree := by
  cases stub with
  | empty => rfl
  | sign => rfl
  | operator before op =>
    rw [fill, Derivation.reading_more, Derivation.tree_group]
    cases ht : op.tier with
    | multiplicative =>
      rw [before.reading.extend_of_multiplicative _ ht]
      simp only [context, ht]
      rfl
    | additive =>
      rw [before.reading.extend_of_additive _ ht]
      simp only [context, ht]
      rfl

/-! ### Frames -/

/-- What stands round a level: nothing, or a pair of brackets and the rest of the level that the
pair belongs to, which has a frame of its own. -/
inductive Frame where
  | outermost
  | group (outer : Frame) (stub : Stub) (rest : Tail)

namespace Frame

/-- The formula with a level in the frame. -/
def fill : Frame → Derivation .level → Derivation .level
  | outermost, level => level
  | group outer stub rest, level => outer.fill ((stub.fill (.group level)).extend rest)

def before : Frame → List Char
  | outermost => []
  | group outer stub _ => outer.before ++ stub.text ++ ['(']

def after : Frame → List Char
  | outermost => []
  | group outer _ rest => ')' :: (rest.text ++ outer.after)

@[simp]
theorem text_fill (F : Frame) (level : Derivation .level) :
    (F.fill level).text = F.before ++ (level.text ++ F.after) := by
  induction F generalizing level with
  | outermost => simp [fill, before, after]
  | group outer stub rest ih => simp [fill, before, after, ih, Derivation.text]

theorem opensLevel_before (F : Frame) : opensLevel F.before.reverse = true := by
  cases F with
  | outermost => rfl
  | group outer stub rest => simp [before, opensLevel]

/-- The expression of the formula, the expression of the level left open. -/
def context : Frame → Expr.Context
  | outermost => .hole
  | group outer stub rest =>
    outer.context.comp (stub.context.extendBy rest).tree

end Frame

/-- **The expression of the formula has the expression of the level in one place.** -/
theorem Frame.tree_fill (F : Frame) (level : Derivation .level) :
    (F.fill level).tree = F.context.fill level.tree := by
  induction F generalizing level with
  | outermost => rfl
  | group outer stub rest ih =>
    rw [fill, ih, context, Expr.Context.fill_comp, ← Reading.Context.tree_fill,
      Reading.Context.fill_extendBy, ← stub.reading_fill_group, ← Derivation.reading_extend]
    rfl

/-- The expression of the formula, that of the first operand of the level left open. -/
def Frame.firstContext (F : Frame) (rest : Tail) : Expr.Context :=
  F.context.comp (Reading.Context.extendBy (.term none .hole) rest).tree

theorem Frame.tree_fill_first (F : Frame) (signed : Bool) (operand : Derivation .operand)
    (rest : Tail) :
    (F.fill ((Derivation.first signed operand).extend rest)).tree =
      (F.firstContext rest).fill (Derivation.first signed operand).tree := by
  rw [F.tree_fill, firstContext, Expr.Context.fill_comp, ← Reading.Context.tree_fill,
    Reading.Context.fill_extendBy, Derivation.tree, Derivation.reading_extend,
    Derivation.reading_first]
  rfl

/-! ### From a place to a frame -/

namespace Scan

/-- The text behind an operand that closes the open brackets, up to the end of the formula. -/
inductive Closed : Nat → List Char → Prop where
  | none (rest : Tail) : Closed 0 rest.text
  | more {depth : Nat} {text : List Char} (rest : Tail) (h : Closed depth text) :
      Closed (depth + 1) (rest.text ++ ')' :: text)

theorem Closed.operation {depth : Nat} {text : List Char} (h : Closed depth text)
    (op : Operator) (operand : Derivation .operand) :
    Closed depth (op.symbol :: (operand.text ++ text)) := by
  cases h with
  | none rest => exact .none ((op, operand) :: rest)
  | @more depth text rest h =>
    have hmore := Closed.more ((op, operand) :: rest) h
    rwa [Tail.text_cons, List.cons_append, List.append_assoc] at hmore

/-- The text that is still to be read in a state, with as many brackets to close as are open.  What
has been read is told by `Scan.Reached`. -/
def Remaining : Scan → List Char → Prop
  | ⟨.start, depth⟩, text => ∃ (level : Derivation .level) (rest : List Char),
      text = level.text ++ rest ∧ Closed depth rest
  | ⟨.operator, depth⟩, text => ∃ (operand : Derivation .operand) (rest : List Char),
      text = operand.text ++ rest ∧ Closed depth rest
  | ⟨.digit, depth⟩, text => ∃ digits rest : List Char,
      text = digits ++ rest ∧ (∀ c ∈ digits, c.isDigit = true) ∧ Closed depth rest
  | ⟨.close, depth⟩, text => Closed depth text

theorem Closed.remaining {place : Place} {depth : Nat} {text : List Char} (h : Closed depth text)
    (hp : place.awaitsOperand = false) : Remaining ⟨place, depth⟩ text := by
  cases place with
  | start | operator => cases hp
  | digit => exact ⟨[], text, rfl, nofun, h⟩
  | close => exact h

/-- Where an operand is awaited, it comes next. -/
theorem remaining_of_operand {place : Place} {depth : Nat} {rest : List Char}
    (hp : place.awaitsOperand = true) (operand : Derivation .operand) (h : Closed depth rest) :
    Remaining ⟨place, depth⟩ (operand.text ++ rest) := by
  cases place with
  | start => exact ⟨.first false operand, rest, rfl, h⟩
  | operator => exact ⟨operand, rest, rfl, h⟩
  | digit | close => cases hp

/-- One step back. -/
theorem Remaining.cons {s s' : Scan} {c : Char} {text : List Char} (h : Remaining s' text)
    (hr : Reads s c s') : Remaining s (c :: text) := by
  cases hr with
  | @digit place depth _ hc hp =>
    obtain ⟨digits, rest, rfl, hd, hrest⟩ := h
    have hcons : ∀ d ∈ c :: digits, d.isDigit = true := List.forall_mem_cons.mpr ⟨hc, hd⟩
    let run : DigitRun := ⟨c :: digits, List.cons_ne_nil c digits, List.all_eq_true.mpr hcons⟩
    -- the digit continues a run or begins one
    cases place with
    | start => exact remaining_of_operand rfl (.digits run) hrest
    | operator => exact remaining_of_operand rfl (.digits run) hrest
    | digit => exact ⟨c :: digits, rest, rfl, hcons, hrest⟩
    | close => exact absurd rfl hp
  | opening hp =>
    -- the level behind the bracket is complete where its bracket closes
    obtain ⟨level, rest, rfl, hrest⟩ := h
    cases hrest with
    | @more _ text rest hrest =>
      have hgroup := remaining_of_operand hp (.group (level.extend rest)) hrest
      simpa [Derivation.text] using hgroup
  | closing hp => exact (Closed.more [] h).remaining hp
  | sign =>
    obtain ⟨operand, rest, rfl, hrest⟩ := h
    exact ⟨.first true operand, rest, rfl, hrest⟩
  | operator op hp =>
    obtain ⟨operand, rest, rfl, hrest⟩ := h
    exact (hrest.operation op operand).remaining hp

theorem remaining_of_run {s s' : Scan} {text : List Char} (h : s.run text = some s')
    (hs : s'.isComplete = true) : Remaining s text := by
  induction text generalizing s with
  | nil =>
    cases h
    obtain ⟨place, depth⟩ := s'
    obtain ⟨hd, hp⟩ := isComplete_iff.mp hs
    obtain rfl : depth = 0 := hd
    exact (Closed.none []).remaining hp
  | cons c text ih =>
    obtain ⟨s₁, hr, h⟩ := exists_reads_of_run_cons h
    exact (ih h).cons hr

/-- What closes the open levels fits to what opened them. -/
theorem Opened.exists_frame {depth : Nat} {opened text : List Char} (h : Opened depth opened)
    (hc : Closed depth text) :
    ∃ (F : Frame) (rest : Tail), opened = F.before ∧ text = rest.text ++ F.after := by
  induction h generalizing text with
  | none =>
    cases hc with
    | none rest => exact ⟨.outermost, rest, rfl, (List.append_nil _).symm⟩
  | more _ stub ih =>
    cases hc with
    | more rest hc =>
      obtain ⟨F, outer, rfl, rfl⟩ := ih hc
      exact ⟨.group F stub outer, rest, rfl, rfl⟩

/-- Behind an operator or a sign an operand is awaited. -/
theorem awaitsOperand_of_run_operator {before : List Char} {op : Operator} {s s' : Scan}
    (h : s.run (before ++ [op.symbol]) = some s') : s'.place.awaitsOperand = true := by
  obtain ⟨s₁, hr⟩ := exists_reads_last h
  rw [(reads_operator hr).1]
  rfl

section Places

variable {before after : List Char} {s s' : Scan} {p : Place}
variable (hafter : Scan.run ⟨p, s.depth⟩ after = some s') (hs' : s'.isComplete = true)
variable (hp : p.awaitsOperand = false) (hd : p = .digit → ∀ c ∈ after.head?, c.isDigit = false)
include hafter hs' hp hd

/-- **A text that is read up to a place, and from there to its end when an operand is complete, has
a frame there.** -/
theorem exists_frame (hbefore : initial.run before = some s) :
    ∃ (F : Frame) (level : List Char) (rest : Tail),
      before = F.before ++ level ∧ LevelRead s.place level ∧ after = rest.text ++ F.after := by
  obtain ⟨opened, level, rfl, hopened, hlevel⟩ := Reached.initial.run hbefore
  have hremaining := remaining_of_run hafter hs'
  have hclosed : Closed s.depth after := by
    cases p with
    | start | operator => cases hp
    | close => exact hremaining
    | digit =>
      obtain ⟨_ | ⟨c, digits⟩, rest, rfl, hdigits, hrest⟩ := hremaining
      · exact hrest
      · have hc := hdigits c List.mem_cons_self
        rw [hd rfl c rfl] at hc
        cases hc
  obtain ⟨F, rest, rfl, rfl⟩ := hopened.exists_frame hclosed
  exact ⟨F, level, rest, rfl, hlevel, rfl⟩

/-- Where an operand is awaited, the level goes on. -/
theorem exists_frame_of_awaitsOperand (hbefore : initial.run before = some s)
    (hs : s.place.awaitsOperand = true) :
    ∃ (F : Frame) (stub : Stub) (rest : Tail),
      before = F.before ++ stub.text ∧ after = rest.text ++ F.after := by
  obtain ⟨F, level, rest, rfl, hlevel, rfl⟩ := exists_frame hafter hs' hp hd hbefore
  obtain ⟨stub, rfl⟩ := hlevel.exists_stub hs
  exact ⟨F, stub, rest, rfl, rfl⟩

/-- Where a level opens, nothing of it has been read. -/
theorem exists_frame_of_opensLevel (hbefore : initial.run before = some s)
    (hopens : opensLevel before.reverse = true) :
    ∃ (F : Frame) (rest : Tail), before = F.before ∧ after = rest.text ++ F.after := by
  obtain ⟨F, level, rest, rfl, hlevel, rfl⟩ := exists_frame hafter hs' hp hd hbefore
  rw [place_eq_start hbefore hopens] at hlevel
  obtain rfl : level = [] := hlevel
  exact ⟨F, rest, List.append_nil _, rfl⟩

/-- In front of an operator that is no sign stands the beginning of a level. -/
theorem exists_frame_of_operator {op : Operator}
    (hbefore : initial.run (before ++ [op.symbol]) = some s)
    (hop : isSign before.reverse op.symbol = false) :
    ∃ (F : Frame) (level : Derivation .level) (rest : Tail),
      before = F.before ++ level.text ∧ after = rest.text ++ F.after := by
  obtain ⟨F, stub, rest, heq, rfl⟩ := exists_frame_of_awaitsOperand hafter hs' hp hd hbefore
    (awaitsOperand_of_run_operator hbefore)
  cases stub with
  | empty =>
    -- a level does not open behind an operator
    have hopens := F.opensLevel_before
    have heq : before ++ [op.symbol] = F.before := heq.trans (List.append_nil _)
    simp [← heq, opensLevel, op.symbol_ne_opening] at hopens
  | sign =>
    obtain ⟨rfl, hsymbol⟩ := List.append_inj' heq rfl
    rw [List.singleton_inj.mp hsymbol, isSign, F.opensLevel_before] at hop
    cases hop
  | operator level op' =>
    have hsplit : before ++ [op.symbol] = (F.before ++ level.text) ++ [op'.symbol] :=
      heq.trans (List.append_assoc _ _ _).symm
    exact ⟨F, level, rest, (List.append_inj' hsplit rfl).1, rfl⟩

end Places

end Scan

end Formula

end ExactCalc
