/-
Brackets that change nothing.

* `TightRun`, `Enclosable` — the parts of a text that may get a pair of brackets of their own;
* `enclose` — the text with that pair;
* `SignedRun` — the part is a run of digits with a sign in front of it;
* `keepsExpr_of_reading_eq` — in a frame, two levels that mean the same have the same expression;
* `Enclosable.keepsExpr` — a formula keeps its expression when a part of it gets a pair;
* `parse_enclose` — it keeps its value, too, also where a sign loses its digits.

Design notes: the parts are told by their text alone.  What stands round a part is a frame, which
the scan gives for any place of a formula, and with the pair the frame is the same.  How the
operators are grouped, with the pair and without, need not be compared.
-/
import ExactCalc.Proofs.Frames
import ExactCalc.Proofs.Parsing

namespace ExactCalc.Formula

/-- Operands joined by multiplicative operators, or a single one. -/
inductive TightRun : List Char → Prop where
  | operand {text : List Char} (h : Operand text) : TightRun text
  | operation {text operand : List Char} {op : Operator} (h : TightRun text)
      (ht : op.tier = .multiplicative) (ho : Operand operand) :
      TightRun (text ++ op.symbol :: operand)

/-- The part between `before` and `after` may get a pair of brackets of its own. -/
inductive Enclosable : (before part after : List Char) → Prop where
  /-- It is the whole text. -/
  | whole (part : List Char) : Enclosable [] part []
  /-- It is all that stands between a bracket and its partner. -/
  | content {before inner after : List Char} (h : Balanced '(' ')' inner) :
      Enclosable (before ++ ['(']) inner (')' :: after)
  /-- It is a run of digits, from the first of them to the last. -/
  | digits {before after : List Char} (run : DigitRun)
      (hl : ∀ c ∈ before.getLast?, c.isDigit = false)
      (hr : ∀ c ∈ after.head?, c.isDigit = false) : Enclosable before run.val after
  /-- It is a group. -/
  | group {before inner after : List Char} (h : Balanced '(' ')' inner) :
      Enclosable before ('(' :: (inner ++ [')'])) after
  /-- It is the first operand of a level with its sign, if there is one. -/
  | first {before sign operand after : List Char} (hl : opensLevel before.reverse = true)
      (hsign : sign = [] ∨ sign = ['-']) (ho : Operand operand)
      (hr : ∀ c ∈ after.head?, c.isDigit = false) : Enclosable before (sign ++ operand) after
  /-- It is the first term of a level, with its sign. -/
  | firstTerm {before sign run after : List Char} (hl : opensLevel before.reverse = true)
      (hsign : sign = [] ∨ sign = ['-']) (hrun : TightRun run)
      (hr : ∀ c ∈ after.head?, c.isDigit = false ∧ Tier.multiplicative.holds c = false) :
      Enclosable before (sign ++ run) after
  /-- It is a term behind an additive operator. -/
  | term {before run after : List Char} {op : Operator} (ht : op.tier = .additive)
      (hl : isSign before.reverse op.symbol = false) (hrun : TightRun run)
      (hr : ∀ c ∈ after.head?, c.isDigit = false ∧ Tier.multiplicative.holds c = false) :
      Enclosable (before ++ [op.symbol]) run after

/-- The text with a pair of brackets round a part. -/
def enclose (before part after : List Char) : List Char :=
  before ++ '(' :: (part ++ ')' :: after)

/-- The part is a run of digits, and a sign stands in front of it. -/
def SignedRun (before part : List Char) : Prop :=
  (∃ run : DigitRun, part = run.val) ∧
    ∃ outer : List Char, before = outer ++ ['-'] ∧ opensLevel outer.reverse = true

/-! ### Derivations of the parts -/

namespace Scan

/-- A formula is read in three parts. -/
theorem exists_runs {before part after : List Char}
    (hvalid : isValid (before ++ (part ++ after)) = true)
    (hblank : ∀ c ∈ before ++ (part ++ after), Text.isBlank c = false) :
    ∃ s₁ s₂ s₃, initial.run before = some s₁ ∧ s₁.run part = some s₂ ∧ s₂.run after = some s₃ ∧
      s₃.isComplete = true := by
  rw [isValid_iff_accepts, Text.dropBlanks_eq_self.mpr hblank] at hvalid
  obtain ⟨s₃, hrun, hs⟩ := hvalid
  obtain ⟨s₁, hbefore, hrun⟩ := exists_run_of_run_append hrun
  obtain ⟨s₂, hpart, hafter⟩ := exists_run_of_run_append hrun
  exact ⟨s₁, s₂, s₃, hbefore, hpart, hafter, hs⟩

/-- What stands in a group that is read is a level. -/
theorem exists_derivation_of_run_group {inner : List Char} (hi : Balanced '(' ')' inner)
    {s s' : Scan} (hrun : s.run ('(' :: (inner ++ [')'])) = some s') :
    s.place.awaitsOperand = true ∧ s' = ⟨.close, s.depth⟩ ∧
      ∃ level : Derivation .level, level.text = inner := by
  obtain ⟨s₁, hopen, hrun⟩ := exists_reads_of_run_cons hrun
  obtain ⟨s₂, hinner, hrun⟩ := exists_run_of_run_append hrun
  obtain ⟨s₃, hclose, hrun⟩ := exists_reads_of_run_cons hrun
  cases hrun
  obtain ⟨hp, rfl⟩ := reads_opening hopen
  obtain ⟨hdepth, hinner'⟩ := run_balanced hi hinner
  obtain ⟨hp₂, hdepth', hplace⟩ := reads_closing hclose
  refine ⟨hp, ?_, ?_⟩
  · obtain ⟨place, depth⟩ := s'
    have hdepth : s₂.depth = s.depth + 1 := hdepth
    obtain rfl : place = .close := hplace
    obtain rfl : depth = s.depth := Nat.succ.inj (hdepth'.symm.trans hdepth)
    rfl
  · -- read on its own, the inside is a whole formula
    exact exists_derivation_iff.mpr ⟨_, hinner' 0, isComplete_iff.mpr ⟨rfl, hp₂⟩⟩

theorem eq_of_run_digitRun {run : DigitRun} {s s' : Scan} (hp : s.place.awaitsOperand = true)
    (hrun : s.run run.val = some s') : s' = ⟨.digit, s.depth⟩ :=
  Option.some.inj (hrun.symm.trans (run_digitRun hp run))

/-- An operand that is read where one is awaited. -/
theorem exists_derivation_of_run_operand {text : List Char} (h : Operand text) {s s' : Scan}
    (hp : s.place.awaitsOperand = true) (hrun : s.run text = some s') :
    (∃ p : Place, p.awaitsOperand = false ∧ s' = ⟨p, s.depth⟩) ∧
      ∃ operand : Derivation .operand, operand.text = text := by
  obtain ⟨hdepth, hp', -⟩ := run_operand h hp hrun
  refine ⟨⟨s'.place, hp', by rw [← hdepth]⟩, ?_⟩
  cases h with
  | digits run => exact ⟨.digits run, rfl⟩
  | group hi =>
    obtain ⟨-, -, level, rfl⟩ := exists_derivation_of_run_group hi hrun
    exact ⟨.group level, rfl⟩

/-- A run of operands that is read where one is awaited. -/
theorem exists_derivation_of_run_tightRun {text : List Char} (h : TightRun text) {s s' : Scan}
    (hp : s.place.awaitsOperand = true) (hrun : s.run text = some s') :
    (∃ p : Place, p.awaitsOperand = false ∧ s' = ⟨p, s.depth⟩) ∧
      ∃ (operand : Derivation .operand) (rest : Tail), text = operand.text ++ rest.text ∧
        ∀ x ∈ rest, x.1.tier = .multiplicative := by
  induction h generalizing s' with
  | operand h =>
    obtain ⟨hs', operand, rfl⟩ := exists_derivation_of_run_operand h hp hrun
    exact ⟨hs', operand, [], (List.append_nil _).symm, nofun⟩
  | @operation text right op h ht ho ih =>
    obtain ⟨s₁, htext, hrun⟩ := exists_run_of_run_append hrun
    obtain ⟨s₂, hop, hrun⟩ := exists_reads_of_run_cons hrun
    obtain ⟨⟨p, -, rfl⟩, operand, rest, rfl, hrest⟩ := ih htext
    obtain ⟨rfl, -⟩ := reads_operator hop
    obtain ⟨hs', right, rfl⟩ := exists_derivation_of_run_operand ho rfl hrun
    refine ⟨hs', operand, rest ++ [(op, right)], ?_, ?_⟩
    · simp [Tail.text]
    · intro x hx
      rcases List.mem_append.mp hx with hx | hx
      · exact hrest x hx
      · rw [List.mem_singleton.mp hx]
        exact ht

/-- Where a level begins, an operand is awaited with a sign and without. -/
theorem exists_run_of_sign {s s' : Scan} {sign text : List Char} (hs : s.place = .start)
    (hsign : sign = [] ∨ sign = ['-']) (hrun : s.run (sign ++ text) = some s') :
    ∃ (signed : Bool) (s₁ : Scan),
      (∀ operand : Derivation .operand,
        (Derivation.first signed operand).text = sign ++ operand.text) ∧
      s₁.place.awaitsOperand = true ∧ s₁.depth = s.depth ∧ s₁.run text = some s' := by
  rcases hsign with rfl | rfl
  · exact ⟨false, s, fun _ => rfl, by rw [hs]; rfl, rfl, hrun⟩
  · obtain ⟨s₁, hr, hrun⟩ := exists_reads_of_run_cons hrun
    obtain ⟨rfl, -⟩ := @reads_operator s s₁ .sub hr
    exact ⟨true, ⟨.operator, s.depth⟩, fun _ => rfl, rfl, rfl, hrun⟩

end Scan

/-! ### Meanings -/

namespace Derivation

/-- A level without a sum means the same between brackets. -/
theorem reading_enclose {level : Derivation .level} (h : level.reading.sum? = none) :
    (first false (group level)).reading = level.reading := by
  have htree : level.tree = level.reading.term := by rw [tree, Reading.tree, h]
  calc (first false (group level)).reading = ⟨none, level.tree⟩ := rfl
    _ = level.reading := by rw [htree, ← h]

theorem sum?_reading_first (signed : Bool) (operand : Derivation .operand) :
    (first signed operand).reading.sum? = none := by
  rw [reading_first]

/-- Multiplicative operators leave the sum alone, and what they make of the term does not depend on
it. -/
theorem extendBy_tight {rest : Tail} (h : ∀ x ∈ rest, x.1.tier = .multiplicative)
    (sum? : Option (Expr × Operator)) (e : Expr) :
    Reading.extendBy ⟨sum?, e⟩ rest = ⟨sum?, (Reading.extendBy ⟨none, e⟩ rest).term⟩ := by
  induction rest generalizing e with
  | nil => rfl
  | cons x rest ih =>
    have hx : ∀ sum? : Option (Expr × Operator), Reading.extendBy ⟨sum?, e⟩ (x :: rest) =
        Reading.extendBy ⟨sum?, .binary x.1 e x.2.tree⟩ rest := by
      intro sum?
      rw [Reading.extendBy, List.foldl_cons,
        Reading.extend_of_multiplicative _ _ (h x List.mem_cons_self)]
      rfl
    rw [hx sum?, hx none]
    exact ih (fun y hy => h y (List.mem_cons_of_mem x hy)) _

/-- The first term of a level is not a sum. -/
theorem sum?_reading_tight {rest : Tail} (h : ∀ x ∈ rest, x.1.tier = .multiplicative)
    (signed : Bool) (operand : Derivation .operand) :
    ((first signed operand).extend rest).reading.sum? = none := by
  rw [reading_extend, reading_first, extendBy_tight h]

/-- Behind an additive operator a term means the same between brackets. -/
theorem reading_more_enclose {op : Operator} (ht : op.tier = .additive) {rest : Tail}
    (h : ∀ x ∈ rest, x.1.tier = .multiplicative) (before : Derivation .level)
    (operand : Derivation .operand) :
    (before.more op (group ((first false operand).extend rest))).reading =
      ((before.more op operand).extend rest).reading := by
  have hadd : ∀ e : Expr, before.reading.extend op e = ⟨some (before.tree, op), e⟩ := fun e =>
    before.reading.extend_of_additive e ht
  have hterm : ((first false operand).extend rest).tree =
      (Reading.extendBy ⟨none, operand.tree⟩ rest).term := by
    rw [tree, Reading.tree, sum?_reading_tight h false operand, reading_extend, reading_first,
      tree_unsigned]
  rw [reading_extend, reading_more, reading_more, tree_group, hadd, hadd, hterm,
    extendBy_tight h (some (before.tree, op))]

/-- A single operand means the same between brackets, unless it is a run of digits with a sign. -/
theorem reading_fill_enclose (stub : Stub) (operand : Derivation .operand)
    (h : stub = .sign → ∃ inner, operand = group inner) :
    (stub.fill (group (first false operand))).reading = (stub.fill operand).reading := by
  have htree : (group (first false operand)).tree = operand.tree := by
    rw [tree_group, tree_unsigned]
  cases stub with
  | empty => exact reading_enclose (sum?_reading_first false operand)
  | sign =>
    obtain ⟨inner, rfl⟩ := h rfl
    rfl
  | operator before op => rw [Stub.fill, Stub.fill, reading_more, reading_more, htree]

end Derivation

/-! ### The text with the pair -/

/-- The text is a formula with the pair, and keeps its expression. -/
def KeepsExpr (before part after : List Char) : Prop :=
  isValid (enclose before part after) = true ∧
    Expr.parse (enclose before part after) = Expr.parse (before ++ (part ++ after))

/-- What a level means is all that a frame asks for. -/
theorem keepsExpr_of_reading_eq (F : Frame) {level level' : Derivation .level} (rest : Tail)
    {before part after : List Char} (h : level'.reading = level.reading)
    (htext : before ++ (part ++ after) = (F.fill (level.extend rest)).text)
    (htext' : enclose before part after = (F.fill (level'.extend rest)).text) :
    KeepsExpr before part after := by
  have hlevel : (level'.extend rest).tree = (level.extend rest).tree := by
    rw [Derivation.tree, Derivation.tree, Derivation.reading_extend, Derivation.reading_extend, h]
  rw [KeepsExpr, htext, htext']
  refine ⟨isValid_text _, ?_⟩
  rw [parse_text, parse_text, F.tree_fill, F.tree_fill, hlevel]

/-! ### The parts -/

section Parts

variable {before after : List Char}

theorem keepsExpr_whole {part : List Char} (hvalid : isValid part = true)
    (hblank : ∀ c ∈ part, Text.isBlank c = false) : KeepsExpr [] part [] := by
  obtain ⟨level, hlevel⟩ := isValid_iff_exists_derivation.mp hvalid
  rw [Text.dropBlanks_eq_self.mpr hblank] at hlevel
  have hpair : enclose [] part [] = (Derivation.first false (.group level)).text := by
    rw [← hlevel]
    rfl
  have htree : (Derivation.first false (.group level)).tree = level.tree := by
    rw [Derivation.tree_unsigned, Derivation.tree_group]
  rw [KeepsExpr, hpair, List.nil_append, List.append_nil, ← hlevel, parse_text, parse_text, htree]
  exact ⟨isValid_text _, rfl⟩

variable {s₁ s₂ s₃ : Scan} (hafter : s₂.run after = some s₃) (hs : s₃.isComplete = true)
include hafter hs

/-- A pair round a single operand. -/
theorem keepsExpr_operand (operand : Derivation .operand) {p : Place}
    (hbefore : Scan.initial.run before = some s₁) (hs₁ : s₁.place.awaitsOperand = true)
    (hs₂ : s₂ = ⟨p, s₁.depth⟩) (hp : p.awaitsOperand = false)
    (hd : p = .digit → ∀ c ∈ after.head?, c.isDigit = false)
    (hsigned : SignedRun before operand.text → ∃ inner, operand = .group inner) :
    KeepsExpr before operand.text after := by
  subst hs₂
  obtain ⟨F, stub, rest, rfl, rfl⟩ :=
    Scan.exists_frame_of_awaitsOperand hafter hs hp hd hbefore hs₁
  have hsign : stub = .sign → ∃ inner, operand = .group inner := by
    rintro rfl
    cases operand with
    | digits run => exact hsigned ⟨⟨run, rfl⟩, F.before, rfl, F.opensLevel_before⟩
    | group inner => exact ⟨inner, rfl⟩
  refine keepsExpr_of_reading_eq F rest (Derivation.reading_fill_enclose stub operand hsign) ?_ ?_
  · simp
  · simp [enclose, Derivation.text]

/-- A pair round the operands that a level begins with. -/
theorem keepsExpr_firstTerm {sign run : List Char}
    (hbefore : Scan.initial.run before = some s₁) (hopens : opensLevel before.reverse = true)
    (hsign : sign = [] ∨ sign = ['-']) (hrun : TightRun run)
    (hread : s₁.run (sign ++ run) = some s₂) (hd : ∀ c ∈ after.head?, c.isDigit = false) :
    KeepsExpr before (sign ++ run) after := by
  obtain ⟨signed, s, hfirst, hs₁, hdepth, hread⟩ :=
    Scan.exists_run_of_sign (Scan.place_eq_start hbefore hopens) hsign hread
  obtain ⟨⟨p, hp, rfl⟩, operand, tight, rfl, htight⟩ :=
    Scan.exists_derivation_of_run_tightRun hrun hs₁ hread
  rw [hdepth] at hafter
  obtain ⟨F, rest, rfl, rfl⟩ :=
    Scan.exists_frame_of_opensLevel hafter hs hp (fun _ => hd) hbefore hopens
  have hreading := Derivation.reading_enclose (Derivation.sum?_reading_tight htight signed operand)
  refine keepsExpr_of_reading_eq F rest hreading ?_ ?_
  · simp [hfirst]
  · simp [enclose, Derivation.text, hfirst]

/-- A pair round a term behind an additive operator. -/
theorem keepsExpr_term {op : Operator} {run : List Char} (ht : op.tier = .additive)
    (hbefore : Scan.initial.run (before ++ [op.symbol]) = some s₁)
    (hop : isSign before.reverse op.symbol = false) (hrun : TightRun run)
    (hread : s₁.run run = some s₂) (hd : ∀ c ∈ after.head?, c.isDigit = false) :
    KeepsExpr (before ++ [op.symbol]) run after := by
  obtain ⟨⟨p, hp, rfl⟩, operand, tight, rfl, htight⟩ :=
    Scan.exists_derivation_of_run_tightRun hrun (Scan.awaitsOperand_of_run_operator hbefore) hread
  obtain ⟨F, level, rest, rfl, rfl⟩ :=
    Scan.exists_frame_of_operator hafter hs hp (fun _ => hd) hbefore hop
  have hreading := Derivation.reading_more_enclose ht htight level operand
  refine keepsExpr_of_reading_eq F rest hreading ?_ ?_
  · simp [Derivation.text]
  · simp [enclose, Derivation.text]

/-- A pair round the digits behind a sign, whatever these digits are. -/
theorem exists_parse_signed {run : DigitRun}
    (hbefore : Scan.initial.run (before ++ ['-']) = some s₁)
    (hopens : opensLevel before.reverse = true) (hread : s₁.run run.val = some s₂)
    (hd : ∀ c ∈ after.head?, c.isDigit = false) :
    ∃ K : Expr.Context, ∀ run : DigitRun,
      Expr.parse (before ++ ['-'] ++ (run.val ++ after)) =
          .ok (K.fill (.literal (-run.value))) ∧
        isValid (enclose (before ++ ['-']) run.val after) = true ∧
        Expr.parse (enclose (before ++ ['-']) run.val after) =
          .ok (K.fill (.negate (.literal run.value))) := by
  obtain rfl :=
    Scan.eq_of_run_digitRun (@Scan.awaitsOperand_of_run_operator _ .sub _ _ hbefore) hread
  -- the sign does not change the depth
  obtain ⟨s₀, houter, hsign⟩ := Scan.exists_run_of_run_append hbefore
  obtain ⟨s, hr, hs₁⟩ := Scan.exists_reads_of_run_cons hsign
  cases hs₁
  obtain ⟨rfl, -⟩ := @Scan.reads_operator s₀ s₁ .sub hr
  have hafter : Scan.run ⟨.digit, s₀.depth⟩ after = some s₃ := hafter
  obtain ⟨F, rest, rfl, rfl⟩ :=
    Scan.exists_frame_of_opensLevel hafter hs rfl (fun _ => hd) houter hopens
  refine ⟨F.firstContext rest, fun run => ?_⟩
  have htext : F.before ++ ['-'] ++ (run.val ++ (rest.text ++ F.after)) =
      (F.fill ((Derivation.first true (.digits run)).extend rest)).text := by
    simp [Derivation.text]
  have htext' : enclose (F.before ++ ['-']) run.val (rest.text ++ F.after) =
      (F.fill
        ((Derivation.first true (.group (.first false (.digits run)))).extend rest)).text := by
    simp [enclose, Derivation.text]
  rw [htext, htext', parse_text, parse_text, F.tree_fill_first, F.tree_fill_first,
    Derivation.tree_signed_digits, Derivation.tree_signed_group, Derivation.tree_unsigned,
    Derivation.tree_digits]
  exact ⟨rfl, isValid_text _, rfl⟩

end Parts

/-- A run of digits that has all its digits is read where an operand is awaited. -/
theorem Scan.awaitsOperand_of_run_digitRun {before : List Char} {run : DigitRun} {s s' : Scan}
    (hbefore : initial.run before = some s) (hl : ∀ c ∈ before.getLast?, c.isDigit = false)
    (hread : s.run run.val = some s') : s.place.awaitsOperand = true := by
  obtain ⟨place, depth⟩ := s
  cases place with
  | start | operator => rfl
  | digit =>
    rcases List.eq_nil_or_concat before with rfl | ⟨u, c, rfl⟩
    · cases hbefore
    · rw [List.concat_eq_append] at hbefore
      obtain ⟨s₁, hr⟩ := exists_reads_last hbefore
      have hc := hl c (by simp)
      cases hr with
      | digit hd hp => simp [hd] at hc
  | close =>
    obtain ⟨c, digits, hrun, hc⟩ := run.exists_cons
    rw [hrun] at hread
    obtain ⟨s₁, hr, -⟩ := exists_reads_of_run_cons hread
    cases hr with
    | digit _ hp => exact absurd rfl hp
    | opening hp => cases hp
    | closing _ => cases hc
    | operator op _ => simp at hc

theorem keepsExpr_group {before inner after : List Char}
    (hvalid : isValid (before ++ (('(' :: (inner ++ [')'])) ++ after)) = true)
    (hblank : ∀ c ∈ before ++ (('(' :: (inner ++ [')'])) ++ after), Text.isBlank c = false)
    (hi : Balanced '(' ')' inner) : KeepsExpr before ('(' :: (inner ++ [')'])) after := by
  obtain ⟨s₁, s₂, s₃, hbefore, hread, hafter, hs⟩ := Scan.exists_runs hvalid hblank
  obtain ⟨hs₁, hs₂, level, rfl⟩ := Scan.exists_derivation_of_run_group hi hread
  exact keepsExpr_operand hafter hs (.group level) hbefore hs₁ hs₂ rfl nofun
    fun _ => ⟨level, rfl⟩

namespace Enclosable

variable {before part after : List Char}

/-- No digit stands behind a run of digits that may get a pair. -/
theorem isDigit_head_after (h : Enclosable before part after) {run : DigitRun}
    (hpart : part = run.val) : ∀ c ∈ after.head?, c.isDigit = false := by
  cases h with
  | whole => exact nofun
  | content =>
    rintro c ⟨⟩
    rfl
  | digits _ _ hr => exact hr
  | group =>
    obtain ⟨c, digits, hrun, hc⟩ := run.exists_cons
    rw [hrun] at hpart
    rw [← (List.cons.inj hpart).1] at hc
    cases hc
  | first _ _ _ hr => exact hr
  | firstTerm _ _ _ hr => exact fun c hc => (hr c hc).1
  | term _ _ _ hr => exact fun c hc => (hr c hc).1

/-- Each of the parts may get a pair, if it is not the digits behind a sign. -/
theorem keepsExpr (h : Enclosable before part after)
    (hvalid : isValid (before ++ (part ++ after)) = true)
    (hblank : ∀ c ∈ before ++ (part ++ after), Text.isBlank c = false)
    (hsigned : ¬SignedRun before part) : KeepsExpr before part after := by
  cases h with
  | whole part =>
    rw [List.nil_append, List.append_nil] at hvalid hblank
    exact keepsExpr_whole hvalid hblank
  | @content before _ after hi =>
    -- the new pair stands just inside the old one, as well as just outside
    have htext : before ++ ['('] ++ (part ++ ')' :: after) =
        before ++ (('(' :: (part ++ [')'])) ++ after) := by simp
    rw [htext] at hvalid hblank
    simpa [KeepsExpr, enclose] using keepsExpr_group hvalid hblank hi
  | group hi => exact keepsExpr_group hvalid hblank hi
  | digits run hl hr =>
    obtain ⟨s₁, s₂, s₃, hbefore, hread, hafter, hs⟩ := Scan.exists_runs hvalid hblank
    have hs₁ := Scan.awaitsOperand_of_run_digitRun hbefore hl hread
    have hs₂ := Scan.eq_of_run_digitRun hs₁ hread
    exact keepsExpr_operand hafter hs (.digits run) hbefore hs₁ hs₂ rfl (fun _ => hr)
      fun hcon => absurd hcon hsigned
  | first hl hsign ho hr =>
    obtain ⟨s₁, s₂, s₃, hbefore, hread, hafter, hs⟩ := Scan.exists_runs hvalid hblank
    exact keepsExpr_firstTerm hafter hs hbefore hl hsign (.operand ho) hread hr
  | firstTerm hl hsign hrun hr =>
    obtain ⟨s₁, s₂, s₃, hbefore, hread, hafter, hs⟩ := Scan.exists_runs hvalid hblank
    exact keepsExpr_firstTerm hafter hs hbefore hl hsign hrun hread fun c hc => (hr c hc).1
  | term ht hl hrun hr =>
    obtain ⟨s₁, s₂, s₃, hbefore, hread, hafter, hs⟩ := Scan.exists_runs hvalid hblank
    exact keepsExpr_term hafter hs ht hbefore hl hrun hread fun c hc => (hr c hc).1

end Enclosable

/-- **Redundant brackets do not matter.**  A formula without blanks stays one when a part of it gets
a pair of brackets of its own, and it keeps its value.  It keeps its expression, too, except where
the part is a run of digits with a sign in front of it: whatever these digits are, in the place of
the negative literal the difference of zero and a literal stands then. -/
theorem parse_enclose {before part after : List Char} (h : Enclosable before part after)
    (hvalid : isValid (before ++ (part ++ after)) = true)
    (hblank : ∀ c ∈ before ++ (part ++ after), Text.isBlank c = false) :
    isValid (enclose before part after) = true ∧
      evaluate (enclose before part after) = evaluate (before ++ (part ++ after)) ∧
      (¬SignedRun before part →
        Expr.parse (enclose before part after) = Expr.parse (before ++ (part ++ after))) ∧
      (SignedRun before part → ∃ K : Expr.Context, ∀ run : DigitRun,
        Expr.parse (before ++ (run.val ++ after)) = .ok (K.fill (.literal (-run.value))) ∧
          Expr.parse (enclose before run.val after) =
            .ok (K.fill (.negate (.literal run.value)))) := by
  by_cases hsigned : SignedRun before part
  · obtain ⟨⟨run, rfl⟩, outer, rfl, hopens⟩ := hsigned
    obtain ⟨s₁, s₂, s₃, hbefore, hread, hafter, hs⟩ := Scan.exists_runs hvalid hblank
    obtain ⟨K, hK⟩ :=
      exists_parse_signed hafter hs hbefore hopens hread (h.isDigit_head_after rfl)
    obtain ⟨hparse, hvalid', hparse'⟩ := hK run
    have hvalue : (Expr.negate (.literal run.value)).eval = (Expr.literal (-run.value)).eval :=
      congrArg Except.ok (Int.zero_sub _)
    refine ⟨hvalid', ?_, fun hnot => absurd ⟨⟨run, rfl⟩, outer, rfl, hopens⟩ hnot,
      fun _ => ⟨K, fun run => ⟨(hK run).1, (hK run).2.2⟩⟩⟩
    rw [evaluate, evaluate, hparse, hparse']
    exact K.eval_fill_congr hvalue
  · obtain ⟨hvalid', hparse⟩ := h.keepsExpr hvalid hblank hsigned
    refine ⟨hvalid', ?_, fun _ => hparse, fun hcon => absurd hcon hsigned⟩
    rw [evaluate, evaluate, hparse]

/-- A pair round a term keeps the expression, and one round the digits behind a sign does not. -/
theorem parse_enclose_term_and_signed_digits :
    Expr.parse "(-7+(6/2*(1-3))-5)/2".toList = Expr.parse "(-7+6/2*(1-3)-5)/2".toList ∧
      evaluate "2*(-(10)/4)".toList = evaluate "2*(-10/4)".toList ∧
      ∃ K : Expr.Context,
        Expr.parse "2*(-10/4)".toList = .ok (K.fill (.literal (-10))) ∧
          Expr.parse "2*(-(10)/4)".toList = .ok (K.fill (.negate (.literal 10))) := by
  have hrun : TightRun "6/2*(1-3)".toList := by
    have hsix : TightRun "6".toList := .operand (.digits ⟨"6".toList, by decide⟩)
    have hquotient : TightRun "6/2".toList :=
      @TightRun.operation _ _ .div hsix rfl (.digits ⟨"2".toList, by decide⟩)
    have hinside : enclosed? "(1-3)".toList = some "1-3".toList := by decide +kernel
    have hgroup : Operand "(1-3)".toList := .group (enclosed?_eq_some_iff.mp hinside).2
    exact @TightRun.operation _ _ .mul hquotient rfl hgroup
  have hbehind : ∀ c ∈ "-5)/2".toList.head?,
      c.isDigit = false ∧ Tier.multiplicative.holds c = false := by
    rintro c ⟨⟩
    exact ⟨rfl, rfl⟩
  have hterm : Enclosable "(-7+".toList "6/2*(1-3)".toList "-5)/2".toList :=
    @Enclosable.term "(-7".toList _ _ .add rfl rfl hrun hbehind
  have hnot : ¬SignedRun "(-7+".toList "6/2*(1-3)".toList := by
    rintro ⟨⟨run, hpart⟩, -⟩
    have hslash := run.isDigit_of_mem '/' (by rw [← hpart]; decide)
    exact absurd hslash (by decide)
  have hten : Enclosable "2*(-".toList "10".toList "/4)".toList := by
    refine .digits ⟨"10".toList, by decide⟩ ?_ ?_
    · rintro c ⟨⟩
      rfl
    · rintro c ⟨⟩
      rfl
  have hsigned : SignedRun "2*(-".toList "10".toList :=
    ⟨⟨⟨"10".toList, by decide⟩, rfl⟩, "2*(".toList, rfl, rfl⟩
  obtain ⟨-, -, hparse, -⟩ :=
    parse_enclose hterm (by decide +kernel) (Text.dropBlanks_eq_self.mp (by decide +kernel))
  obtain ⟨-, hvalue, -, hK⟩ :=
    parse_enclose hten (by decide +kernel) (Text.dropBlanks_eq_self.mp (by decide +kernel))
  obtain ⟨K, hK⟩ := hK hsigned
  exact ⟨hparse hnot, hvalue, K, hK ⟨"10".toList, by decide⟩⟩

end ExactCalc.Formula
