/-
Brackets and their partners.

* `splitAtPartner` — cuts a text at the bracket that closes what is open;
* `enclosed?` — what stands between two partners that enclose the whole text;
* `stripBrackets` — a text without all pairs that enclose it;
* `splitOperand` — an operand at the front of a text: a bracketed group or a run of digits.

Design notes: the characters of a bracket and of its partner are parameters.  With the two
exchanged, the same functions read a reversed text, so that what stands before an operator is
found by the same rule as what stands after it.
-/
namespace ExactCalc.Formula

/-- How many brackets are open behind the character `c` if `depth` are open before it. -/
def depthAfter (same partner : Char) (depth : Nat) (c : Char) : Nat :=
  if c = same then depth + 1 else if c = partner then depth - 1 else depth

/-- Cuts a text at the first `partner` that finds no bracket open, where `depth` are open at
its start: the text before that `partner` and the text after it. -/
def splitAtPartner (same partner : Char) (depth : Nat) :
    List Char → Option (List Char × List Char)
  | [] => none
  | c :: rest =>
    if c = partner ∧ depth = 0 then some ([], rest)
    else (splitAtPartner same partner (depthAfter same partner depth c) rest).map
      (Prod.map (c :: ·) id)

/-- The two parts and the bracket between them make up the text. -/
theorem eq_append_of_splitAtPartner {same partner : Char} {depth : Nat}
    {text inner rest : List Char}
    (h : splitAtPartner same partner depth text = some (inner, rest)) :
    text = inner ++ partner :: rest := by
  induction text generalizing depth inner with
  | nil => simp [splitAtPartner] at h
  | cons c text ih =>
    rw [splitAtPartner] at h
    split at h
    · next hc =>
      simp only [Option.some.injEq, Prod.mk.injEq] at h
      obtain ⟨rfl, rfl⟩ := h
      rw [hc.1]
      rfl
    · obtain ⟨⟨u, v⟩, hu, huv⟩ := Option.map_eq_some_iff.mp h
      simp only [Prod.map, id_eq, Prod.mk.injEq] at huv
      obtain ⟨rfl, rfl⟩ := huv
      rw [ih hu]
      rfl

/-- The text between the first and the last character, if these two are partners. -/
def enclosed? : List Char → Option (List Char)
  | '(' :: rest =>
    match splitAtPartner '(' ')' 0 rest with
    | some (inner, []) => some inner
    | _ => none
  | _ => none

theorem eq_of_enclosed? {text inner : List Char} (h : enclosed? text = some inner) :
    text = '(' :: inner ++ [')'] := by
  unfold enclosed? at h
  split at h
  · split at h
    · next heq =>
      cases h
      rw [eq_append_of_splitAtPartner heq]
      rfl
    · cases h
  · cases h

theorem length_of_enclosed? {text inner : List Char} (h : enclosed? text = some inner) :
    inner.length + 2 = text.length := by
  simp [eq_of_enclosed? h]

/-- A text without the bracket pairs that enclose all of it. -/
def stripBrackets (text : List Char) : List Char :=
  match h : enclosed? text with
  | some inner =>
    have : inner.length < text.length := by have := length_of_enclosed? h; omega
    stripBrackets inner
  | none => text
termination_by text.length

theorem stripBrackets_of_enclosed? {text inner : List Char} (h : enclosed? text = some inner) :
    stripBrackets text = stripBrackets inner := by
  rw [stripBrackets]
  split <;> simp_all

theorem stripBrackets_of_none {text : List Char} (h : enclosed? text = none) :
    stripBrackets text = text := by
  rw [stripBrackets]
  split <;> simp_all

theorem length_stripBrackets_le (text : List Char) :
    (stripBrackets text).length ≤ text.length := by
  fun_induction stripBrackets text with
  | case1 text inner h _ ih => have := length_of_enclosed? h; omega
  | case2 text h => exact Nat.le_refl _

@[simp]
theorem enclosed?_stripBrackets (text : List Char) : enclosed? (stripBrackets text) = none := by
  fun_induction stripBrackets text with
  | case1 text inner h _ ih => exact ih
  | case2 text h => exact h

/-- The operand at the front of a text, and the rest of the text.  The operand is a group if a
bracket begins the text, otherwise a run of digits.  It is empty if the bracket has no partner
or if no digit begins the text. -/
def splitOperand (same partner : Char) : List Char → List Char × List Char
  | [] => ([], [])
  | c :: rest =>
    if c = same then
      match splitAtPartner same partner 0 rest with
      | some (inner, after) => (c :: inner ++ [partner], after)
      | none => ([], c :: rest)
    else ((c :: rest).takeWhile Char.isDigit, (c :: rest).dropWhile Char.isDigit)

@[simp]
theorem splitOperand_append (same partner : Char) (text : List Char) :
    (splitOperand same partner text).1 ++ (splitOperand same partner text).2 = text := by
  unfold splitOperand
  split
  · rfl
  · split
    · split
      · next heq => simp [eq_append_of_splitAtPartner heq]
      · rfl
    · exact List.takeWhile_append_dropWhile

end ExactCalc.Formula
