/-
Grouping and reading the bytes of a text.

* `asChars` — bytes taken for characters, one for each byte;
* `IsBoundary`, `insert?`, `slice?` — what may be done at a position only if no character is cut
  there;
* `isWidening_spread` — the bytes of a text are the text widened;
* `Pointer`, `Pointer.step?`, `group?` — grouping by positions of bytes;
* `Pointer.next?_cursor` — a step is one of a cursor in the bytes, so that a pass comes to an end;
* `Pointer.step?_ofCursor`, `group?_encode` — it is the step in the text, too;
* `strip?`, `read?`, `read?_encode` — the tree of bytes by positions, which is that of the text;
* `Pointer.Reaches`, `Reads` — what a pass comes to, and what reading comes to;
* `safe_positions` — no position is outside of the bytes and none cuts a character.

Design notes: what looks at bytes has no result for a position outside of them, and what changes
them has none where a character is cut.  So each result says, too, that all positions on the way to
it were safe.
-/
import ExactCalc.Proofs.Encoding
import ExactCalc.Proofs.Positions
import ExactCalc.Proofs.Widening

namespace ExactCalc.Formula.Bytes

open Text

/-! ### Positions in bytes -/

/-- Bytes taken for characters. -/
def asChars (bytes : List UInt8) : List Char :=
  bytes.map Char.ofUInt8

/-- No character is cut at a position. -/
structure IsBoundary (bytes : List UInt8) (i : Nat) : Prop where
  le : i ≤ bytes.length
  startsCharacter : StartsCharacter (bytes.drop i)

instance (bytes : List UInt8) (i : Nat) : Decidable (IsBoundary bytes i) :=
  decidable_of_iff (i ≤ bytes.length ∧ StartsCharacter (bytes.drop i))
    ⟨fun h => ⟨h.1, h.2⟩, fun h => ⟨h.le, h.startsCharacter⟩⟩

/-- Puts a byte in at a position. -/
def insert? (bytes : List UInt8) (i : Nat) (b : UInt8) : Option (List UInt8) :=
  if IsBoundary bytes i then some (bytes.take i ++ b :: bytes.drop i) else none

/-- The bytes from position `i` on that stand in front of position `j`. -/
def slice? (bytes : List UInt8) (i j : Nat) : Option (List UInt8) :=
  if i ≤ j ∧ IsBoundary bytes i ∧ IsBoundary bytes j then some ((bytes.take j).drop i) else none

/-- What the bytes of a character are taken for. -/
def spread (c : Char) : List Char :=
  asChars (String.utf8EncodeChar c)

theorem asChars_encode (text : List Char) : asChars (encode text) = text.flatMap spread := by
  rw [asChars, encode_eq_flatMap, List.map_flatMap]
  rfl

theorem toNat_ofUInt8 (b : UInt8) : (Char.ofUInt8 b).toNat = b.toNat :=
  UInt8.toNat_toUInt32 b

theorem isWide_ofUInt8 {b : UInt8} (h : 0x80 ≤ b) : IsWide (Char.ofUInt8 b) := by
  rw [IsWide, toNat_ofUInt8]
  exact UInt8.le_iff_toNat_le.mp h

/-- **The bytes of a text are the text with its wide characters spread over several.** -/
theorem isWidening_spread : IsWidening spread where
  narrow c hc := by
    have hlt : c.toNat < 0x80 := Nat.lt_of_not_le hc
    have hbyte : (UInt8.ofNat c.toNat).toNat = c.toNat := by
      rw [UInt8.toNat_ofNat', Nat.mod_eq_of_lt (by omega)]
    have hchar : Char.ofUInt8 (UInt8.ofNat c.toNat) = c := by
      rw [← Char.toNat_inj, toNat_ofUInt8, hbyte]
    rw [spread, utf8EncodeChar_of_lt hlt, asChars, List.map_singleton, hchar]
  ne_nil c := by
    obtain ⟨b, rest, hbytes, -⟩ := exists_utf8EncodeChar c
    simp [spread, asChars, hbytes]
  wide c hc d hd := by
    obtain ⟨b, rest, hbytes, hb, hrest⟩ := exists_utf8EncodeChar_of_le hc
    rw [spread, asChars, hbytes, List.map_cons, List.mem_cons, List.mem_map] at hd
    rcases hd with rfl | ⟨b', hb', rfl⟩
    · exact isWide_ofUInt8 (UInt8.le_trans (by decide) hb)
    · have hcontinues := hrest b' hb'
      rw [continues, decide_eq_true_eq] at hcontinues
      exact isWide_ofUInt8 hcontinues.1

theorem length_flatMap_spread (text : List Char) :
    (text.flatMap spread).length = (encode text).length := by
  rw [← asChars_encode, asChars, List.length_map]

/-- In front of a cursor, the characters stand in reverse. -/
theorem length_flatMap_reverse_spread (before : List Char) :
    (before.flatMap fun c => (spread c).reverse).length = (encode before.reverse).length := by
  rw [← length_flatMap_spread, ← reverse_flatMap_reverse, List.length_reverse]

/-- Where a text is cut, its bytes are cut between two characters. -/
theorem isBoundary_encode {text u v : List Char} (h : text = u ++ v) :
    IsBoundary (encode text) (encode u).length := by
  rw [h, encode_append]
  refine ⟨by simp, ?_⟩
  rw [List.drop_left]
  exact startsCharacter_encode v

theorem insert?_encode {text u v : List Char} {c : Char} {b : UInt8} (h : text = u ++ v)
    (hb : String.utf8EncodeChar c = [b]) :
    insert? (encode text) (encode u).length b = some (encode (u ++ c :: v)) := by
  rw [insert?, if_pos (isBoundary_encode h), h, encode_append, List.take_left, List.drop_left,
    encode_append, encode_cons, hb]
  rfl

section Checked

variable {bytes bytes' part : List UInt8} {i j : Nat} {b : UInt8}

theorem asChars_of_insert? (h : insert? bytes i b = some bytes') {u v : List Char}
    (htext : asChars bytes = u ++ v) (hi : u.length = i) :
    asChars bytes' = u ++ Char.ofUInt8 b :: v := by
  rw [insert?] at h
  split at h
  · cases h
    subst hi
    have htake : (asChars bytes).take u.length = u := by rw [htext, List.take_left]
    have hdrop : (asChars bytes).drop u.length = v := by rw [htext, List.drop_left]
    rw [asChars, List.map_append, List.map_cons, List.map_take, List.map_drop]
    exact congrArg₂ (fun s t => s ++ Char.ofUInt8 b :: t) htake hdrop
  · cases h

theorem of_slice?_eq_some (h : slice? bytes i j = some part) :
    i ≤ j ∧ IsBoundary bytes i ∧ IsBoundary bytes j := by
  rw [slice?] at h
  split at h
  · next hbounds => exact hbounds
  · cases h

theorem length_of_slice? (h : slice? bytes i j = some part) :
    part.length + i = j ∧ j ≤ bytes.length := by
  obtain ⟨hij, -, hj⟩ := of_slice?_eq_some h
  rw [slice?, if_pos (of_slice?_eq_some h)] at h
  cases h
  have hle := hj.le
  simp
  omega

end Checked

theorem slice?_encode {text u v w : List Char} (h : text = u ++ (v ++ w)) :
    slice? (encode text) (encode u).length (encode (u ++ v)).length = some (encode v) := by
  have hle : (encode u).length ≤ (encode (u ++ v)).length := by simp
  have hv : text = (u ++ v) ++ w := by simp [h]
  rw [slice?, if_pos ⟨hle, isBoundary_encode h, isBoundary_encode hv⟩, hv,
    encode_append (u ++ v) w, List.take_left, encode_append, List.drop_left]

/-! ### Grouping -/

theorem text_eq_left (s : Site) :
    s.text = s.left.2.reverse ++ (s.left.1.reverse ++ s.symbol :: s.after) := by
  rw [← List.append_assoc, ← List.reverse_append, s.left_append]
  rfl

theorem text_eq_right (s : Site) :
    s.text = (s.before.reverse ++ s.symbol :: s.right.1) ++ s.right.2 := by
  rw [Site.text, ← s.right_append]
  simp

/-- Once the bracket behind the operands is there, the one in front of them has its place. -/
theorem closed_eq_left (s : Site) :
    (s.before.reverse ++ s.symbol :: s.right.1) ++ ')' :: s.right.2 =
      s.left.2.reverse ++ (s.left.1.reverse ++ s.symbol :: (s.right.1 ++ ')' :: s.right.2)) := by
  rw [← List.append_assoc s.left.2.reverse, ← List.reverse_append, s.left_append]
  simp

/-- Bytes with a position in them. -/
structure Pointer where
  bytes : List UInt8
  position : Nat
  deriving DecidableEq, Repr

namespace Pointer

/-- One step of a pass: groups the next operator of the tier, if there is one. -/
def step? (tier : Tier) (p : Pointer) : Option (Option Pointer) := do
  let text := asChars p.bytes
  match ← operator? tier text p.position with
  | none => return none
  | some i =>
    let start ← leftStart? text i
    let stop ← rightEnd? text i
    if ← areBracketed? text start stop then return some ⟨p.bytes, i + 1⟩
    else
      -- the bracket behind the operands comes first, so that `start` stays where it is
      let closed ← insert? p.bytes stop 0x29
      let bytes ← insert? closed start 0x28
      return some ⟨bytes, i + 2⟩

/-- The cursor at a position of bytes that are taken for characters. -/
def cursor (p : Pointer) : Cursor :=
  ⟨((asChars p.bytes).take p.position).reverse, (asChars p.bytes).drop p.position⟩

theorem text_cursor (p : Pointer) : p.cursor.text = asChars p.bytes := by
  rw [Cursor.text, cursor, List.reverse_reverse, List.take_append_drop]

theorem cursor_eq {p : Pointer} {c : Cursor} (htext : asChars p.bytes = c.text)
    (hposition : c.before.length = p.position) : p.cursor = c := by
  have hlength : c.before.reverse.length = p.position := by rw [List.length_reverse, hposition]
  rw [cursor, htext, Cursor.text, List.take_left' hlength, List.drop_left' hlength,
    List.reverse_reverse]

/-- Brackets put in round an operation, the one behind it first. -/
theorem cursor_eq_resume {s : Site} (hg : s.isGrouped = false) {bytes closed grouped : List UInt8}
    (htext : asChars bytes = s.text)
    (hclosed : insert? bytes (s.before.length + 1 + s.right.1.length) 0x29 = some closed)
    (hgrouped : insert? closed s.left.2.length 0x28 = some grouped) :
    cursor ⟨grouped, s.before.length + 2⟩ = s.resume := by
  have hclosed : asChars closed = _ :=
    asChars_of_insert? hclosed (htext.trans (text_eq_right s)) (by simp; omega)
  have hgrouped : asChars grouped = _ :=
    asChars_of_insert? hgrouped (hclosed.trans (closed_eq_left s)) (by simp)
  have hlength := congrArg List.length s.left_append
  rw [List.length_append] at hlength
  refine cursor_eq ?_ ?_
  · rw [hgrouped, Site.text_resume_of_not_isGrouped hg]
    rfl
  · simp [Site.resume, hg]
    omega

/-- **Whatever the bytes, a step that has a result is a step of the cursor.** -/
theorem next?_cursor {tier : Tier} {p q : Pointer} (h : p.step? tier = some (some q)) :
    p.cursor.next? tier = some q.cursor := by
  rw [step?] at h
  obtain ⟨found, hfound, h⟩ := Option.bind_eq_some_iff.mp h
  -- a pointer may be given behind the bytes, where no operator is found and there is no step
  rcases Nat.lt_or_ge (asChars p.bytes).length p.position with hbehind | hle
  · rw [operator?, Nat.sub_eq_zero_of_le (Nat.le_of_lt hbehind)] at hfound
    cases hfound
    cases h
  have hposition : p.cursor.before.length = p.position := by
    rw [cursor, List.length_reverse, List.length_take_of_le hle]
  have hoperator := operator?_eq tier p.cursor.before p.cursor.after
  rw [hposition, ← Cursor.text, text_cursor, hfound, Option.some.injEq] at hoperator
  subst hoperator
  rw [Cursor.next?]
  cases hsite : Cursor.site? tier p.cursor.before p.cursor.after with
  | none =>
    rw [hsite] at h
    cases h
  | some s =>
    have htext : asChars p.bytes = s.text := by
      rw [Cursor.text_of_site? hsite, ← text_cursor]
      rfl
    rw [hsite, htext] at h
    simp only [Option.map_some, Option.bind_eq_bind, Option.bind_some, s.leftStart?_eq,
      s.rightEnd?_eq, s.areBracketed?_eq] at h
    rw [Option.map_some, Option.some.injEq]
    cases hg : s.isGrouped with
    | true =>
      rw [hg, if_pos rfl] at h
      cases h
      refine (cursor_eq ?_ ?_).symm
      · rw [htext, Site.text_resume_of_isGrouped hg]
      · rw [Site.resume, if_pos hg, List.length_cons]
    | false =>
      rw [hg, if_neg Bool.false_ne_true] at h
      obtain ⟨closed, hclosed, h⟩ := Option.bind_eq_some_iff.mp h
      obtain ⟨bytes, hbytes, h⟩ := Option.bind_eq_some_iff.mp h
      cases h
      exact (cursor_eq_resume hg htext hclosed hbytes).symm

/-- How many characters at or behind a pointer are operators of the tier or look like one. -/
def pending (tier : Tier) (p : Pointer) : Nat :=
  p.cursor.pending tier

theorem pending_of_step? {tier : Tier} {p q : Pointer} (h : p.step? tier = some (some q)) :
    q.pending tier < p.pending tier :=
  Cursor.pending_of_next? (next?_cursor h)

/-- The bytes after all steps of a pass. -/
def finish? (tier : Tier) (p : Pointer) : Option (List UInt8) :=
  match h : p.step? tier with
  | none => none
  | some none => some p.bytes
  | some (some q) =>
    have := pending_of_step? h
    finish? tier q
termination_by p.pending tier

theorem finish?_of_step? {tier : Tier} {p q : Pointer} (h : p.step? tier = some (some q)) :
    p.finish? tier = q.finish? tier := by
  rw [finish?]
  split <;> simp_all

theorem finish?_of_step?_none {tier : Tier} {p : Pointer} (h : p.step? tier = some none) :
    p.finish? tier = some p.bytes := by
  rw [finish?]
  split <;> simp_all

/-- The position of a cursor in a text, in the bytes of the text. -/
def ofCursor (c : Cursor) : Pointer :=
  ⟨encode c.text, (encode c.before.reverse).length⟩

end Pointer

/-! #### One operator -/

section Site

variable {s : Site} (hs : ¬IsWide s.symbol)

/-- Where the left operand begins in the bytes. -/
def startOf (s : Site) : Nat :=
  (encode s.left.2.reverse).length

/-- Where the operator stands in the bytes. -/
def middleOf (s : Site) : Nat :=
  (encode s.before.reverse).length

/-- Where the right operand ends in the bytes. -/
def stopOf (s : Site) : Nat :=
  (encode (s.before.reverse ++ s.symbol :: s.right.1)).length

theorem isBoundary_startOf (s : Site) : IsBoundary (encode s.text) (startOf s) :=
  isBoundary_encode (text_eq_left s)

theorem isBoundary_stopOf (s : Site) : IsBoundary (encode s.text) (stopOf s) :=
  isBoundary_encode (text_eq_right s)

theorem middleOf_eq (s : Site) :
    middleOf s = startOf s + (encode s.left.1.reverse).length := by
  rw [middleOf, ← s.left_append, List.reverse_append, encode_append, List.length_append, startOf]

theorem length_before_widen (s : Site) : (s.widen spread).before.length = middleOf s :=
  length_flatMap_reverse_spread s.before

theorem length_left_widen (s : Site) : (s.widen spread).left.2.length = startOf s := by
  rw [s.left_widen isWidening_spread]
  exact length_flatMap_reverse_spread s.left.2

theorem length_right_widen (s : Site) :
    (s.widen spread).right.1.length = (encode s.right.1).length := by
  rw [s.right_widen isWidening_spread]
  exact length_flatMap_spread s.right.1

include hs

theorem length_encode_symbol : (String.utf8EncodeChar s.symbol).length = 1 := by
  rw [utf8EncodeChar_of_lt (Nat.lt_of_not_le hs)]
  rfl

theorem stopOf_eq : stopOf s = middleOf s + 1 + (encode s.right.1).length := by
  rw [stopOf, encode_append, encode_cons, List.length_append, List.length_append,
    length_encode_symbol hs, middleOf, Nat.add_assoc]

theorem asChars_encode_text : asChars (encode s.text) = (s.widen spread).text := by
  rw [asChars_encode, s.text_widen isWidening_spread hs]

theorem leftStart?_encode :
    leftStart? (asChars (encode s.text)) (middleOf s) = some (startOf s) := by
  rw [asChars_encode_text hs, ← length_before_widen, ← length_left_widen]
  exact (s.widen spread).leftStart?_eq

theorem rightEnd?_encode : rightEnd? (asChars (encode s.text)) (middleOf s) = some (stopOf s) := by
  rw [asChars_encode_text hs, stopOf_eq hs, ← length_before_widen, ← length_right_widen]
  exact (s.widen spread).rightEnd?_eq

theorem areBracketed?_encode :
    areBracketed? (asChars (encode s.text)) (startOf s) (stopOf s) = some s.isGrouped := by
  rw [asChars_encode_text hs, stopOf_eq hs, ← length_before_widen, ← length_left_widen,
    ← length_right_widen, ← s.isGrouped_widen isWidening_spread]
  exact (s.widen spread).areBracketed?_eq

omit hs in
/-- Brackets round the operation are brackets round its bytes, put in at the end first. -/
theorem insert?_encode_text (hg : s.isGrouped = false) :
    ((insert? (encode s.text) (stopOf s) 0x29).bind fun closed => insert? closed (startOf s) 0x28) =
      some (encode s.resume.text) := by
  have hclose : String.utf8EncodeChar ')' = [0x29] := rfl
  have hopen : String.utf8EncodeChar '(' = [0x28] := rfl
  rw [stopOf, insert?_encode (text_eq_right s) hclose, Option.bind_some, startOf,
    insert?_encode (closed_eq_left s) hopen, Site.text_resume_of_not_isGrouped hg]

/-- The position behind the operator, whether brackets are put in or not. -/
theorem length_resume_before :
    (encode s.resume.before.reverse).length = middleOf s + if s.isGrouped then 1 else 2 := by
  cases hg : s.isGrouped with
  | true =>
    simp [Site.resume, hg, middleOf, length_encode_symbol hs]
  | false =>
    have hopen : String.utf8EncodeChar '(' = [0x28] := rfl
    rw [middleOf_eq]
    simp [Site.resume, hg, startOf, hopen, length_encode_symbol hs]
    omega

end Site

/-! #### Passes -/

namespace Pointer

variable {tier : Tier}

theorem operator?_ofCursor (tier : Tier) (c : Cursor) :
    operator? tier (asChars (ofCursor c).bytes) (ofCursor c).position =
      some ((Cursor.site? tier c.before c.after).map middleOf) := by
  have h := operator?_eq tier (c.widen spread).before (c.widen spread).after
  have htext : (c.widen spread).before.reverse ++ (c.widen spread).after =
      asChars (encode c.text) := by
    rw [asChars_encode, ← c.text_widen spread]
    rfl
  have hlength : (c.widen spread).before.length = (encode c.before.reverse).length :=
    length_flatMap_reverse_spread c.before
  have hsite : Cursor.site? tier (c.widen spread).before (c.widen spread).after =
      (Cursor.site? tier c.before c.after).map (Site.widen spread) :=
    Cursor.site?_widen isWidening_spread c.before c.after
  rw [htext, hlength, hsite, Option.map_map] at h
  refine h.trans (congrArg some (congrArg (Option.map · _) (funext fun s => ?_)))
  exact length_before_widen s

/-- **A step with the bytes is a step with the characters.** -/
theorem step?_ofCursor (tier : Tier) (c : Cursor) :
    (ofCursor c).step? tier = some ((c.next? tier).map ofCursor) := by
  rw [step?, operator?_ofCursor, Cursor.next?]
  cases hsite : Cursor.site? tier c.before c.after with
  | none => rfl
  | some s =>
    obtain ⟨op, hop, -⟩ := Tier.holds_eq_true.mp (Cursor.holds_of_site? hsite).1
    have hs : ¬IsWide s.symbol := hop ▸ not_isWide_symbol op
    have hbytes : (ofCursor c).bytes = encode s.text := by
      rw [Cursor.text_of_site? hsite]
      rfl
    have hlength := length_resume_before hs
    simp only [Option.map_some, Option.bind_eq_bind, Option.bind_some, hbytes,
      leftStart?_encode hs, rightEnd?_encode hs, areBracketed?_encode hs]
    cases hg : s.isGrouped with
    | true =>
      rw [hg, if_pos rfl] at hlength
      rw [if_pos rfl, ofCursor, Site.text_resume_of_isGrouped hg, hlength]
      rfl
    | false =>
      rw [hg] at hlength
      obtain ⟨closed, hclosed, hopen⟩ := Option.bind_eq_some_iff.mp (insert?_encode_text hg)
      rw [if_neg Bool.false_ne_true, hclosed, Option.bind_some, hopen, ofCursor, hlength]
      rfl

theorem finish?_ofCursor (tier : Tier) (c : Cursor) :
    (ofCursor c).finish? tier = some (encode (c.finish tier)) := by
  fun_induction Cursor.finish tier c with
  | case1 c c' hn _ ih =>
    have hstep : (ofCursor c).step? tier = some (some (ofCursor c')) := by
      rw [step?_ofCursor, hn]
      rfl
    rw [finish?_of_step? hstep, ih]
  | case2 c hn =>
    have hstep : (ofCursor c).step? tier = some none := by
      rw [step?_ofCursor, hn]
      rfl
    exact finish?_of_step?_none hstep

end Pointer

/-- Bytes with all operators grouped. -/
def group? (bytes : List UInt8) : Option (List UInt8) :=
  Tier.groupingOrder.foldlM (fun bytes tier => Pointer.finish? tier ⟨bytes, 0⟩) bytes

/-- **The bytes of a text are grouped as the text is**, and no position on the way is unsafe. -/
theorem group?_encode (text : List Char) : group? (encode text) = some (encode (group text)) := by
  have htier : ∀ tier text, Pointer.finish? tier ⟨encode text, 0⟩ =
      some (encode (groupTier text tier)) := by
    intro tier text
    have h := Pointer.finish?_ofCursor tier ⟨[], text⟩
    rw [Pointer.ofCursor, List.reverse_nil, encode_nil] at h
    exact h
  rw [group?, Tier.groupingOrder, List.foldlM_cons, htier, group_eq]
  simp [htier]

/-! ### Reading -/

/-- Bytes without the brackets that enclose all of them. -/
def strip? (bytes : List UInt8) : Option (List UInt8) :=
  if isEnclosed (asChars bytes) then do
    let ⟨inner, hinner⟩ ← (slice? bytes 1 (bytes.length - 1)).attach
    have : inner.length < bytes.length := by have := length_of_slice? hinner; omega
    strip? inner
  else return bytes
termination_by bytes.length

theorem strip?_eq (bytes : List UInt8) :
    strip? bytes =
      if isEnclosed (asChars bytes) then (slice? bytes 1 (bytes.length - 1)).bind strip?
      else some bytes := by
  conv => lhs; rw [strip?]
  simp only [Option.bind_eq_bind, Option.bind_attach, Option.pbind_eq_bind]
  rfl

theorem length_le_of_strip? {bytes part : List UInt8} (h : strip? bytes = some part) :
    part.length ≤ bytes.length := by
  induction hlength : bytes.length using Nat.strong_induction_on generalizing bytes with
  | h n ih =>
    subst hlength
    rw [strip?_eq] at h
    split at h
    · obtain ⟨inner, hinner, h⟩ := Option.bind_eq_some_iff.mp h
      have hlt : inner.length < bytes.length := by have := length_of_slice? hinner; omega
      exact (ih inner.length hlt h rfl).trans (Nat.le_of_lt hlt)
    · cases h
      exact Nat.le_refl _

theorem lt_length_of_cut {bytes : List UInt8} {i : Nat} {op : Operator}
    (h : cut (asChars bytes) = .operation i op) : i < bytes.length := by
  rw [cut_eq] at h
  obtain ⟨left, right, hsplit, rfl⟩ := Split.exists_of_toCut h
  have hlength := congrArg List.length (eq_append_of_splitAtOperator hsplit).1
  rw [asChars, List.length_map, List.length_append, List.length_cons] at hlength
  omega

/-- A failure names the text of the bytes. -/
def malformed? (bytes : List UInt8) : Option (Except Failure Expr) :=
  (decode? bytes).map fun text => .error (.malformed text)

/-- The tree of bytes whose grouping is explicit. -/
def read? (bytes : List UInt8) : Option (Except Failure Expr) := do
  let ⟨part, hpart⟩ ← (strip? bytes).attach
  have := length_le_of_strip? hpart
  match hcut : cut (asChars part) with
  | .unbalanced => malformed? part
  | .operation i op =>
    let ⟨left, hleft⟩ ← (slice? part 0 i).attach
    have : left.length < bytes.length := by
      have := length_of_slice? hleft
      have := lt_length_of_cut hcut
      omega
    match ← read? left with
    | .error f => return .error f
    | .ok l =>
      let ⟨right, hright⟩ ← (slice? part (i + 1) part.length).attach
      have : right.length < bytes.length := by have := length_of_slice? hright; omega
      match ← read? right with
      | .error f => return .error f
      | .ok r => return .ok (.binary op l r)
  | .whole =>
    if ['-', '('] <+: asChars part then
      let ⟨group, hgroup⟩ ← (slice? part 1 part.length).attach
      have : group.length < bytes.length := by have := length_of_slice? hgroup; omega
      if isEnclosed (asChars group) then
        let e ← read? group
        return e.map Expr.negate
      else malformed? part
    else
      match Numeral.toInt? (asChars part) with
      | some value => return .ok (.literal value)
      | none => malformed? part
termination_by bytes.length

/-- The rule of `read?`, without the reasons why it ends. -/
theorem read?_eq (bytes : List UInt8) :
    read? bytes = (do
      let part ← strip? bytes
      match cut (asChars part) with
      | .unbalanced => malformed? part
      | .operation i op =>
        let left ← slice? part 0 i
        match ← read? left with
        | .error f => return .error f
        | .ok l =>
          let right ← slice? part (i + 1) part.length
          match ← read? right with
          | .error f => return .error f
          | .ok r => return .ok (.binary op l r)
      | .whole =>
        if ['-', '('] <+: asChars part then
          let group ← slice? part 1 part.length
          if isEnclosed (asChars group) then
            let e ← read? group
            return e.map Expr.negate
          else malformed? part
        else
          match Numeral.toInt? (asChars part) with
          | some value => return .ok (.literal value)
          | none => malformed? part) := by
  conv => lhs; rw [read?]
  simp only [Option.bind_eq_bind, Option.bind_attach, Option.pbind_eq_bind]
  refine congrArg (Option.bind (strip? bytes)) (funext fun part => ?_)
  cases cut (asChars part) <;> rfl

/-! #### Parts -/

theorem isEnclosed_encode (text : List Char) :
    isEnclosed (asChars (encode text)) = (enclosed? text).isSome := by
  rw [isEnclosed_eq, asChars_encode, enclosed?_flatMap isWidening_spread, Option.isSome_map]

theorem cut_encode (text : List Char) :
    cut (asChars (encode text)) =
      match splitAtOperator text with
      | .whole => .whole
      | .parts left op _ => .operation (encode left).length op
      | .unbalanced => .unbalanced := by
  rw [cut_eq, asChars_encode, splitAtOperator_flatMap isWidening_spread]
  cases splitAtOperator text with
  | whole => rfl
  | parts left op right => simp only [Split.widen, Split.toCut, length_flatMap_spread]
  | unbalanced => rfl

theorem isPrefix_encode_iff (text : List Char) :
    ['-', '('] <+: asChars (encode text) ↔ ['-', '('] <+: text := by
  rw [asChars_encode]
  exact isPrefix_flatMap_iff isWidening_spread (by simp [IsWide]) text

theorem malformed?_encode (text : List Char) :
    malformed? (encode text) = some (.error (.malformed text)) := by
  rw [malformed?, decode?_encode]
  rfl

theorem slice?_encode_inner (inner : List Char) :
    slice? (encode ('(' :: inner ++ [')'])) 1 ((encode ('(' :: inner ++ [')'])).length - 1) =
      some (encode inner) := by
  have hopen : String.utf8EncodeChar '(' = [0x28] := rfl
  have hclose : String.utf8EncodeChar ')' = [0x29] := rfl
  have h : '(' :: inner ++ [')'] = ['('] ++ (inner ++ [')']) := rfl
  simpa [hopen, hclose] using slice?_encode h

theorem slice?_encode_left (left : List Char) (op : Operator) (right : List Char) :
    slice? (encode (left ++ op.symbol :: right)) 0 (encode left).length = some (encode left) := by
  have h : left ++ op.symbol :: right = [] ++ (left ++ op.symbol :: right) := rfl
  simpa using slice?_encode h

theorem slice?_encode_right (left : List Char) (op : Operator) (right : List Char) :
    slice? (encode (left ++ op.symbol :: right)) ((encode left).length + 1)
      (encode (left ++ op.symbol :: right)).length = some (encode right) := by
  have h : left ++ op.symbol :: right = (left ++ [op.symbol]) ++ (right ++ []) := by simp
  have hone : (String.utf8EncodeChar op.symbol).length = 1 := by cases op <;> rfl
  simpa [hone] using slice?_encode h

theorem negated?_of_not_isPrefix {text : List Char} (h : ¬['-', '('] <+: text) :
    negated? text = none := by
  rw [Option.eq_none_iff_forall_ne_some]
  intro inner hinner
  refine h ⟨inner ++ [')'], ?_⟩
  rw [eq_of_negated? hinner]
  rfl

theorem strip?_encode (text : List Char) :
    strip? (encode text) = some (encode (stripBrackets text)) := by
  fun_induction stripBrackets text with
  | case1 text inner h _ ih =>
    have henclosed : isEnclosed (asChars (encode text)) = true := by
      rw [isEnclosed_encode, h]
      rfl
    rw [strip?_eq, if_pos henclosed, eq_of_enclosed? h, slice?_encode_inner]
    exact ih
  | case2 text h =>
    have henclosed : ¬isEnclosed (asChars (encode text)) = true := by
      rw [isEnclosed_encode, h]
      exact Bool.false_ne_true
    rw [strip?_eq, if_neg henclosed]

/-- **The bytes of a text are read as the text is**, and no position on the way is unsafe. -/
theorem read?_encode (text : List Char) : read? (encode text) = some (Expr.ofGrouped text) := by
  induction hlength : text.length using Nat.strong_induction_on generalizing text with
  | h n ih =>
  subst hlength
  -- on the length, since what is read next is a part of the text without the brackets round it
  have hstrip := length_stripBrackets_le text
  rw [read?_eq, strip?_encode, Expr.ofGrouped_eq, shape]
  simp only [Option.bind_eq_bind, Option.bind_some, cut_encode, isPrefix_encode_iff]
  generalize stripBrackets text = t at hstrip
  cases hsplit : splitAtOperator t with
  | unbalanced => exact malformed?_encode t
  | parts left op right =>
    obtain ⟨rfl, -⟩ := eq_append_of_splitAtOperator hsplit
    rw [List.length_append, List.length_cons] at hstrip
    simp only [slice?_encode_left, slice?_encode_right, Option.bind_some,
      ih left.length (by omega) left rfl, ih right.length (by omega) right rfl]
    cases Expr.ofGrouped left with
    | error f => rfl
    | ok l =>
      cases Expr.ofGrouped right with
      | error f => rfl
      | ok r => rfl
  | whole =>
    by_cases hneg : ['-', '('] <+: t
    · simp only [if_pos hneg]
      obtain ⟨rest, rfl⟩ := hneg
      have hslice : slice? (encode ('-' :: '(' :: rest)) 1 (encode ('-' :: '(' :: rest)).length =
          some (encode ('(' :: rest)) := slice?_encode_right [] .sub ('(' :: rest)
      -- where the group is not enclosed, the characters try for a numeral
      have hnumeral : Numeral.toInt? ('-' :: '(' :: rest) = none := by
        simp [Numeral.toInt?, Numeral.toNat?]
      have hread := ih ('(' :: rest).length (Nat.lt_of_succ_le hstrip) ('(' :: rest) rfl
      simp only [List.cons_append, List.nil_append, hslice, Option.bind_some, isEnclosed_encode,
        negated?, if_true, hread]
      cases henclosed : enclosed? ('(' :: rest) with
      | none =>
        rw [hnumeral]
        exact malformed?_encode _
      | some inner =>
        rw [ofGrouped_of_enclosed? henclosed]
        rfl
    · simp only [if_neg hneg, negated?_of_not_isPrefix hneg, asChars_encode,
        toInt?_flatMap isWidening_spread]
      cases Numeral.toInt? t with
      | none => exact malformed?_encode t
      | some value => rfl

/-! ### All positions on the way -/

namespace Pointer

variable {tier : Tier} {p q : Pointer}

/-- A pass comes to a pointer. -/
inductive Reaches (tier : Tier) (p : Pointer) : Pointer → Prop where
  | refl : Reaches tier p p
  | step {q r : Pointer} (h : Reaches tier p q) (hstep : q.step? tier = some (some r)) :
      Reaches tier p r

/-- From the bytes of a text, a pass comes to bytes of texts, and between two characters of them. -/
theorem Reaches.exists_cursor {c : Cursor} (h : Reaches tier (ofCursor c) q) :
    ∃ c', q = ofCursor c' := by
  induction h with
  | refl => exact ⟨c, rfl⟩
  | step _ hstep ih =>
    obtain ⟨c', rfl⟩ := ih
    rw [step?_ofCursor, Option.some.injEq] at hstep
    obtain ⟨c'', -, rfl⟩ := Option.map_eq_some_iff.mp hstep
    exact ⟨c'', rfl⟩

/-- The operands of the operator at position `i` lie in the bytes and cut no character. -/
def HasOperands (p : Pointer) (i : Nat) : Prop :=
  ∃ start stop, leftStart? (asChars p.bytes) i = some start ∧
    rightEnd? (asChars p.bytes) i = some stop ∧ start ≤ i ∧ i < stop ∧ stop ≤ p.bytes.length ∧
    IsBoundary p.bytes start ∧ IsBoundary p.bytes stop

theorem hasOperands_ofCursor {c : Cursor} {i : Nat}
    (h : operator? tier (asChars (ofCursor c).bytes) (ofCursor c).position = some (some i)) :
    (ofCursor c).HasOperands i := by
  rw [operator?_ofCursor, Option.some.injEq] at h
  obtain ⟨s, hsite, rfl⟩ := Option.map_eq_some_iff.mp h
  obtain ⟨op, hop, -⟩ := Tier.holds_eq_true.mp (Cursor.holds_of_site? hsite).1
  have hs : ¬IsWide s.symbol := hop ▸ not_isWide_symbol op
  have hbytes : (ofCursor c).bytes = encode s.text := by
    rw [Cursor.text_of_site? hsite]
    rfl
  have hstart := middleOf_eq s
  have hstop := stopOf_eq hs
  rw [HasOperands, hbytes]
  exact ⟨startOf s, stopOf s, leftStart?_encode hs, rightEnd?_encode hs, by omega, by omega,
    (isBoundary_stopOf s).le, isBoundary_startOf s, isBoundary_stopOf s⟩

end Pointer

/-- Reading bytes comes to a part of them. -/
inductive Reads (bytes : List UInt8) : List UInt8 → Prop where
  | whole : Reads bytes bytes
  | inner {part inner : List UInt8} (h : Reads bytes part)
      (henclosed : isEnclosed (asChars part) = true)
      (hslice : slice? part 1 (part.length - 1) = some inner) : Reads bytes inner
  | left {part left : List UInt8} {i : Nat} {op : Operator} (h : Reads bytes part)
      (henclosed : isEnclosed (asChars part) = false)
      (hcut : cut (asChars part) = .operation i op) (hslice : slice? part 0 i = some left) :
      Reads bytes left
  | right {part right : List UInt8} {i : Nat} {op : Operator} (h : Reads bytes part)
      (henclosed : isEnclosed (asChars part) = false)
      (hcut : cut (asChars part) = .operation i op)
      (hslice : slice? part (i + 1) part.length = some right) : Reads bytes right
  | group {part group : List UInt8} (h : Reads bytes part)
      (henclosed : isEnclosed (asChars part) = false) (hcut : cut (asChars part) = .whole)
      (hsign : ['-', '('] <+: asChars part) (hslice : slice? part 1 part.length = some group) :
      Reads bytes group

/-- Wherever bytes may be cut when they are read, the positions lie in them and cut no character. -/
structure HasSafeCuts (part : List UInt8) : Prop where
  inner : isEnclosed (asChars part) = true →
    1 ≤ part.length - 1 ∧ IsBoundary part 1 ∧ IsBoundary part (part.length - 1)
  operation : ∀ i op, cut (asChars part) = .operation i op →
    IsBoundary part i ∧ IsBoundary part (i + 1)
  group : ['-', '('] <+: asChars part → IsBoundary part 1

section Parts

variable {text : List Char} {i : Nat} {op : Operator}

theorem exists_inner (h : isEnclosed (asChars (encode text)) = true) :
    ∃ inner, slice? (encode text) 1 ((encode text).length - 1) = some (encode inner) := by
  rw [isEnclosed_encode, Option.isSome_iff_exists] at h
  obtain ⟨inner, hinner⟩ := h
  rw [eq_of_enclosed? hinner]
  exact ⟨inner, slice?_encode_inner inner⟩

theorem exists_operands (h : cut (asChars (encode text)) = .operation i op) :
    ∃ left right, slice? (encode text) 0 i = some (encode left) ∧
      slice? (encode text) (i + 1) (encode text).length = some (encode right) := by
  rw [cut_encode] at h
  cases hsplit : splitAtOperator text with
  | whole =>
    rw [hsplit] at h
    cases h
  | unbalanced =>
    rw [hsplit] at h
    cases h
  | parts left op' right =>
    rw [hsplit] at h
    cases h
    rw [(eq_append_of_splitAtOperator hsplit).1]
    exact ⟨left, right, slice?_encode_left left op right, slice?_encode_right left op right⟩

theorem exists_group (h : ['-', '('] <+: asChars (encode text)) :
    ∃ group, slice? (encode text) 1 (encode text).length = some (encode group) := by
  obtain ⟨rest, rfl⟩ := (isPrefix_encode_iff text).mp h
  exact ⟨'(' :: rest, slice?_encode_right [] .sub ('(' :: rest)⟩

/-- From the bytes of a text, reading comes to the bytes of texts. -/
theorem Reads.exists_text {part : List UInt8} (h : Reads (encode text) part) :
    ∃ t, part = encode t := by
  induction h with
  | whole => exact ⟨text, rfl⟩
  | inner _ henclosed hslice ih =>
    obtain ⟨t, rfl⟩ := ih
    obtain ⟨inner, hinner⟩ := exists_inner henclosed
    exact ⟨inner, Option.some.inj (hslice.symm.trans hinner)⟩
  | left _ _ hcut hslice ih =>
    obtain ⟨t, rfl⟩ := ih
    obtain ⟨left, -, hleft, -⟩ := exists_operands hcut
    exact ⟨left, Option.some.inj (hslice.symm.trans hleft)⟩
  | right _ _ hcut hslice ih =>
    obtain ⟨t, rfl⟩ := ih
    obtain ⟨-, right, -, hright⟩ := exists_operands hcut
    exact ⟨right, Option.some.inj (hslice.symm.trans hright)⟩
  | group _ _ _ hsign hslice ih =>
    obtain ⟨t, rfl⟩ := ih
    obtain ⟨group, hgroup⟩ := exists_group hsign
    exact ⟨group, Option.some.inj (hslice.symm.trans hgroup)⟩

theorem hasSafeCuts_encode (text : List Char) : HasSafeCuts (encode text) where
  inner h := by
    obtain ⟨inner, hinner⟩ := exists_inner h
    exact of_slice?_eq_some hinner
  operation i op h := by
    obtain ⟨left, right, hleft, hright⟩ := exists_operands h
    exact ⟨(of_slice?_eq_some hleft).2.2, (of_slice?_eq_some hright).2.1⟩
  group h := by
    obtain ⟨group, hgroup⟩ := exists_group h
    exact (of_slice?_eq_some hgroup).2.1

end Parts

/-- **All positions in the bytes of a text are safe, and the bytes give what the characters give.**
Whatever the text, each step of a pass has a result, and the operator that it comes to has its
operands within the bytes.  Brackets are put in and parts are cut out between two characters only,
and both ways end with a result.  That is the result for the characters. -/
theorem safe_positions (text : List Char) :
    (∀ tier p, Pointer.Reaches tier ⟨encode text, 0⟩ p →
      p.step? tier ≠ none ∧
        ∀ i, operator? tier (asChars p.bytes) p.position = some (some i) → p.HasOperands i) ∧
    (∀ part, Reads (encode text) part → HasSafeCuts part) ∧
    group? (encode text) = some (encode (group text)) ∧
    read? (encode text) = some (Expr.ofGrouped text) := by
  refine ⟨fun tier p hreaches => ?_, fun part hreads => ?_, group?_encode text, read?_encode text⟩
  · have hstart : (⟨encode text, 0⟩ : Pointer) = Pointer.ofCursor ⟨[], text⟩ := by
      rw [Pointer.ofCursor, List.reverse_nil, encode_nil]
      rfl
    rw [hstart] at hreaches
    obtain ⟨c, rfl⟩ := hreaches.exists_cursor
    refine ⟨?_, fun i hoperator => Pointer.hasOperands_ofCursor hoperator⟩
    rw [Pointer.step?_ofCursor]
    exact Option.some_ne_none _
  · obtain ⟨t, rfl⟩ := hreads.exists_text
    exact hasSafeCuts_encode t

/-- Between wide characters, an operand that is missing ends where the operator stands, and the
brackets round all of it are cut off from whole characters. -/
theorem safe_positions_of_wide :
    let bytes := encode "(é*(2)ß)".toList
    operator? .multiplicative (asChars bytes) 0 = some (some 3) ∧
      Pointer.HasOperands ⟨bytes, 0⟩ 3 ∧
      isEnclosed (asChars bytes) = true ∧ IsBoundary bytes 1 ∧
      IsBoundary bytes (bytes.length - 1) := by
  have hoperator : operator? .multiplicative (asChars (encode "(é*(2)ß)".toList)) 0 =
      some (some 3) := by
    decide +kernel
  have henclosed : isEnclosed (asChars (encode "(é*(2)ß)".toList)) = true := by
    decide +kernel
  obtain ⟨hpasses, hreads, -⟩ := safe_positions "(é*(2)ß)".toList
  obtain ⟨-, hfirst, hlast⟩ := (hreads _ .whole).inner henclosed
  exact ⟨hoperator, (hpasses .multiplicative _ .refl).2 3 hoperator, henclosed, hfirst, hlast⟩

end ExactCalc.Formula.Bytes
