/-
The bytes of a text.

* `continues` — whether a byte goes on with a character;
* `utf8EncodeChar_of_lt`, `exists_utf8EncodeChar_of_le` — the bytes of one character: only the first
  of them begins it, and a character from 128 on has no byte below;
* `encode_eq_flatMap` — a text has the bytes of its characters, one character after the other;
* `decode?_eq_some_iff` — bytes are read as the text that has them;
* `exists_of_encode_eq_append` — where no character is cut, the bytes of a text are cut as the text;
* `decode?_surround` — what stands beside a line of bytes does not change how the line is read.
-/
import ExactCalc.Text.Line

namespace ExactCalc.Text

variable {c : Char} {text : List Char} {bytes : List UInt8}

/-! ### Characters -/

/-- Whether a byte goes on with a character that an earlier byte began. -/
def continues (b : UInt8) : Bool :=
  decide (0x80 ≤ b ∧ b < 0xC0)

/-- A character below 128 is its own byte. -/
theorem utf8EncodeChar_of_lt (h : c.toNat < 0x80) :
    String.utf8EncodeChar c = [UInt8.ofNat c.toNat] := by
  simp only [String.utf8EncodeChar, Char.toNat_val]
  exact if_pos (Nat.le_of_lt_succ h)

theorem exists_utf8EncodeChar_of_le (h : 0x80 ≤ c.toNat) :
    ∃ b rest, String.utf8EncodeChar c = b :: rest ∧ 0xC0 ≤ b ∧
      ∀ b' ∈ rest, continues b' = true := by
  simp only [String.utf8EncodeChar, Char.toNat_val, continues, decide_eq_true_eq,
    UInt8.le_iff_toNat_le, UInt8.lt_iff_toNat_lt]
  rw [if_neg (Nat.not_le_of_lt h)]
  split
  · refine ⟨_, _, rfl, ?_, ?_⟩ <;> simp <;> omega
  split
  · refine ⟨_, _, rfl, ?_, ?_⟩ <;> simp <;> omega
  · refine ⟨_, _, rfl, ?_, ?_⟩ <;> simp <;> omega

/-- No character begins with a byte that goes on with one. -/
theorem exists_utf8EncodeChar (c : Char) :
    ∃ b rest, String.utf8EncodeChar c = b :: rest ∧ continues b = false ∧
      ∀ b' ∈ rest, continues b' = true := by
  rcases Nat.lt_or_ge c.toNat 0x80 with hc | hc
  · refine ⟨_, [], utf8EncodeChar_of_lt hc, ?_, nofun⟩
    simp [continues, UInt8.le_iff_toNat_le]
    omega
  · obtain ⟨b, rest, heq, hb, hrest⟩ := exists_utf8EncodeChar_of_le hc
    refine ⟨b, rest, heq, ?_, hrest⟩
    simp [continues, UInt8.not_lt.mpr hb]

/-! ### Texts -/

theorem encode_eq_flatMap (text : List Char) :
    encode text = text.flatMap String.utf8EncodeChar := by
  rw [encode, String.toUTF8_eq_toByteArray, String.toByteArray_ofList, List.utf8Encode,
    List.data_toByteArray]

@[simp]
theorem encode_nil : encode [] = [] := by
  rw [encode_eq_flatMap, List.flatMap_nil]

@[simp]
theorem encode_cons (c : Char) (text : List Char) :
    encode (c :: text) = String.utf8EncodeChar c ++ encode text := by
  rw [encode_eq_flatMap, encode_eq_flatMap, List.flatMap_cons]

@[simp]
theorem encode_append (s t : List Char) : encode (s ++ t) = encode s ++ encode t := by
  rw [encode_eq_flatMap, encode_eq_flatMap, encode_eq_flatMap, List.flatMap_append]

theorem toByteArray_encode (text : List Char) : (encode text).toByteArray = text.utf8Encode := by
  rw [encode_eq_flatMap, List.utf8Encode]

/-- Bytes are read as a text exactly if they are the bytes of that text. -/
theorem decode?_eq_some_iff : decode? bytes = some text ↔ bytes = encode text := by
  constructor
  · intro h
    obtain ⟨s, hs, rfl⟩ := Option.map_eq_some_iff.mp h
    rw [String.fromUTF8?] at hs
    split at hs
    · next hvalid =>
      cases hs
      have hsame : (encode (String.fromUTF8 bytes.toByteArray hvalid).toList).toByteArray =
          bytes.toByteArray := by
        rw [toByteArray_encode, String.utf8Encode_toList]
        rfl
      have hdata := congrArg (fun a => a.data.toList) hsame
      simpa [List.data_toByteArray, eq_comm] using hdata
    · cases hs
  · rintro rfl
    exact decode?_encode text

/-- No character is cut in front of `bytes`. -/
def StartsCharacter (bytes : List UInt8) : Prop :=
  ∀ b ∈ bytes.head?, continues b = false

instance (bytes : List UInt8) : Decidable (StartsCharacter bytes) :=
  Option.decidableForallMem bytes.head?

theorem startsCharacter_encode (text : List Char) : StartsCharacter (encode text) := by
  cases text with
  | nil => simp [StartsCharacter]
  | cons c text =>
    obtain ⟨b, rest, heq, hb, -⟩ := exists_utf8EncodeChar c
    simp [StartsCharacter, heq, hb]

/-- **Where no character is cut, the bytes of a text are cut as the text.** -/
theorem exists_of_encode_eq_append {u v : List UInt8} (h : encode text = u ++ v)
    (hv : StartsCharacter v) : ∃ s t, text = s ++ t ∧ u = encode s ∧ v = encode t := by
  induction text generalizing u with
  | nil =>
    obtain ⟨rfl, rfl⟩ := List.append_eq_nil_iff.mp h.symm
    exact ⟨[], [], rfl, encode_nil.symm, encode_nil.symm⟩
  | cons c text ih =>
    cases u with
    | nil => exact ⟨[], c :: text, rfl, encode_nil.symm, h.symm⟩
    | cons b u =>
      obtain ⟨b', rest, heq, -, hrest⟩ := exists_utf8EncodeChar c
      rw [encode_cons, heq, List.cons_append, List.cons_append] at h
      obtain ⟨rfl, htail⟩ := List.cons.inj h
      rcases List.append_eq_append_iff.mp htail with ⟨w, rfl, hw⟩ | ⟨w, rfl, hw⟩
      · obtain ⟨s, t, rfl, rfl, rfl⟩ := ih hw
        exact ⟨c :: s, t, rfl, by rw [encode_cons, heq, List.cons_append], rfl⟩
      · -- the cut is behind the first byte of the character, so it is behind all of them
        obtain rfl : w = [] := by
          rcases w with _ | ⟨d, w⟩
          · rfl
          · have hd := hv d (by simp [hw])
            rw [hrest d (by simp)] at hd
            cases hd
        refine ⟨[c], text, rfl, ?_, hw⟩
        rw [encode_cons, heq, encode_nil, List.append_nil, List.append_nil]

/-- The bytes of a text that begin with those of another one. -/
theorem exists_of_encode_append_eq {s : List Char} {v : List UInt8}
    (h : encode s ++ v = encode text) : ∃ t, text = s ++ t ∧ v = encode t := by
  have hbytes := congrArg List.toByteArray h
  rw [List.toByteArray_append, toByteArray_encode, toByteArray_encode] at hbytes
  obtain ⟨t, rfl⟩ := List.isPrefix_of_utf8Encode_append_eq_utf8Encode _ hbytes
  rw [encode_append, List.append_cancel_left_eq] at h
  exact ⟨t, rfl, h⟩

/-- **What stands beside a line of bytes does not change how the line is read.** -/
theorem decode?_surround (s t : List Char) (bytes : List UInt8) :
    decode? (encode s ++ (bytes ++ encode t)) =
      (decode? bytes).map fun text => s ++ (text ++ t) := by
  cases hread : decode? bytes with
  | some text =>
    rw [decode?_eq_some_iff.mp hread, ← encode_append, ← encode_append, decode?_encode]
    rfl
  | none =>
    rw [Option.map_none, Option.eq_none_iff_forall_ne_some]
    intro whole hwhole
    obtain ⟨rest, -, hrest⟩ := exists_of_encode_append_eq (decode?_eq_some_iff.mp hwhole)
    obtain ⟨text, -, -, rfl, -⟩ := exists_of_encode_eq_append hrest.symm (startsCharacter_encode t)
    rw [decode?_encode] at hread
    cases hread

end ExactCalc.Text
