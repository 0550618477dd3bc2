/-
Lines of bytes.

* `lines` — cuts bytes behind each line feed, the line feeds left out;
* `decode?` — the text of a line, if its bytes are UTF-8;
* `encode` — the bytes of a text, which `decode?` reads back.
-/
namespace ExactCalc.Text

/-- The lines of a byte stream, without their line feeds.  Bytes behind the last line feed are a
line of their own, no bytes are none. -/
def lines : List UInt8 → List (List UInt8)
  | [] => []
  | b :: rest =>
    if b = 10 then [] :: lines rest
    else match lines rest with
      | [] => [[b]]
      | line :: more => (b :: line) :: more

/-- The text that bytes encode in UTF-8, if they do. -/
def decode? (bytes : List UInt8) : Option (List Char) :=
  (String.fromUTF8? bytes.toByteArray).map String.toList

/-- The UTF-8 bytes of a text. -/
def encode (text : List Char) : List UInt8 :=
  (String.ofList text).toUTF8.data.toList

@[simp]
theorem lines_nil : lines [] = [] := rfl

@[simp]
theorem lines_feed (rest : List UInt8) : lines (10 :: rest) = [] :: lines rest := by
  simp [lines]

@[simp]
theorem decode?_encode (text : List Char) : decode? (encode text) = some text := by
  have h : (String.ofList text).toUTF8.data.toList.toByteArray = (String.ofList text).toUTF8 := by
    apply ByteArray.ext
    rw [List.data_toByteArray, Array.toArray_toList]
  rw [decode?, encode, h, String.fromUTF8?, String.toUTF8_eq_toByteArray,
    dif_pos (String.ofList text).isValidUTF8]
  exact congrArg some String.toList_ofList

end ExactCalc.Text
