/-!
# Texts as bytes

A text is stored and hashed as UTF-8. Bytes that come from outside need not be UTF-8. They fall into
pieces: characters, and maximal pieces that start a character and do not finish it. Reading them as
a text puts the replacement character U+FFFD in the place of every piece that is no character.

## Main definitions

* `Text.utf8`: the bytes of a text.
* `Text.pieces`: the pieces of some bytes, whatever they are.
* `Text.ofUtf8`: the text of some bytes, whatever they are.
* `Text.ofUtf8?`: the text of bytes that are UTF-8.
-/

namespace NodeLending.Text

/-- The bytes of a text. -/
def utf8 (s : String) : List UInt8 := s.toList.flatMap String.utf8EncodeChar

/-- The replacement character. -/
def replacement : Char := Char.ofNat 0xFFFD

/-- A character that has been started. -/
structure Pending where
  /-- The bits so far. -/
  value : Nat
  /-- How many bytes have to follow. -/
  left : Nat
  /-- The least value that the next byte may have. -/
  least : Nat
  /-- The greatest value that the next byte may have. -/
  greatest : Nat
  deriving DecidableEq, Repr

/-- What a byte starts: a whole character, a longer one, or nothing. -/
def startByte (b : Nat) : Option (Char ⊕ Pending) :=
  if b < 0x80 then some (.inl (Char.ofNat b))
  else if b < 0xC2 then none
  else if b < 0xE0 then some (.inr ⟨b - 0xC0, 1, 0x80, 0xBF⟩)
  else if b = 0xE0 then some (.inr ⟨0, 2, 0xA0, 0xBF⟩)
  else if b = 0xED then some (.inr ⟨0xD, 2, 0x80, 0x9F⟩)
  else if b < 0xF0 then some (.inr ⟨b - 0xE0, 2, 0x80, 0xBF⟩)
  else if b = 0xF0 then some (.inr ⟨0, 3, 0x90, 0xBF⟩)
  else if b < 0xF4 then some (.inr ⟨b - 0xF0, 3, 0x80, 0xBF⟩)
  else if b = 0xF4 then some (.inr ⟨4, 3, 0x80, 0x8F⟩)
  else none

/-- Read one byte where a character may start. -/
def readStart (b : UInt8) : List (Option Char) × Option Pending :=
  match startByte b.toNat with
  | some (.inl c) => ([some c], none)
  | some (.inr p) => ([], some p)
  | none => ([none], none)

/-- Read one byte: the pieces it completes, and the character it leaves unfinished. -/
def readByte (p : Option Pending) (b : UInt8) : List (Option Char) × Option Pending :=
  match p with
  | none => readStart b
  | some p =>
    let n := b.toNat
    if p.least ≤ n ∧ n ≤ p.greatest then
      let value := p.value * 64 + (n - 0x80)
      if p.left ≤ 1 then ([some (Char.ofNat value)], none)
      else ([], some ⟨value, p.left - 1, 0x80, 0xBF⟩)
    else
      let (cs, p') := readStart b
      (none :: cs, p')

/-- The pieces of bytes that follow an unfinished character. -/
def piecesFrom (p : Option Pending) : List UInt8 → List (Option Char)
  | [] => if p.isSome then [none] else []
  | b :: bs => (readByte p b).1 ++ piecesFrom (readByte p b).2 bs

/-- The pieces that bytes fall into: characters, and what is none. -/
def pieces (bytes : List UInt8) : List (Option Char) := piecesFrom none bytes

/-- The text of some bytes. -/
def ofUtf8 (bytes : List UInt8) : String :=
  String.ofList ((pieces bytes).map fun c => c.getD replacement)

/-- The text whose bytes these are, if there is one. -/
def ofUtf8? (bytes : List UInt8) : Option String :=
  let s := ofUtf8 bytes
  if utf8 s = bytes then some s else none

theorem toByteArray_eq (s : String) : s.toByteArray = (utf8 s).toByteArray := by
  rw [utf8, ← List.utf8Encode, ← String.toByteArray_ofList, String.ofList_toList]

/-- Different texts have different bytes. -/
theorem utf8_inj {s t : String} : utf8 s = utf8 t ↔ s = t := by
  refine ⟨fun h => ?_, congrArg utf8⟩
  rw [← String.toByteArray_inj, toByteArray_eq, toByteArray_eq, h]

end NodeLending.Text
