import NodeLending.Json.Bytes
import NodeLending.Text.Encoding

/-!
# JSON in bytes and in texts

Bytes that are UTF-8 are read like the text that they encode. Any other bytes are read like a text
up to the first piece that is no character. Outside of strings such a piece ends what can be read,
and a string that it stands in has no text.

## Main results

* `Json.Document.ofBytes_utf8`, `Json.readBytes_utf8`: the bytes of a text.
-/

namespace NodeLending.Json

theorem Token.ofPieces_map_some (m : Mode) (cs : List Char) :
    ofPieces m (cs.map some) = ofMode m cs := by
  induction cs generalizing m with
  | nil => rfl
  | cons c cs ih => rw [List.map_cons, ofPieces, stepPiece, ih, ofMode]

/-- The bytes of a text have its outline. -/
theorem Document.ofBytes_utf8 (s : String) : Document.ofBytes (Text.utf8 s) = Document.read s := by
  rw [ofBytes, Text.pieces_utf8, Token.ofPieces_map_some]
  rfl

/-- The bytes of a text are read like the text. -/
theorem readBytes_utf8 {α : Type} [Codec α] (s : String) :
    (readBytes (Text.utf8 s) : Except DecodeError α) = read s := by
  rw [readBytes, Document.ofBytes_utf8]
  rfl

end NodeLending.Json
