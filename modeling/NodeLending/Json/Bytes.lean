import NodeLending.Json.Codec
import NodeLending.Text.Utf8

/-!
# JSON in bytes

Bytes that are read as JSON need not be UTF-8. A piece of them that is no character is in order only
inside a string, which has no text then, as if half of a surrogate pair stood alone in it. Where
such a string is left unread nobody notices.

## Main definitions

* `Json.Token.ofPieces`: the tokens of the pieces that bytes fall into.
* `Json.readBytes`: the value of bytes.
-/

namespace NodeLending.Json

/-- Read one piece: a character, or what is none. -/
def Token.stepPiece (m : Mode) : Option Char → List Token × Mode
  | some c => step m c
  | none =>
    match m with
    | .text t => ([], .text { t with sound := false })
    | m => step m Text.replacement

/-- The tokens of the pieces that follow in a mode. -/
def Token.ofPieces (m : Mode) : List (Option Char) → List Token
  | [] => finish m
  | p :: ps => (stepPiece m p).1 ++ ofPieces (stepPiece m p).2 ps

/-- The outline of bytes. -/
def Document.ofBytes (bytes : List UInt8) : Document :=
  Outline.ofTokens [] .value (Token.ofPieces .between (Text.pieces bytes))

/-- The value of bytes. -/
def readBytes {α : Type} [Codec α] (bytes : List UInt8) : Except DecodeError α :=
  (Document.ofBytes bytes).decode Codec.decoder

end NodeLending.Json
