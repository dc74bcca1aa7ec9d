import NodeLending.Digest.Sha256
import NodeLending.Json.Value
import NodeLending.Text.Hex
import NodeLending.Text.Utf8

/-!
# Digests of JSON values

A value is identified by a digest of its compact text with sorted fields, so the order in which
the fields were given does not matter. Half of the SHA-256 digest is kept.

## Main definitions

* `Json.Value.canonical`: the text that is hashed.
* `Json.Value.digest`: the digest with the name of its method in front.
-/

namespace NodeLending.Json.Value

/-- The compact text with the fields of every object in ascending order. -/
def canonical (v : Value) : String := v.sorted.render

/-- The digest of a value. -/
def digest (v : Value) : String :=
  "sha256:" ++ Text.hex ((Digest.sha256 (Text.utf8 v.canonical)).take 16)

end NodeLending.Json.Value
