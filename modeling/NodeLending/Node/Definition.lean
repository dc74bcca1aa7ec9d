import NodeLending.Json.Codec
import NodeLending.Json.Digest
import NodeLending.Keyed

/-!
# Node definitions

A definition says under which labels a node is lent and how the engine launches it. The labels are
one text with blanks between them, kept as it was written; the launch parameters mean nothing to
the pool.

## Main definitions

* `NodeDefinition`, with its labels `NodeDefinition.atoms` and its digest.
-/

namespace NodeLending

/-- What a repository says of a node. -/
structure NodeDefinition where
  /-- The labels, with blanks between them. -/
  labels : String
  /-- A remark. -/
  description : Option String
  /-- The parameters of the launch. -/
  launch : Keyed String String
  deriving DecidableEq, Repr

namespace NodeDefinition

open Json

/-- The labels of the node. -/
def atoms (d : NodeDefinition) : List String := Text.words d.labels

/-- The reader of the launch parameters. -/
def launchDecoder : Decoder (Keyed String String) := fun o =>
  (Decoder.map .ok Decoder.string o).map Keyed.ofList

instance : Codec NodeDefinition where
  encode d := .object ([("labels", .string d.labels)] ++
    optional "description" (d.description.map .string) ++
    [("launch", .object (d.launch.mapValues Value.string).entries)])
  decoder := record "NodeDefinition" true
    (NodeDefinition.mk <$> .required "labels" Decoder.string
      <*> .defaulted "description" Decoder.string.option none
      <*> .defaulted "launch" launchDecoder ∅)

/-- The digest that identifies the definition in reports. -/
def digest (d : NodeDefinition) : String := (encode d).digest

end NodeDefinition

end NodeLending
