import NodeLending.Address.V4
import NodeLending.Text.Hex

/-!
# IPv6 addresses

An address has eight groups of sixteen bits. In its text two colons stand for groups that are
zero, and the last two groups may be written as an IPv4 address. The canonical text has lower-case
digits without zeros in front and puts the two colons where the most groups, and at least two, can
be left out; of several such places the first one counts.

## Main definitions

* `Address.V6`, with `Address.V6.parse?` and `Address.V6.text`.
-/

namespace NodeLending.Address

/-- An IPv6 address. -/
structure V6 where
  /-- The eight groups. -/
  groups : List UInt16
  deriving DecidableEq, Repr

namespace V6

/-! ### Reading -/

/-- A group of one to four hexadecimal digits. -/
def group? (cs : List Char) : Option UInt16 :=
  if cs.isEmpty ∨ cs.length > 4 then none
  else (cs.mapM Text.hexValue?).map fun ds => UInt16.ofNat (ds.foldl (fun n d => n * 16 + d) 0)

/-- The two groups of an IPv4 address. -/
def groupsOfV4 (a : V4) : List UInt16 :=
  [UInt16.ofNat (a.word.toNat / UInt16.size), UInt16.ofNat a.word.toNat]

/-- The groups of pieces; the last one may be an IPv4 address if `v4` says so. -/
def groupsOf (v4 : Bool) : List (List Char) → Option (List UInt16)
  | [] => some []
  | [cs] =>
    match group? cs with
    | some g => some [g]
    | none => if v4 then (V4.parse? cs).map groupsOfV4 else none
  | cs :: rest => do
    let g ← group? cs
    let gs ← groupsOf v4 rest
    return g :: gs

/-- The groups of a text with colons between them. -/
def parseGroups (v4 : Bool) (cs : List Char) : Option (List UInt16) :=
  if cs.isEmpty then some [] else groupsOf v4 (Text.splitAt (· == ':') cs)

/-- Cut a text at the first two colons in a row. -/
def cutAtGap : List Char → Option (List Char × List Char)
  | [] => none
  | ':' :: ':' :: cs => some ([], cs)
  | c :: cs => (cutAtGap cs).map fun p => (c :: p.1, p.2)

/-- The address of a text. -/
def parse? (cs : List Char) : Option V6 :=
  match cutAtGap cs with
  | none => do
    let gs ← if cs.isEmpty then none else parseGroups true cs
    if gs.length = 8 then some ⟨gs⟩ else none
  | some (front, back) => do
    let a ← parseGroups false front
    let b ← parseGroups true back
    if a.length + b.length ≤ 7 then
      some ⟨a ++ List.replicate (8 - a.length - b.length) 0 ++ b⟩
    else none

/-! ### Writing -/

/-- How many groups are zero from here on. -/
def zeros : List UInt16 → Nat
  | 0 :: rest => zeros rest + 1
  | _ => 0

/-- The place and length of the first one of the longest runs of zero groups. -/
def longestRun : List UInt16 → Nat × Nat
  | [] => (0, 0)
  | g :: rest =>
    let here := zeros (g :: rest)
    let (place, length) := longestRun rest
    if here ≥ length then (0, here) else (place + 1, length)

/-- Groups with colons between them. -/
def groupsText (gs : List UInt16) : String :=
  Text.join ":" (gs.map fun g => String.ofList (Nat.toDigits 16 g.toNat))

/-- The canonical text. -/
def text (a : V6) : String :=
  let (place, length) := longestRun a.groups
  if length ≥ 2 then
    groupsText (a.groups.take place) ++ "::" ++ groupsText (a.groups.drop (place + length))
  else groupsText a.groups

/-- The canonical text, in which an IPv4 address that is mapped into IPv6 is shown as such. -/
def textWithV4 (a : V6) : String :=
  match a.groups with
  | [0, 0, 0, 0, 0, 0xffff, g, h] => "::ffff:" ++ (V4.mk (g.toUInt32 <<< 16 ||| h.toUInt32)).text
  | _ => a.text

end V6

end NodeLending.Address
