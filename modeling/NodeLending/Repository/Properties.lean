import NodeLending.Keyed
import NodeLending.Text.Blank
import NodeLending.Text.Split

/-!
# Properties files

Each line gives a key its value, with `=` or `:` between them. Blanks around the line, the key and
the value do not count. A line that is blank or starts with `#` or `!` says nothing, a line without
a separator gives its key an empty value, and of several lines for one key the last one counts.

## Main definitions

* `Properties.parse`: the values of a text.
* `Properties.print`: the text of values.
-/

namespace NodeLending.Properties

/-- Whether a character ends the key of a line. -/
def isSeparator (c : Char) : Bool := c == '=' || c == ':'

/-- Whether a line without blanks at its ends says nothing. -/
def isSilent : List Char → Bool
  | [] => true
  | c :: _ => c == '#' || c == '!'

/-- The key and the value of a line. -/
def entry (line : List Char) : String × String :=
  let (key, value) := Text.cutAt isSeparator line
  (String.ofList (Text.trimChars key), String.ofList (Text.trimChars value.tail))

/-- What a line says. -/
def entry? (line : List Char) : Option (String × String) :=
  let line := Text.trimChars line
  if isSilent line then none else some (entry line)

/-- The entries of a text, line by line. -/
def entries (s : String) : List (String × String) :=
  (Text.splitAt (· == '\n') s.toList).filterMap entry?

/-- The values of a text. -/
def parse (s : String) : Keyed String String := Keyed.ofList (entries s)

/-- The line of an entry. -/
def line (e : String × String) : String := e.1 ++ "=" ++ e.2 ++ "\n"

/-- The remark that a text starts with. -/
def remark : String := "# node sharing pool configuration\n"

/-- The text of values. -/
def print (entries : List (String × String)) : String :=
  remark ++ String.join (entries.map line)

end NodeLending.Properties
