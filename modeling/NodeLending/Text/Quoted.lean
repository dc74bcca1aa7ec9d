import NodeLending.Text.Printable

/-!
# Quoted texts in messages

A message shows a text between double quotes. The quote and the backslash are escaped, four
control characters have escapes of one letter, and every other character that is not shown as
itself is written by its number.

## Main definitions

* `Text.quoted`: the quoted text.
-/

namespace NodeLending.Text

/-- A character between the quotes. -/
def quotedChar (c : Char) : List Char :=
  if c = '"' then ['\\', '"']
  else if c = '\\' then ['\\', '\\']
  else if c = '\n' then ['\\', 'n']
  else if c = '\r' then ['\\', 'r']
  else if c = '\t' then ['\\', 't']
  else if c.toNat = 0 then ['\\', '0']
  else if isShown c then [c]
  else '\\' :: 'u' :: '\x7b' :: (Nat.toDigits 16 c.toNat ++ ['\x7d'])

/-- A text between double quotes. -/
def quoted (s : String) : String :=
  String.ofList ('"' :: (s.toList.flatMap quotedChar ++ ['"']))

end NodeLending.Text
