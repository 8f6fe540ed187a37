import IndexAlgebra.Text.Extending
import IndexAlgebra.Text.Ignorable
import IndexAlgebra.Text.Printable
/-!
# Quoted text

Text between double quotes, written so that every character can be seen. The quote, the backslash
and four control characters have escapes of one letter; any other character that is not printable,
that is ignorable, or that would merge with the one in front of it, is written by its code point in
hexadecimal between braces.
-/

namespace IndexAlgebra.Text

/-- A character by its code point. -/
def escapeCodePoint (c : Char) : List Char :=
  ['\\', 'u', '\x7b'] ++ Nat.toDigits 16 c.toNat ++ ['\x7d']

/-- Whether a character would be seen as itself between quotes. -/
def isVisible (c : Char) : Bool := isPrintable c && !isIgnorable c && !isExtending c

/-- A character as it stands between quotes. -/
def quotedChar (c : Char) : List Char :=
  if c = '"' then ['\\', '"']
  else if c = '\\' then ['\\', '\\']
  else if c = '\n' then ['\\', 'n']
  else if c = '\r' then ['\\', 'r']
  else if c = '\t' then ['\\', 't']
  else if c.toNat = 0 then ['\\', '0']
  else if isVisible c then [c]
  else escapeCodePoint c

def quoted (s : String) : String :=
  "\"" ++ String.ofList (s.toList.flatMap quotedChar) ++ "\""

end IndexAlgebra.Text
