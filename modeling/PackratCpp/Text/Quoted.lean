/-
  Quoted text.

  * `Text.escape`: a character as it stands between quotes.  Quotes and backslashes get a
    backslash, tab, line feed, carriage return and NUL have names, other invisible
    characters are given by number, and all else stands for itself.
  * `Text.quoted`: a text in quotes.
-/
import PackratCpp.Text.Invisible

namespace PackratCpp.Text

/-- The number of a character in hexadecimal. -/
def hexDigits (c : Char) : List Char :=
  Nat.toDigits 16 c.toNat

/-- A character as it stands between quotes. -/
def escape (c : Char) : List Char :=
  if c = '"' then ['\\', '"']
  else if c = '\\' then ['\\', '\\']
  else if c = '\t' then ['\\', 't']
  else if c = '\n' then ['\\', 'n']
  else if c = '\r' then ['\\', 'r']
  else if c = '\x00' then ['\\', '0']
  else if isInvisible c then ['\\', 'u', '\x7b'] ++ hexDigits c ++ ['\x7d']
  else [c]

/-- The characters of a quoted text. -/
def quotedChars (cs : List Char) : List Char :=
  '"' :: cs.flatMap escape ++ ['"']

/-- A text in quotes. -/
def quoted (s : String) : String :=
  String.ofList (quotedChars s.toList)

end PackratCpp.Text
