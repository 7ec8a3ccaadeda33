/-
  Text as a terminal shows it.

  * `Text.visible`: tabs become four spaces, control characters the pictures of their
    names, and characters that would turn the direction of the text a replacement sign.
  * `Text.columns`: how many columns a text then takes.
-/
import PackratCpp.Text.Width

namespace PackratCpp.Text

/-- Characters that turn the direction of the text behind them. -/
def isDirectional (c : Char) : Bool :=
  (0x202a ≤ c.toNat && c.toNat ≤ 0x202e) || (0x2066 ≤ c.toNat && c.toNat ≤ 0x2069)

/-- What is shown for a character. -/
def visibleChar (c : Char) : List Char :=
  if c = '\t' then [' ', ' ', ' ', ' ']
  else if c = '\n' then [c]
  else if c.toNat < 0x20 then [Char.ofNat (0x2400 + c.toNat)]
  else if c = '\x7f' then [Char.ofNat 0x2421]
  else if c.toNat = 0x200d then []
  else if isDirectional c then [Char.ofNat 0xfffd]
  else [c]

/-- A text as it is shown. -/
def visible (cs : List Char) : List Char :=
  cs.flatMap visibleChar

/-- The columns of what is shown for a character. -/
def shownWidth (c : Char) : Nat :=
  if c = '\t' then 4 else if isDirectional c then 1 else charWidth c

/-- The columns of a text as it is shown. -/
def columns : List Char → Nat
  | [] => 0
  | c :: cs => shownWidth c + columns cs

end PackratCpp.Text
