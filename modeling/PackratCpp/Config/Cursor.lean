/-
  Reading the text of a configuration, character by character.

  * `Cursor`: what is left of a text, and where it starts.
  * `Reader`: reads from a cursor, or fails with a fault at a place.
  * `Reader.failHere`, `Reader.failAfter`: a fault at the cursor, or some bytes behind it.
  * `Reader.peek?`, `Reader.skip`, `Reader.peekToken?`, `Reader.word`: single characters, and
    words letter by letter.
-/
import PackratCpp.Config.Error
import PackratCpp.Text.Bytes

namespace PackratCpp

/-- What is left of a text. -/
structure Cursor where
  rest : List Char
  line : Nat
  /-- Bytes of the line before the cursor. -/
  column : Nat

namespace Cursor

/-- The start of a text. -/
def ofText (text : String) : Cursor := ⟨text.toList, 1, 0⟩

/-- The place behind a character. -/
def next (line column : Nat) (c : Char) : Nat × Nat :=
  if c = '\n' then (line + 1, 0) else (line, column + c.utf8Size)

/-- The cursor behind the next character. -/
def advance (cur : Cursor) : Cursor :=
  match cur.rest with
  | [] => cur
  | c :: cs =>
    let place := next cur.line cur.column c
    ⟨cs, place.1, place.2⟩

/-- The cursor at the first character that is no blank. -/
def skipBlanks (line column : Nat) : List Char → Cursor
  | [] => ⟨[], line, column⟩
  | c :: cs =>
    if c = ' ' || c = '\n' || c = '\t' || c = '\r' then
      let place := next line column c
      skipBlanks place.1 place.2 cs
    else
      ⟨c :: cs, line, column⟩

/-- The line and column some bytes behind a place, or at the end of the text. -/
def placeAfter (line column : Nat) : (bytes : Nat) → List Char → Nat × Nat
  | 0, _ => (line, column)
  | _ + 1, [] => (line, column)
  | bytes + 1, c :: cs =>
    if c.utf8Size ≤ bytes + 1 then
      let place := next line column c
      placeAfter place.1 place.2 (bytes + 1 - c.utf8Size) cs
    else
      (line, column + bytes + 1)

end Cursor

/-- Reads from a cursor. -/
abbrev Reader := StateT Cursor (Except ConfigError)

namespace Reader

/-- A fault at the cursor. -/
def failHere {α : Type} (fault : ConfigFault) : Reader α := do
  let cur ← get
  throw ⟨fault, cur.line, cur.column⟩

/-- A fault some bytes behind the cursor. -/
def failAfter {α : Type} (bytes : Nat) (fault : ConfigFault) : Reader α := do
  let cur ← get
  let place := Cursor.placeAfter cur.line cur.column bytes cur.rest
  throw ⟨fault, place.1, place.2⟩

/-- A fault at the next character. -/
def failNext {α : Type} (fault : ConfigFault) : Reader α :=
  failAfter 1 fault

/-- The next character. -/
def peek? : Reader (Option Char) := do
  return (← get).rest.head?

/-- Goes past the next character. -/
def skip : Reader Unit :=
  modify Cursor.advance

/-- The next character that is no blank. -/
def peekToken? : Reader (Option Char) := do
  modify fun cur => Cursor.skipBlanks cur.line cur.column cur.rest
  peek?

/-- The rest of a word that has only one continuation. -/
def word : List Char → Reader Unit
  | [] => pure ()
  | expected :: more => do
    match ← peek? with
    | none => failHere .endInValue
    | some c =>
      if c = expected then
        skip
        word more
      else
        failNext .expectedWord

/-- How much is left, as a bound for what is still to be read. -/
def remaining : Reader Nat := do
  return (← get).rest.length

end Reader

end PackratCpp
