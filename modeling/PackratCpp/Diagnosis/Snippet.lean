/-
  A diagnosis with the piece of source that it is about.

  * `SourceLine`, `sourceLines`: the lines of a text, each with the bytes that it covers, its
    end included.
  * `Location`, `locate`: the line of a byte, the character in it, and the column.
  * `Diagnosis.render`: the message, the place, the line, and carets under the token.
-/
import PackratCpp.Diagnosis.Basic
import PackratCpp.Text.Bytes
import PackratCpp.Text.Visible

namespace PackratCpp

/-! ## Lines -/

/-- A line of source text. -/
structure SourceLine where
  /-- From one. -/
  number : Nat
  /-- The characters without the end of the line. -/
  text : List Char
  /-- Byte offset of the first character. -/
  start : Nat
  /-- Byte offset behind the end of the line. -/
  stop : Nat

/-- The characters up to and with the first line feed, and the rest. -/
def splitAtLineFeed : List Char → List Char × List Char
  | [] => ([], [])
  | c :: cs =>
    if c = '\n' then
      ([c], cs)
    else
      let split := splitAtLineFeed cs
      (c :: split.1, split.2)

/-- A line without its line feed, and without the carriage return before that. -/
def dropLineEnd (line : List Char) : List Char :=
  match line.reverse with
  | '\n' :: '\r' :: body => body.reverse
  | '\n' :: body => body.reverse
  | _ => line

/-- The lines of a text, at most `fuel` of them; a line is never empty, so that the length of
the text is enough. -/
def linesFrom : (fuel number start : Nat) → List Char → List SourceLine
  | 0, _, _, _ => []
  | _ + 1, _, _, [] => []
  | fuel + 1, number, start, cs =>
    let split := splitAtLineFeed cs
    let stop := start + Text.byteLength split.1
    ⟨number, dropLineEnd split.1, start, stop⟩ :: linesFrom fuel (number + 1) stop split.2

/-- The lines of a text.  What follows the last line feed is a line unless it is empty. -/
def sourceLines (cs : List Char) : List SourceLine :=
  linesFrom cs.length 1 0 cs

/-- A text without characters has one line all the same. -/
def emptyLine : SourceLine := ⟨1, [], 0, 0⟩

/-- The line that covers a byte; the last line for a byte behind it. -/
def lineOfByte (lines : List SourceLine) (byte : Nat) : SourceLine :=
  ((lines.find? fun l => l.start ≤ byte && byte < l.stop).or lines.getLast?).getD emptyLine

/-! ## Locations -/

/-- Where a byte is. -/
structure Location where
  line : SourceLine
  /-- Characters before it in its line.  The end of a line counts as one. -/
  char : Nat
  /-- Columns before it in its line. -/
  column : Nat

/-- Where a byte is. -/
def locate (lines : List SourceLine) (byte : Nat) : Location :=
  let line := lineOfByte lines byte
  let before := Text.takeBytes (byte - line.start) line.text
  let beyond := if Text.byteLength line.text < byte - line.start then 1 else 0
  ⟨line, before.length + beyond, Text.columns before⟩

/-! ## Rendering -/

/-- Escape codes around the parts of a rendered diagnosis. -/
structure SnippetPalette where
  bold : String
  /-- The word `error`, and the carets. -/
  error : String
  /-- Line numbers and the frame. -/
  frame : String
  reset : String

/-- No colors. -/
def SnippetPalette.plain : SnippetPalette := ⟨"", "", "", ""⟩

/-- Bold text, bright red and bright blue. -/
def SnippetPalette.ansi : SnippetPalette :=
  ⟨"\x1b[1m", "\x1b[1m\x1b[91m", "\x1b[1m\x1b[94m", "\x1b[0m"⟩

/-- Some spaces. -/
def spaces (n : Nat) : String :=
  String.ofList (List.replicate n ' ')

/-- A text as it is shown. -/
def shownText (s : String) : String :=
  String.ofList (Text.visible s.toList)

namespace Diagnosis

/-- The bytes of the token within a source of `size` bytes.  A token without text covers the
byte at its place, if there is one. -/
def range (d : Diagnosis) (size : Nat) : Nat × Nat :=
  let start := min d.offset size
  let stop := min (start + d.length) size
  if start = stop then (start, min (start + 1) size) else (start, stop)

/-- The diagnosis with the line of the token. -/
def render (d : Diagnosis) (source : String) (path? : Option String) (colored : Bool) : String :=
  let p : SnippetPalette := if colored then .ansi else .plain
  let lines := sourceLines source.toList
  let range := d.range source.utf8ByteSize
  let start := locate lines range.1
  let stop := locate lines range.2
  let carets := if stop.line.number = start.line.number then stop.column - start.column else 1
  let number := toString start.line.number
  let margin := spaces number.length
  let bar := p.frame ++ "|" ++ p.reset
  let title := p.error ++ "error" ++ p.reset ++ p.bold ++ ": " ++ shownText d.message ++ p.reset
  let place := match path? with
    | some path =>
      [margin ++ p.frame ++ "--> " ++ p.reset ++ path ++ ":" ++ number ++ ":" ++
        toString (start.char + 1)]
    | none => []
  let text := String.ofList (Text.visible start.line.text)
  let line := p.frame ++ number ++ p.reset ++ " " ++ bar ++ (if text.isEmpty then "" else " " ++ text)
  let mark := margin ++ " " ++ bar ++ " " ++ spaces start.column ++
    p.error ++ String.ofList (List.replicate (max 1 carets) '^') ++ p.reset ++ " " ++
    p.error ++ shownText d.label ++ p.reset
  "\n".intercalate ([title] ++ place ++ [margin ++ " " ++ bar, line, mark])

end Diagnosis

end PackratCpp
