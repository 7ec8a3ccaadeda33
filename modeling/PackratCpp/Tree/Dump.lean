/-
  Trees as indented text, one line for each node and token.

  * `Palette`: the escape codes of a colored dump.
  * `DumpStyle`: what a dump shows besides names and spellings.
  * `Tree.dump`: the lines in preorder, two spaces of indentation for each level.
-/
import PackratCpp.Text.Quoted
import PackratCpp.Token.Stream
import PackratCpp.Tree.Basic

namespace PackratCpp

/-- Escape codes around the parts of a line. -/
structure Palette where
  rule : String
  text : String
  /-- Positions. -/
  muted : String
  /-- Rules that stand for skipped input. -/
  recovered : String
  reset : String

/-- No colors. -/
def Palette.plain : Palette := ⟨"", "", "", "", ""⟩

/-- Blue rules, green spellings, dim positions, red for what was skipped. -/
def Palette.ansi : Palette := ⟨"\x1b[34m", "\x1b[32m", "\x1b[2m", "\x1b[31m", "\x1b[0m"⟩

/-- Colors or none. -/
def Palette.of (colored : Bool) : Palette :=
  if colored then .ansi else .plain

/-- What a dump shows. -/
structure DumpStyle where
  /-- Spans of nodes, lines and columns of tokens. -/
  spans : Bool
  /-- The end of input. -/
  eof : Bool
  palette : Palette

/-- Names and spellings alone. -/
def DumpStyle.bare : DumpStyle := ⟨false, false, .plain⟩

namespace Tree

/-- The indentation of a level. -/
def indentation (depth : Nat) : String :=
  String.ofList (List.replicate (2 * depth) ' ')

/-- The line of a node. -/
def nodeLine (style : DumpStyle) (depth : Nat) (rule : Rule) (start stop : Nat) : String :=
  let c := style.palette
  let color := if rule = .recoveredDeclaration then c.recovered else c.rule
  let line := indentation depth ++ color ++ rule.name ++ c.reset
  if style.spans then
    line ++ " " ++ c.muted ++ "[" ++ toString start ++ ".." ++ toString stop ++ "]" ++ c.reset
  else
    line

/-- The line of a token. -/
def tokenLine (style : DumpStyle) (depth : Nat) (t : Token) : String :=
  let c := style.palette
  let line :=
    indentation depth ++ t.kind.name ++ " " ++ c.text ++ Text.quoted t.text ++ c.reset
  if style.spans then
    line ++ " " ++ c.muted ++ toString t.line ++ ":" ++ toString t.column ++ c.reset
  else
    line

mutual

/-- The lines of a tree. -/
def dumpLines (tokens : TokenStream) (style : DumpStyle) (depth : Nat) : Tree → List String
  | .leaf i =>
    match tokens.get? i with
    | some t => if t.isEof && !style.eof then [] else [tokenLine style depth t]
    | none => []
  | .node r s e cs => nodeLine style depth r s e :: dumpLinesAll tokens style (depth + 1) cs

/-- The lines of some trees. -/
def dumpLinesAll (tokens : TokenStream) (style : DumpStyle) (depth : Nat) :
    List Tree → List String
  | [] => []
  | t :: ts => dumpLines tokens style depth t ++ dumpLinesAll tokens style depth ts

end

/-- Lines, each with its end. -/
def joinLines (lines : List String) : String :=
  String.join (lines.map (· ++ "\n"))

/-- A tree as indented text. -/
def dump (t : Tree) (tokens : TokenStream) (style : DumpStyle) : String :=
  joinLines (dumpLines tokens style 0 t)

end Tree

end PackratCpp
