/-
  The diagnosis of input that cannot be read.

  * `Diagnosis`: the furthest token that was reached, what was expected there, and the
    rule at work when it was reached.
  * `Diagnosis.message`, `Diagnosis.label`: the sentence for the user, and the words beside
    the token.
-/
import PackratCpp.Parse.Expectation
import PackratCpp.Token.Basic

namespace PackratCpp

/-- Why a stream of tokens cannot be read. -/
structure Diagnosis where
  /-- Index of the token. -/
  position : Nat
  line : Nat
  column : Nat
  /-- Byte offset of the token in the source. -/
  offset : Nat
  /-- Length of the token in bytes. -/
  length : Nat
  /-- What would have been read instead, in the order in which it was tried. -/
  expected : List Expectation
  /-- Spelling of the token, empty at the end of the input. -/
  found : String
  rule? : Option Rule
  deriving DecidableEq

namespace Diagnosis

/-- The diagnosis at a token. -/
def ofToken (position : Nat) (t : Token) (f : Furthest) : Diagnosis where
  position := position
  line := t.line
  column := t.column
  offset := t.offset
  length := t.text.utf8ByteSize
  expected := f.expected.toList
  found := t.text
  rule? := f.rule?

/-- The sentence for the user. -/
def message (d : Diagnosis) : String :=
  "parser expected one of \x7b" ++ ", ".intercalate (d.expected.map Expectation.describe) ++
    "\x7d at line " ++ toString d.line ++ ", column " ++ toString d.column

/-- The words beside the token. -/
def label (d : Diagnosis) : String :=
  let found := if d.found.isEmpty then "found end of input" else "found `" ++ d.found ++ "`"
  match d.rule? with
  | some r => found ++ " in " ++ r.name
  | none => found

end Diagnosis

end PackratCpp
