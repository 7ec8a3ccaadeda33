/-
  The lexicon: what the pieces of a source text look like.

  * `PieceClass`: the classes of pieces.  Blanks and comments separate tokens, and text
    that fits nothing is `invalid`.
  * `lexicon`: the pattern of every class but `invalid`.  No two of them describe the same
    text, so that their order does not matter.
-/
import PackratCpp.Lex.Pattern

namespace PackratCpp

/-- The class of a piece of source text. -/
inductive PieceClass where
  /-- Blanks, and line ends behind a backslash. -/
  | blank
  /-- Comments and directives. -/
  | comment
  | word
  | number
  | string
  | character
  | punctuator
  /-- Text that fits no pattern. -/
  | invalid
  deriving DecidableEq, Inhabited

namespace Lexicon

open Pattern

/-- A digit. -/
def digit : Pattern :=
  .one ⟨false, [('0', '9')]⟩

/-- What a word may start with. -/
def wordStart : Pattern :=
  .one ⟨false, [('A', 'Z'), ('a', 'z'), ('_', '_'), ('$', '$')]⟩

/-- What a word may go on with. -/
def wordRest : Pattern :=
  .one ⟨false, [('A', 'Z'), ('a', 'z'), ('0', '9'), ('_', '_'), ('$', '$')]⟩

/-- What a number may go on with, signs apart. -/
def numberRest : Pattern :=
  .one ⟨false, [('0', '9'), ('A', 'Z'), ('a', 'z'), ('_', '_'), ('.', '.'), ('\'', '\'')]⟩

/-- The rest of a line. -/
def restOfLine : Pattern :=
  .star (noneOf ['\n'])

/-- A row of blanks. -/
def blanks : Pattern :=
  plus (oneOf [' ', '\t', '\r', '\n', '\x0c', '\x0b'])

/-- A line end behind a backslash. -/
def splice : Pattern :=
  all [oneOf ['\\'], optional (oneOf ['\r']), oneOf ['\n']]

/-- A comment up to the end of the line. -/
def lineComment : Pattern :=
  .seq (word "//") restOfLine

/-- A comment up to the first `*/`. -/
def blockComment : Pattern :=
  all [
    word "/*",
    .star (noneOf ['*']),
    plus (oneOf ['*']),
    .star (all [noneOf ['/', '*'], .star (noneOf ['*']), plus (oneOf ['*'])]),
    oneOf ['/']]

/-- A line that starts with a hash. -/
def directive : Pattern :=
  .seq (oneOf ['#']) restOfLine

/-- A word, reserved or not. -/
def identifier : Pattern :=
  .seq wordStart (.star wordRest)

/-- A number.  A sign may follow the letter of an exponent. -/
def number : Pattern :=
  .seq
    (.alt digit (.seq (oneOf ['.']) digit))
    (.star (.alt numberRest (.seq (oneOf ['e', 'E', 'p', 'P']) (oneOf ['+', '-']))))

/-- The letters that may stand before a quote. -/
def encoding : Pattern :=
  optional (anyOf [word "u8", word "u", word "U", word "L"])

/-- A literal between quotes on one line, in which a backslash goes together with the
character behind it. -/
def literal (quote : Char) : Pattern :=
  all [
    encoding,
    oneOf [quote],
    .star (.alt (noneOf [quote, '\\', '\n']) (.seq (oneOf ['\\']) (noneOf ['\n']))),
    oneOf [quote]]

/-- The spellings of punctuators. -/
def punctuators : List String := [
  "\x7b", "\x7d", "[", "]", "(", ")", ";", ":", "::", "...", "?", ".", ".*", "->", "->*",
  "~", "!", "+", "-", "*", "/", "%", "^", "&", "|", "=", "+=", "-=", "*=", "/=", "%=", "^=",
  "&=", "|=", "==", "!=", "<", ">", "<=", ">=", "&&", "||", "<<", ">>", "<<=", ">>=", "++",
  "--", ","]

end Lexicon

open Lexicon in
/-- Every class with the patterns of its pieces. -/
def lexicon : List (PieceClass × Pattern) :=
  [ (.blank, blanks),
    (.blank, splice),
    (.comment, lineComment),
    (.comment, blockComment),
    (.comment, directive),
    (.word, identifier),
    (.number, number),
    (.string, literal '"'),
    (.character, literal '\'') ] ++
  punctuators.map fun s => (.punctuator, .word s)

end PackratCpp
