/-
  Literals.

  One rule for a constant of any kind; the words `true`, `false` and `nullptr` have rules
  of their own.
-/
import PackratCpp.Grammar.Phrase

namespace PackratCpp.Rules

open Rule Keyword
open TokenKind (identifier string number character eof)

/-- Literals. -/
def literals : List GrammarStep := [
  define booleanLiteral (first [kTrue, kFalse]),
  define pointerLiteral kNullptr,
  define literal (first [character, string, number, booleanLiteral, pointerLiteral])]

end PackratCpp.Rules
