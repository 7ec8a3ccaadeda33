/-
  The translation unit, and recovery at its top level.

  With recovery on, a run of tokens at which no declaration starts is kept as a
  `recoveredDeclaration`, and reading goes on behind it.  The rule is there either way;
  with recovery off no other rule mentions it.
-/
import PackratCpp.Grammar.Phrase

namespace PackratCpp.Rules

open Rule TokenKind

/-- What a translation unit consists of. -/
def topLevelItem (errorRecovery : Bool) : Expr :=
  if errorRecovery then first [declaration, recoveredDeclaration] else declaration

/-- The translation unit and skipped input. -/
def topLevel (errorRecovery : Bool) : List GrammarStep := [
  define translationUnit (seq [many [topLevelItem errorRecovery], eof]),
  define recoveredDeclaration (many1 [notAhead [first [declaration, eof]], .anyToken])]

end PackratCpp.Rules
