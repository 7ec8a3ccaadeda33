/-
  The words that rule bodies are written in.

  Spellings, reserved words, token kinds and rules stand for the expressions that match
  them.  Each operator takes a list, which stands for its parts one after the other, and
  builds normal forms (`Expr.sequence` and the like), so that constructs of a dialect that
  is off leave no trace.
-/
import PackratCpp.Expr.Normal
import PackratCpp.Grammar.Basic

namespace PackratCpp.Rules

instance : Coe String Expr where
  coe text := .token (.text text)

instance : Coe Keyword Expr where
  coe word := .token (.keyword word)

instance : Coe TokenKind Expr where
  coe kind := .token (.kind kind)

instance : Coe Rule Expr where
  coe rule := .rule rule

/-- An opening brace. -/
def lbrace : Expr := .token (.text "\x7b")

/-- A closing brace. -/
def rbrace : Expr := .token (.text "\x7d")

/-- One after the other. -/
def seq (items : List Expr) : Expr := .sequence items

/-- The first that matches. -/
def first (alternatives : List Expr) : Expr := .firstOf alternatives

/-- Possibly absent. -/
def opt (items : List Expr) : Expr := .optional (.sequence items)

/-- Any number of times. -/
def many (items : List Expr) : Expr := .zeroOrMore (.sequence items)

/-- At least once. -/
def many1 (items : List Expr) : Expr := .oneOrMore (.sequence items)

/-- Only before this. -/
def ahead (items : List Expr) : Expr := .next (.sequence items)

/-- Only where this does not follow. -/
def notAhead (items : List Expr) : Expr := .nextNot (.sequence items)

/-- Only in dialects that have it. -/
def gate (enabled : Bool) (e : Expr) : Expr := .gate enabled e

end PackratCpp.Rules
