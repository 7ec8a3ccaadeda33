/-
  The written form of parsing expressions: `a b`, `a / b`, `a?`, `a*`, `a+`, `&a`, `!a`.

  * `Terminal.describe`: a spelling in double quotes, or the word for a kind.
  * `Expr.toText`: choices inside a sequence, and operands that are no single symbol,
    stand in parentheses.
-/
import PackratCpp.Expr.Basic

namespace PackratCpp

/-- A terminal as diagnostics and grammars write it. -/
def Terminal.describe : Terminal → String
  | .text s => "\"" ++ s ++ "\""
  | .keyword w => "\"" ++ w.text ++ "\""
  | .kind k => k.describe

namespace Expr

/-- Whether an expression is written as a single symbol. -/
def isAtom : Expr → Bool
  | .token _ | .anyToken | .rule _ | .epsilon | .never => true
  | _ => false

/-- Whether an expression is a choice. -/
def isChoice : Expr → Bool
  | .choice _ => true
  | _ => false

/-- Parentheses where they are needed. -/
def parenthesized (needed : Bool) (text : String) : String :=
  if needed then "(" ++ text ++ ")" else text

mutual

/-- The written form of an expression. -/
def toText : Expr → String
  | .token test => test.describe
  | .anyToken => "ANY"
  | .rule r => r.name
  | .seq items => " ".intercalate (toTextItems items)
  | .choice alternatives => " / ".intercalate (toTextAll alternatives)
  | .option body => parenthesized (!body.isAtom) body.toText ++ "?"
  | .star body => parenthesized (!body.isAtom) body.toText ++ "*"
  | .plus body => parenthesized (!body.isAtom) body.toText ++ "+"
  | .followedBy body => "&" ++ parenthesized (!body.isAtom) body.toText
  | .notFollowedBy body => "!" ++ parenthesized (!body.isAtom) body.toText
  | .epsilon => "()"
  | .never => "NEVER"

/-- The written forms of the alternatives of a choice. -/
def toTextAll : List Expr → List String
  | [] => []
  | e :: es => e.toText :: toTextAll es

/-- The written forms of the parts of a sequence. -/
def toTextItems : List Expr → List String
  | [] => []
  | e :: es => parenthesized e.isChoice e.toText :: toTextItems es

end

end Expr

end PackratCpp
