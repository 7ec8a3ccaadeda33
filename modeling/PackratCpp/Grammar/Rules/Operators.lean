/-
  Operator expressions, from the casts up to the comma.

  Each level of precedence is a list of operands of the next tighter level, and gives way
  to its only operand when no operator of its own occurs.
-/
import PackratCpp.Grammar.Phrase

namespace PackratCpp.Rules

open Rule Keyword
open TokenKind (identifier string number character eof)

/-- The middle operand of `?:`, which GNU lets one leave out. -/
def conditionalMiddle (ext : Extensions) : Expr :=
  if ext.gnu then opt [expression] else expression

/-- Casts, binary operators, the conditional and assignments. -/
def operators (ext : Extensions) : List GrammarStep := [
  -- The first alternative is the compound literal of C99.
  collapsing castExpression (first [
    seq ["(", typeId, ")", bracedInitList],
    seq [ahead ["(", typeId, ")"], "(", typeId, ")", castExpression],
    unaryExpression]),
  collapsing pmExpression (seq [castExpression, many [first [".*", "->*"], castExpression]]),
  collapsing multiplicativeExpression
    (seq [pmExpression, many [first ["*", "/", "%"], pmExpression]]),
  collapsing additiveExpression
    (seq [multiplicativeExpression, many [first ["+", "-"], multiplicativeExpression]]),
  collapsing shiftExpression
    (seq [additiveExpression, many [first ["<<", ">>"], additiveExpression]]),
  collapsing relationalExpression
    (seq [shiftExpression, many [first ["<", ">", "<=", ">="], shiftExpression]]),
  collapsing equalityExpression
    (seq [relationalExpression, many [first ["==", "!="], relationalExpression]]),
  collapsing andExpression (seq [equalityExpression, many ["&", equalityExpression]]),
  collapsing exclusiveOrExpression (seq [andExpression, many ["^", andExpression]]),
  collapsing inclusiveOrExpression
    (seq [exclusiveOrExpression, many ["|", exclusiveOrExpression]]),
  collapsing logicalAndExpression
    (seq [inclusiveOrExpression, many ["&&", inclusiveOrExpression]]),
  collapsing logicalOrExpression (seq [logicalAndExpression, many ["||", logicalAndExpression]]),
  collapsing conditionalExpression (first [
    seq [logicalOrExpression, "?", conditionalMiddle ext, ":", assignmentExpression],
    logicalOrExpression]),
  collapsing assignmentExpression (first [
    seq [logicalOrExpression, assignmentOperator, initializerClause],
    conditionalExpression,
    throwExpression]),
  define assignmentOperator
    (first ["=", "*=", "/=", "%=", "+=", "-=", ">>=", "<<=", "&=", "^=", "|="]),
  define parExpression (seq ["(", expression, ")"]),
  define expression (seq [assignmentExpression, many [",", assignmentExpression]]),
  define constantExpression conditionalExpression]

end PackratCpp.Rules
