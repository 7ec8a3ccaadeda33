/-
  Statements.
-/
import PackratCpp.Grammar.Phrase

namespace PackratCpp.Rules

open Rule Keyword
open TokenKind (identifier string number character eof)

/-- Statements. -/
def statements (ext : Extensions) : List GrammarStep := [
  define statement (first [
    seq [opt [attributeSpecifierSeq], compoundStatement],
    labeledStatement,
    seq [opt [attributeSpecifierSeq], expressionStatement],
    seq [opt [attributeSpecifierSeq], ifStatement],
    seq [opt [attributeSpecifierSeq], switchStatement],
    seq [opt [attributeSpecifierSeq], iterationStatement],
    seq [opt [attributeSpecifierSeq], jumpStatement],
    declarationStatement,
    seq [opt [attributeSpecifierSeq], tryBlock],
    emptyStatement]),
  define emptyStatement ";",
  define labeledStatement (seq [opt [attributeSpecifierSeq], identifier, ":", statement]),
  define expressionStatement (seq [opt [expression], ";"]),
  define compoundStatement (seq [lbrace, opt [statementSeq], rbrace]),
  define statementSeq (many1 [statement]),
  define condition (first [
    seq [
      opt [attributeSpecifierSeq],
      conditionDeclSpecifierSeq,
      declarator,
      first [seq ["=", initializerClause], bracedInitList]],
    expression]),
  define ifStatement (seq [kIf, "(", condition, ")", statement, opt [kElse, statement]]),
  -- Some headers declare things before the first case label.
  define switchStatement (seq [
    kSwitch,
    "(",
    condition,
    ")",
    first [seq [lbrace, switchBlockStatementGroups, rbrace], switchBlockStatementGroups]]),
  define switchBlockStatementGroups
    (seq [lbrace, opt [declarationSeq], many [switchBlockStatementGroup], rbrace]),
  define switchBlockStatementGroup
    (seq [switchLabelStatement, opt [emptyStatement], many [statement], opt [jumpStatement]]),
  define switchLabelStatement (first [
    seq [kCase, constantExpression, ":"],
    gate ext.gnu (seq [kCase, constantExpression, "...", constantExpression, ":"]),
    seq [kDefault, ":"]]),
  define iterationStatement (first [
    seq [kWhile, "(", condition, ")", statement],
    seq [kDo, statement, kWhile, "(", expression, ")", ";"],
    seq [kFor, "(", forInitStatement, opt [condition], ";", opt [expression], ")", statement],
    seq [kFor, "(", forRangeDeclaration, ":", forRangeInitializer, ")", statement],
    gate ext.managed (seq [
      kFor, "each", "(", forRangeDeclaration, "in", forRangeInitializer, ")", statement])]),
  define forInitStatement (first [expressionStatement, simpleDeclaration]),
  define forRangeDeclaration
    (seq [opt [attributeSpecifierSeq], forRangeDeclSpecifierSeq, declarator]),
  define forRangeInitializer (first [expression, bracedInitList]),
  define jumpStatement (first [
    seq [kBreak, ";"],
    seq [kContinue, ";"],
    seq [kReturn, opt [expression], ";"],
    seq [kReturn, bracedInitList, ";"],
    seq [kGoto, identifier, ";"]]),
  define declarationStatement blockDeclaration]

end PackratCpp.Rules
