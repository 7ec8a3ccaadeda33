/-
  Exception handling and exception specifications.
-/
import PackratCpp.Grammar.Phrase

namespace PackratCpp.Rules

open Rule Keyword
open TokenKind (identifier string number character eof)

/-- The clause that C++/CLI adds to a `try` block. -/
def finallyClause (ext : Extensions) : Expr :=
  gate ext.managed cliFinallyClause

/-- Exception handling. -/
def exceptions (ext : Extensions) : List GrammarStep := [
  define tryBlock (first [
    seq [kTry, compoundStatement, handlerSeq, finallyClause ext],
    seq [kTry, compoundStatement, handlerSeq],
    seq [kTry, compoundStatement, finallyClause ext]]),
  define functionTryBlock (first [
    seq [kTry, opt [ctorInitializer], compoundStatement, handlerSeq, finallyClause ext],
    seq [kTry, opt [ctorInitializer], compoundStatement, handlerSeq],
    seq [kTry, opt [ctorInitializer], compoundStatement, finallyClause ext]]),
  define handlerSeq (many1 [handler]),
  define handler (seq [kCatch, "(", exceptionDeclaration, ")", compoundStatement]),
  define exceptionDeclaration (first [
    seq [
      opt [attributeSpecifierSeq],
      typeSpecifierSeq,
      first [declarator, opt [abstractDeclarator]]],
    "..."]),
  define throwExpression (seq [kThrow, opt [assignmentExpression]]),
  define exceptionSpecification (first [dynamicExceptionSpecification, noexceptSpecification]),
  define dynamicExceptionSpecification (seq [kThrow, "(", opt [typeIdList], ")"]),
  define typeIdList (seq [typeId, opt ["..."], many [",", typeId, opt ["..."]]]),
  define noexceptSpecification (seq [kNoexcept, opt ["(", constantExpression, ")"]])]

end PackratCpp.Rules
