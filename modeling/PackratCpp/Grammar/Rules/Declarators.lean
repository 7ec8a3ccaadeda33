/-
  Declarators, parameters, function definitions and initializers.

  `^` declares a handle and `%` a tracking reference in C++/CLI.
-/
import PackratCpp.Grammar.Phrase

namespace PackratCpp.Rules

open Rule Keyword
open TokenKind (identifier string number character eof)

/-! ## Declarators -/

/-- Declarators with a name. -/
def declarators (ext : Extensions) : List GrammarStep := [
  define initDeclaratorList (seq [initDeclarator, many [",", initDeclarator]]),
  define initDeclarator (seq [declarator, opt [initializer]]),
  define declarator
    (first [ptrDeclarator, seq [noptrDeclarator, parametersAndQualifiers, trailingReturnType]]),
  define ptrDeclarator (first [seq [ptrOperator, ptrDeclarator], noptrDeclarator]),
  define noptrDeclarator (seq [
    first [seq [declaratorId, opt [attributeSpecifierSeq]], seq ["(", ptrDeclarator, ")"]],
    many [
      first [
        parametersAndQualifiers,
        seq ["[", opt [constantExpression], "]", opt [attributeSpecifierSeq]]]]]),
  define parametersAndQualifiers (seq [
    "(",
    parameterDeclarationClause,
    ")",
    opt [attributeSpecifierSeq],
    opt [cvQualifierSeq],
    opt [gate ext.managed cliFunctionModifiers],
    opt [refQualifier],
    opt [trailingReturnType],
    opt [exceptionSpecification]]),
  define trailingReturnType
    (seq ["->", many1 [trailingTypeSpecifierSeq], opt [abstractDeclarator]]),
  define ptrOperator (first [
    seq ["*", many [first [attributeSpecifierSeq, cvQualifierSeq]]],
    seq ["&", many [attributeSpecifierSeq]],
    seq ["&&", many [attributeSpecifierSeq]],
    seq [nestedNameSpecifier, "*", many [first [attributeSpecifierSeq, cvQualifierSeq]]],
    gate ext.managed (seq ["^", opt [attributeSpecifierSeq], opt [cvQualifierSeq]]),
    gate ext.managed (seq ["%", opt [attributeSpecifierSeq]])]),
  define cvQualifierSeq (many1 [cvQualifier]),
  define cvQualifier (first [kConst, kVolatile]),
  define refQualifier (first ["&", "&&"]),
  define declaratorId
    (first [seq [opt [nestedNameSpecifier], className], seq [opt ["..."], idExpression]])]

/-! ## Abstract declarators -/

/-- Parameter lists and array bounds after an abstract declarator. -/
def declaratorSuffixes : Expr :=
  many [first [
    parametersAndQualifiers,
    seq ["[", opt [constantExpression], "]", opt [attributeSpecifierSeq]]]]

/-- Types with declarators that lack a name. -/
def abstractDeclarators : List GrammarStep := [
  define typeId (seq [typeSpecifierSeq, opt [abstractDeclarator]]),
  define typeIdEnclosed (first [seq ["<", typeId, ">"], seq ["<", innerTypeId, ">>"]]),
  define abstractDeclarator (first [
    ptrAbstractDeclarator,
    seq [opt [noptrAbstractDeclarator], parametersAndQualifiers, trailingReturnType],
    abstractPackDeclarator]),
  define ptrAbstractDeclarator (seq [many [ptrOperator], opt [noptrAbstractDeclarator]]),
  define noptrAbstractDeclarator
    (seq [opt ["(", ptrAbstractDeclarator, ")"], declaratorSuffixes]),
  define abstractPackDeclarator (seq [many [ptrOperator], noptrAbstractPackDeclarator]),
  define noptrAbstractPackDeclarator (seq ["...", declaratorSuffixes])]

/-! ## Parameters -/

/-- Parameters. -/
def parameters (ext : Extensions) : List GrammarStep := [
  define parameterDeclarationClause (first [
    seq [parameterDeclarationList, ",", "..."],
    seq [opt [parameterDeclarationList], opt ["..."]],
    gate ext.managed cliParameterArray]),
  define parameterDeclarationList (seq [parameterDeclaration, many [",", parameterDeclaration]]),
  define parameterDeclaration (first [
    seq [
      opt [attributeSpecifierSeq],
      opt [gate ext.attributedAtl vcAtlAttribute],
      parameterDeclSpecifierSeq,
      declarator,
      opt ["=", initializerClause]],
    seq [
      opt [attributeSpecifierSeq],
      parameterDeclSpecifierSeq,
      opt [abstractDeclarator],
      opt ["=", initializerClause]]])]

/-! ## Function definitions -/

/-- Function definitions. -/
def functions : List GrammarStep := [
  define functionDefinition (seq [
    opt [attributeSpecifierSeq],
    opt [functionDeclSpecifierSeq],
    declarator,
    opt [virtSpecifierSeq],
    functionBody]),
  define functionBody (first [
    seq [opt [ctorInitializer], compoundStatement],
    functionTryBlock,
    seq ["=", kDelete, ";"],
    seq ["=", kDefault, ";"]])]

/-! ## Initializers -/

/-- Initializers. -/
def initializers (ext : Extensions) : List GrammarStep := [
  define initializer (first [seq ["(", expressionList, ")"], braceOrEqualInitializer]),
  define braceOrEqualInitializer (first [seq ["=", initializerClause], bracedInitList]),
  -- Designators of C99, and the range `[a ... b] =` of GNU.
  define initializerClause (seq [
    opt [
      first [
        seq [".", identifier, "="],
        gate ext.gnu (seq ["[", constantExpression, "...", constantExpression, "]", "="]),
        seq ["[", constantExpression, "]", "="]]],
    first [assignmentExpression, bracedInitList]]),
  define initializerList
    (seq [initializerClause, opt ["..."], many [",", initializerClause, opt ["..."]]]),
  -- A lone comma between braces is no list.
  define bracedInitList
    (first [seq [lbrace, initializerList, opt [","], rbrace], seq [lbrace, rbrace]])]

end PackratCpp.Rules
