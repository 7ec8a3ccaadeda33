/-
  Classes, their members and bases, special member functions and operators.
-/
import PackratCpp.Grammar.Phrase

namespace PackratCpp.Rules

open Rule Keyword
open TokenKind (identifier string number character eof)

/-! ## Classes -/

/-- How a class head starts. -/
def classHeadStart (ext : Extensions) : Expr :=
  seq [
    opt [gate ext.managed cliTopLevelVisibility],
    opt [gate ext.attributedAtl vcAtlAttribute],
    classKey,
    opt [attributeSpecifierSeq]]

/-- The word before `class` or `struct` in C++/CLI. -/
def aggregateKind (ext : Extensions) : Expr :=
  opt [gate ext.managed (first ["ref", "value", "interface"])]

/-- Classes. -/
def classes (ext : Extensions) : List GrammarStep := [
  define className (first [simpleTemplateId, seq [opt ["::"], identifier]]),
  -- GNU allows attributes after the body.
  define classSpecifier (seq [
    opt [gate ext.attributedAtl vcAtlAttribute],
    classHead,
    lbrace,
    opt [memberSpecification],
    rbrace,
    opt [attributeSpecifierSeq]]),
  define classHead (first [
    seq [
      classHeadStart ext,
      classHeadName,
      opt [classVirtSpecifier],
      opt [baseClause],
      opt [attributeSpecifierSeq]],
    seq [classHeadStart ext, opt [baseClause]]]),
  define classHeadName (seq [opt [nestedNameSpecifier], className]),
  define classVirtSpecifier
    (first [kFinal, gate ext.managed "sealed", gate ext.managed "abstract"]),
  define classKey
    (first [seq [aggregateKind ext, kClass], seq [aggregateKind ext, kStruct], kUnion])]

/-! ## Members -/

/-- Members. -/
def members (ext : Extensions) : List GrammarStep := [
  define memberSpecification (many1 [first [memberDeclaration, seq [accessSpecifier, ":"]]]),
  define memberDeclaration (first [
    seq [functionDefinition, opt [emptyStatement]],
    seq [
      opt [attributeSpecifierSeq],
      opt [gate ext.attributedAtl vcAtlAttribute],
      opt [gate ext.managed (first ["initonly", "literal"])],
      opt [memberDeclSpecifierSeq],
      opt [memberDeclaratorList],
      emptyStatement],
    seq [opt ["::"], nestedNameSpecifier, opt [kTemplate], unqualifiedId, emptyStatement],
    usingDeclaration,
    staticAssertDeclaration,
    templateDeclaration,
    aliasDeclaration,
    gate ext.managed cliGenericDeclaration,
    gate ext.managed cliDelegateSpecifier,
    gate ext.managed cliEventDefinition,
    gate ext.managed cliPropertyDefinition]),
  define memberDeclaratorList (seq [memberDeclarator, many [",", memberDeclarator]]),
  -- The second alternative is a bit field.
  define memberDeclarator (first [
    seq [declarator, braceOrEqualInitializer],
    seq [opt [identifier], opt [attributeSpecifierSeq], ":", constantExpression],
    seq [
      declarator,
      opt [gate ext.managed cliFunctionModifiers],
      opt [virtSpecifierSeq],
      opt [pureSpecifier]],
    declarator]),
  define virtSpecifierSeq (many1 [virtSpecifier]),
  define virtSpecifier (first [kOverride, kFinal]),
  define pureSpecifier (seq ["=", "0"])]

/-! ## Base classes -/

/-- Base classes. -/
def bases (ext : Extensions) : List GrammarStep := [
  define baseClause (seq [":", baseSpecifierList]),
  define baseSpecifierList
    (seq [baseSpecifier, opt ["..."], many [",", baseSpecifier, opt ["..."]]]),
  define baseSpecifier (first [
    seq [opt [attributeSpecifierSeq], baseTypeSpecifier],
    seq [opt [attributeSpecifierSeq], kVirtual, opt [accessSpecifier], baseTypeSpecifier],
    seq [opt [attributeSpecifierSeq], accessSpecifier, opt [kVirtual], baseTypeSpecifier]]),
  define classOrDecltype (first [classHeadName, decltypeSpecifier]),
  define baseTypeSpecifier classOrDecltype,
  -- The forms of two words are assembly visibilities of C++/CLI.
  define accessSpecifier (first [
    gate ext.managed (seq [kProtected, kPublic]),
    gate ext.managed (seq [kPublic, kProtected]),
    gate ext.managed (seq [kProtected, kPrivate]),
    gate ext.managed (seq [kPrivate, kProtected]),
    kPrivate,
    kProtected,
    kPublic,
    gate ext.managed "internal"])]

/-! ## Special member functions -/

/-- Conversion functions and constructor initializers. -/
def specialMembers : List GrammarStep := [
  define conversionFunctionId (seq [kOperator, conversionTypeId]),
  define conversionTypeId (seq [typeSpecifierSeq, opt [conversionDeclarator]]),
  define conversionDeclarator (many1 [ptrOperator]),
  define ctorInitializer (seq [":", memInitializerList]),
  define memInitializerList
    (seq [memInitializer, opt ["..."], many [",", memInitializer, opt ["..."]]]),
  define memInitializer (first [
    seq [memInitializerId, "(", opt [expressionList], ")"],
    seq [memInitializerId, bracedInitList]]),
  define memInitializerId (first [classOrDecltype, identifier])]

/-! ## Operators -/

/-- Allocation, and the symbols up to the call and the subscript. -/
def overloadableHead : List Expr := [
  seq [kNew, "[", "]"],
  seq [kDelete, "[", "]"],
  kNew, kDelete, "+", "-", "!", "=", "^=", "&=", "<=", ">=",
  seq ["(", ")"],
  seq ["[", "]"]]

/-- The other symbols that can be overloaded. -/
def overloadableSymbols : List String := [
  "*", "<", "|=", "&&", "/", ">", "<<", "||", "%", "+=", ">>", "++", "^", "-=", ">>=", "--",
  "&", "*=", "<<=", ",", "|", "/=", "==", "->*", "~", "%=", "!=", "->"]

/-- The operators that can be overloaded, in the order in which they are tried. -/
def overloadable : List Expr :=
  overloadableHead ++ overloadableSymbols.map fun symbol => .token (.text symbol)

/-- Names of operators. -/
def operatorNames : List GrammarStep := [
  define operatorFunctionId (seq [kOperator, overloadableOperator]),
  define overloadableOperator (first overloadable),
  define literalOperatorId (seq [kOperator, "\"\"", identifier])]

end PackratCpp.Rules
