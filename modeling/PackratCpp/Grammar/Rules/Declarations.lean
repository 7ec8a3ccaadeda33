/-
  Declarations and the specifiers that start them.

  * `declarations`: the kinds of declaration, apart from `recoveredDeclaration`, which
    belongs to the top level.
  * `specifiers`: the specifier sequences.  Each stops before the declarator, so that
    `T x;` does not take `x` for a type.
  * `types`: the names and words of types.
  * `enumerations`: `enum`.
-/
import PackratCpp.Grammar.Phrase

namespace PackratCpp.Rules

open Rule Keyword
open TokenKind (identifier string number character eof)

/-! ## Declarations -/

/-- Kinds of declaration. -/
def declarations (ext : Extensions) : List GrammarStep := [
  define declarationSeq (many1 [declaration]),
  define declaration (first [
    blockDeclaration,
    functionDefinition,
    templateDeclaration,
    gate ext.managed cliGenericDeclaration,
    explicitInstantiation,
    explicitSpecialization,
    linkageSpecification,
    namespaceDefinition,
    emptyDeclaration,
    attributeDeclaration,
    gate ext.attributedAtl vcAtlDeclaration]),
  define blockDeclaration (first [
    simpleDeclaration, asmDefinition, namespaceAliasDefinition, usingDeclaration, usingDirective,
    staticAssertDeclaration, aliasDeclaration, opaqueEnumDeclaration]),
  define aliasDeclaration (seq [kUsing, identifier, opt [attributeSpecifierSeq], "=", typeId]),
  define simpleDeclaration (seq [
    opt [gate ext.managed cliAttributes],
    opt [attributeSpecifierSeq],
    opt [simpleDeclSpecifierSeq],
    opt [initDeclaratorList],
    ";"]),
  define staticAssertDeclaration
    (seq [kStaticAssert, "(", constantExpression, ",", string, ")", ";"]),
  define emptyDeclaration ";",
  define attributeDeclaration (seq [attributeSpecifierSeq, ";"]),
  define declSpecifier (first [
    kFriend, kTypedef, kConstexpr, storageClassSpecifier, functionSpecifier, typeSpecifier])]

/-- Declarations that consist of an attribute block. -/
def attributedDeclarations : List GrammarStep := [
  define vcAtlDeclaration (seq [vcAtlAttribute, ";"])]

/-! ## Specifiers -/

/-- Sequences of specifiers. -/
def specifiers : List GrammarStep := [
  define conditionDeclSpecifierSeq (seq [
    many1 [notAhead [declarator, first ["=", lbrace]], declSpecifier],
    opt [attributeSpecifierSeq]]),
  define forRangeDeclSpecifierSeq (many1 [
    notAhead [opt [declarator], first [":", "in"]],
    declSpecifier,
    opt [attributeSpecifierSeq]]),
  define parameterDeclSpecifierSeq (seq [
    many [notAhead [opt [declarator], first ["=", ")", ","]], declSpecifier, opt ["..."]],
    opt [attributeSpecifierSeq]]),
  define functionDeclSpecifierSeq (many1 [
    notAhead [declarator, opt [virtSpecifierSeq], functionBody],
    declSpecifier,
    opt [attributeSpecifierSeq]]),
  define simpleDeclSpecifierSeq (many1 [
    notAhead [opt [initDeclaratorList], ";"],
    declSpecifier,
    opt [attributeSpecifierSeq]]),
  define memberDeclSpecifierSeq (seq [
    many1 [notAhead [opt [memberDeclaratorList], emptyStatement], declSpecifier],
    opt [attributeSpecifierSeq]]),
  define storageClassSpecifier (first [kRegister, kStatic, kThreadLocal, kExtern, kMutable]),
  define functionSpecifier (first [kInline, kVirtual, kExplicit])]

/-! ## Types -/

/-- Attribute sections of C++/CLI before a class or enumeration key. -/
def cliAttributesBefore (ext : Extensions) : Expr :=
  opt [gate ext.managed cliAttributes]

/-- Type specifiers. -/
def types (ext : Extensions) : List GrammarStep := [
  define typedefName identifier,
  define typeSpecifier (first [classSpecifier, enumSpecifier, trailingTypeSpecifier]),
  define typeSpecifierSeq (seq [many1 [typeSpecifier], opt [attributeSpecifierSeq]]),
  define trailingTypeSpecifier (first [
    simpleTypeSpecifier,
    elaboratedTypeSpecifier,
    typenameSpecifier,
    cvQualifier,
    gate ext.managed cliDelegateSpecifier]),
  define trailingTypeSpecifierSeq
    (seq [many1 [trailingTypeSpecifier], opt [attributeSpecifierSeq]]),
  define simpleTypeSpecifier (first [
    kChar,
    kChar16T,
    kChar32T,
    kWcharT,
    kBool,
    kShort,
    kInt,
    kLong,
    kSigned,
    kUnsigned,
    kFloat,
    kDouble,
    kVoid,
    kAuto,
    decltypeSpecifier,
    seq [opt ["::"], opt [nestedNameSpecifier], typeName],
    seq [opt ["::"], opt [nestedNameSpecifier], kTemplate, simpleTemplateId]]),
  define typeName (first [className, enumName, typedefName, simpleTemplateId]),
  -- The `typeof` of GNU is read by this rule too, so types are accepted as well.
  define decltypeSpecifier (seq [kDecltype, "(", first [expression, typeSpecifierSeq], ")"]),
  -- The lone `::` is for `friend class ::A`.
  define elaboratedTypeSpecifier (first [
    seq [
      cliAttributesBefore ext,
      classKey,
      opt [nestedNameSpecifier],
      opt [kTemplate],
      simpleTemplateId],
    seq [
      cliAttributesBefore ext,
      classKey,
      opt [attributeSpecifierSeq],
      opt [first [nestedNameSpecifier, "::"]],
      identifier],
    seq [cliAttributesBefore ext, enumKey, opt [nestedNameSpecifier], identifier]])]

/-! ## Enumerations -/

/-- Enumerations. -/
def enumerations (ext : Extensions) : List GrammarStep := [
  define enumName identifier,
  define enumSpecifier (first [
    seq [enumHead, lbrace, opt [enumeratorList], rbrace],
    seq [enumHead, lbrace, enumeratorList, ",", rbrace]]),
  define enumHead (seq [
    opt [gate ext.attributedAtl vcAtlAttribute],
    opt [gate ext.managed cliTopLevelVisibility],
    enumKey,
    opt [attributeSpecifierSeq],
    first [seq [nestedNameSpecifier, identifier], opt [identifier]],
    opt [enumBase]]),
  define opaqueEnumDeclaration
    (seq [enumKey, opt [attributeSpecifierSeq], identifier, opt [enumBase], ";"]),
  define enumKey (seq [kEnum, opt [first [kClass, kStruct]]]),
  define enumBase (seq [":", typeSpecifierSeq]),
  define enumeratorList (seq [enumeratorDefinition, many [",", enumeratorDefinition]]),
  define enumeratorDefinition (seq [enumerator, opt ["=", constantExpression]]),
  define enumerator identifier]

end PackratCpp.Rules
