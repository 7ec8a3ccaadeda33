/-
  C++/CLI: visibilities, delegates, modifiers, properties, events, generics and attribute
  sections.

  The rules are there in every dialect; where C++/CLI is off, no other rule mentions them.
-/
import PackratCpp.Grammar.Phrase

namespace PackratCpp.Rules

open Rule Keyword
open TokenKind (identifier string number character eof)

/-! ## Modifiers -/

/-- Visibility, `finally` and function modifiers. -/
def managedModifiers : List GrammarStep := [
  define cliTopLevelVisibility (first [kPublic, kPrivate]),
  define cliFinallyClause (seq ["finally", compoundStatement]),
  define cliFunctionModifiers (many1 [cliFunctionModifier]),
  define cliFunctionModifier (first ["abstract", kNew, "sealed", kOverride])]

/-! ## Events -/

/-- Events. -/
def events : List GrammarStep := [
  define cliEventDefinition (seq [
    opt [cliAttributes],
    opt [cliEventModifiers],
    "event",
    cliEventType,
    identifier,
    first [emptyStatement, seq [lbrace, cliAccessorSpecification, rbrace]]]),
  define cliEventModifiers (many1 [first [kVirtual, kStatic]]),
  define cliPropertyOrEventName (first [identifier, kDefault]),
  define cliEventType (first [
    seq [opt ["::"], opt [nestedNameSpecifier], typeName, opt ["^"]],
    seq [opt ["::"], opt [nestedNameSpecifier], kTemplate, templateId, "^"]]),
  define cliParameterArray (seq [opt [«attribute»], "...", parameterDeclaration])]

/-! ## Properties -/

/-- Properties. -/
def properties : List GrammarStep := [
  define cliPropertyDefinition (seq [
    opt [cliAttributes],
    opt [cliPropertyModifiers],
    "property",
    first [
      cliPropertyDeclSpecifierSeq,
      seq [opt [nestedNameSpecifier], opt [cliPropertyOrEventName]]],
    declarator,
    first [emptyStatement, cliPropertyBody]]),
  define cliPropertyDeclSpecifierSeq
    (many1 [notAhead [declarator, opt [cliPropertyBody], opt [";"]], typeSpecifier]),
  define cliPropertyBody
    (seq [opt [cliPropertyIndexes], lbrace, cliAccessorSpecification, rbrace]),
  define cliPropertyModifiers (many1 [first [kVirtual, kStatic]]),
  define cliPropertyIndexes (seq ["[", cliPropertyIndexParameterList, "]"]),
  define cliPropertyIndexParameterList (seq [typeId, many [",", typeId]]),
  define cliAccessorSpecification (many [opt [accessSpecifier, ":"], cliAccessorDeclaration]),
  define cliAccessorDeclaration (first [
    functionDefinition,
    seq [opt [«attribute»], opt [simpleDeclSpecifierSeq], opt [memberDeclaratorList], ";"]])]

/-! ## Delegates and generics -/

/-- Delegates and generics. -/
def generics : List GrammarStep := [
  define cliDelegateSpecifier (seq [
    opt [cliAttributes],
    opt [cliTopLevelVisibility],
    "delegate",
    cliDelegateDeclSpecifierSeq,
    declarator,
    emptyStatement]),
  define cliDelegateDeclSpecifierSeq
    (many1 [notAhead [opt [declarator], emptyStatement], declSpecifier]),
  define cliGenericDeclaration (seq [
    "generic",
    "<",
    cliGenericParameterList,
    ">",
    opt [cliConstraintClauseList],
    declaration]),
  define cliGenericParameterList (seq [cliGenericParameter, many [",", cliGenericParameter]]),
  define cliConstraintClauseList (seq [cliConstraintClause, many [cliConstraintClause]]),
  define cliConstraintItemList (seq [cliConstraintItem, many [",", cliConstraintItem]]),
  define cliGenericParameter (seq [opt [«attribute»], first [kClass, kTypename], identifier]),
  define cliGenericId (seq [cliGenericName, "<", cliGenericArgumentList, ">"]),
  define cliGenericName (first [identifier, operatorFunctionId]),
  define cliGenericArgumentList (seq [cliGenericArgument, many [",", cliGenericArgument]]),
  define cliGenericArgument typeId,
  define cliConstraintClause (seq ["where", identifier, ":", cliConstraintItemList]),
  define cliConstraintItem
    (first [typeId, seq [first ["ref", "value"], first [kClass, kStruct]], kGcnew])]

/-! ## Attribute sections -/

/-- Attribute sections. -/
def attributeSections : List GrammarStep := [
  define cliAttributes (many1 [cliAttributeSection]),
  define cliAttributeSection
    (seq ["[", opt [cliAttributeTargetSpecifier], cliAttributeList, "]"]),
  define cliAttributeTargetSpecifier (seq [cliAttributeTarget, ":"]),
  define cliAttributeTarget (first [
    "assembly", kClass, "constructor", "delegate", kEnum, "event", "field", "interface", "method",
    "parameter", "property", "returnvalue", kStruct]),
  define cliAttributeList (seq [cliAttribute, many [",", cliAttribute]]),
  define cliAttribute (seq [typeName, opt [cliAttributeArguments]]),
  -- An absent list of positions matches too, so `name = value` is read as an assignment.
  define cliAttributeArguments (seq [
    "(",
    first [
      opt [cliPositionArgumentList],
      seq [cliPositionArgumentList, ",", cliNamedArgumentList],
      cliNamedArgumentList],
    ")"]),
  define cliPositionArgumentList (seq [cliPositionArgument, many [",", cliPositionArgument]]),
  define cliNamedArgumentList (seq [cliNamedArgument, many [",", cliNamedArgument]]),
  define cliPositionArgument cliAttributeArgumentExpression,
  define cliNamedArgument (seq [identifier, "=", cliAttributeArgumentExpression]),
  define cliAttributeArgumentExpression assignmentExpression]

end PackratCpp.Rules
