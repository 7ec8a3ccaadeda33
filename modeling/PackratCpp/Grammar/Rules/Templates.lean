/-
  Templates.

  `>>` is a single token, so a list of template arguments that it closes cannot end with
  `>`.  Every rule that can close such a list has a twin, named `inner…`, that stops right
  before the `>>`; the rule around it then takes the token.
-/
import PackratCpp.Grammar.Phrase

namespace PackratCpp.Rules

open Rule Keyword
open TokenKind (identifier string number character eof)

/-! ## Parameters -/

/-- Templates and their parameters. -/
def templateParameters : List GrammarStep := [
  define templateDeclaration (seq [kTemplate, templateParameterListEnclosed, declaration]),
  define templateParameterList (seq [templateParameter, many [",", templateParameter]]),
  define templateParameterListEnclosed (first [
    seq ["<", templateParameterList, ">"],
    seq ["<", many [templateParameter, ","], innerTypeParameter, ">>"]]),
  -- `typename` may stand before a parameter whose type depends on another argument.
  define templateParameter (first [
    seq [typeParameter, ahead [first [",", ">"]]],
    seq [opt [kTypename], parameterDeclaration]]),
  define typeParameter (first [
    seq [kClass, opt [identifier], "=", typeId],
    seq [kClass, opt ["..."], opt [identifier]],
    seq [kTypename, opt [identifier], "=", typeId],
    seq [kTypename, opt ["..."], opt [identifier]],
    seq [kTemplate, templateParameterListEnclosed, kClass, opt [identifier], "=", idExpression],
    seq [kTemplate, templateParameterListEnclosed, kClass, opt ["..."], opt [identifier]]]),
  define innerTypeParameter (first [
    seq [kClass, opt [identifier], "=", innerTypeId],
    seq [kTypename, opt [identifier], "=", innerTypeId],
    seq [kTemplate, templateParameterListEnclosed, kClass, opt [identifier], "=", innerTypeId]])]

/-! ## Arguments -/

/-- Template names with arguments. -/
def templateIds (ext : Extensions) : List GrammarStep := [
  define simpleTemplateId (first [
    seq [templateName, "<", opt [templateArgumentList], ">"],
    seq [templateName, "<", innerTemplateId, ">>"]]),
  define templateId (first [
    simpleTemplateId,
    seq [operatorFunctionId, "<", opt [templateArgumentList], ">"],
    seq [literalOperatorId, "<", opt [templateArgumentList], ">"],
    seq [operatorFunctionId, "<", innerTemplateId, ">>"],
    seq [literalOperatorId, "<", innerTemplateId, ">>"]]),
  define templateName identifier,
  define templateArgumentList
    (seq [templateArgument, opt ["..."], many [",", templateArgument, opt ["..."]]]),
  -- Shift expressions come before constant expressions, which would read `carray<int, 10>` as a
  -- comparison.
  define templateArgument (first [
    seq [typeId, ahead [first [">", ",", "..."]]],
    seq [typenameSpecifier, ahead [first [">", ",", "..."]]],
    seq [shiftExpression, ahead [first [">", ","]]],
    seq [constantExpression, ahead [first [">", ","]]]]),
  define innerSimpleTemplateId (seq [templateName, "<", innerTemplateArgumentList]),
  -- Only the type specifiers that can end with a template-id.
  define innerTrailingTypeSpecifier (first [
    seq [opt ["::"], opt [nestedNameSpecifier], innerSimpleTemplateId],
    seq [opt ["::"], opt [nestedNameSpecifier], kTemplate, innerSimpleTemplateId],
    seq [
      opt [gate ext.managed cliAttributes],
      classKey,
      opt [nestedNameSpecifier],
      opt [kTemplate],
      innerSimpleTemplateId],
    seq [kTypename, nestedNameSpecifier, kTemplate, innerSimpleTemplateId]]),
  define innerTypeId (first [
    innerTrailingTypeSpecifier,
    seq [many1 [typeSpecifier], innerTrailingTypeSpecifier],
    seq [
      typeSpecifierSeq,
      opt [noptrAbstractDeclarator],
      parametersAndQualifiers,
      "->",
      innerTrailingTypeSpecifier]]),
  define innerTemplateId
    (seq [many [notAhead [innerTypeId, ">>"], templateArgument, opt ["..."], ","], innerTypeId]),
  define innerTemplateArgumentList
    (seq [innerTemplateArgument, opt ["..."], many [",", innerTemplateArgument, opt ["..."]]]),
  define innerTemplateArgument (first [
    seq [typeId, ahead [first [">>", ",", "..."]]],
    seq [typenameSpecifier, ahead [first [">>", ",", "..."]]],
    seq [additiveExpression, ahead [first [">>", ","]]],
    seq [constantExpression, ahead [first [">>", ","]]]])]

/-! ## Instantiations -/

/-- Dependent types, instantiations and specializations. -/
def templateForms : List GrammarStep := [
  define typenameSpecifier (seq [
    kTypename,
    nestedNameSpecifier,
    first [seq [opt [kTemplate], simpleTemplateId], identifier]]),
  define explicitInstantiation (seq [opt [kExtern], kTemplate, declaration]),
  define explicitSpecialization (seq [kTemplate, "<", ">", declaration])]

end PackratCpp.Rules
