/-
  Namespaces, `using`, `asm` and linkage specifications.
-/
import PackratCpp.Grammar.Phrase

namespace PackratCpp.Rules

open Rule Keyword
open TokenKind (identifier string number character eof)

/-- Namespaces, `using`, `asm` and linkage specifications. -/
def namespaces (ext : Extensions) : List GrammarStep := [
  define namespaceName (first [originalNamespaceName, namespaceAlias]),
  define originalNamespaceName identifier,
  define namespaceDefinition (first [namedNamespaceDefinition, unnamedNamespaceDefinition]),
  define namedNamespaceDefinition
    (first [originalNamespaceDefinition, extensionNamespaceDefinition]),
  define originalNamespaceDefinition
    (seq [opt [kInline], kNamespace, identifier, namespaceBlock]),
  define extensionNamespaceDefinition
    (seq [opt [kInline], kNamespace, originalNamespaceName, namespaceBlock]),
  define unnamedNamespaceDefinition (seq [opt [kInline], kNamespace, namespaceBlock]),
  define namespaceBlock (seq [lbrace, opt [declarationSeq], rbrace]),
  define namespaceAlias identifier,
  define namespaceAliasDefinition
    (seq [kNamespace, identifier, "=", qualifiedNamespaceSpecifier, ";"]),
  define qualifiedNamespaceSpecifier (seq [opt [nestedNameSpecifier], namespaceName]),
  define usingDeclaration (first [
    seq [kUsing, opt [kTypename], nestedNameSpecifier, unqualifiedId, ";"],
    seq [kUsing, "::", unqualifiedId, ";"]]),
  define usingDirective (seq [
    opt [attributeSpecifier],
    kUsing,
    kNamespace,
    opt ["::"],
    opt [nestedNameSpecifier],
    namespaceName,
    ";"]),
  -- The second and third alternatives are the instruction list and the single instruction of
  -- Visual C++; the last one has operands and clobbers.
  define asmDefinition (first [
    seq [kAsm, "(", string, ")", ";"],
    seq [kAsm, lbrace, many1 [notAhead [first [rbrace, eof]], .anyToken], rbrace, opt [";"]],
    seq [kAsm, many1 [notAhead [first [";", eof]], .anyToken], ";"],
    gate ext.gnu (seq [
      kAsm,
      opt [kVolatile],
      "(",
      many [first [string, ":", ",", seq ["[", identifier, "]"], seq ["(", expression, ")"]]],
      ")",
      ";"])]),
  define linkageSpecification
    (seq [kExtern, string, first [seq [lbrace, opt [declarationSeq], rbrace], declaration]])]

end PackratCpp.Rules
