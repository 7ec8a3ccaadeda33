/-
  Attributes.

  The arguments of an attribute are any tokens with matching brackets
  (`balancedTokenSeq`).
-/
import PackratCpp.Grammar.Phrase

namespace PackratCpp.Rules

open Rule Keyword
open TokenKind (identifier string number character eof)

/-- Attributes. -/
def attributes (ext : Extensions) : List GrammarStep := [
  define attributeSpecifierSeq (many1 [attributeSpecifier]),
  define attributeSpecifier (first [
    seq ["[", "[", attributeList, "]", "]"],
    gate ext.gnu (seq [kAsm, "(", string, ")"]),
    gate ext.managed cliAttributes,
    alignmentSpecifier]),
  define alignmentSpecifier (first [
    seq [kAlignas, "(", typeId, opt ["..."], ")"],
    seq [kAlignas, "(", assignmentExpression, opt ["..."], ")"]]),
  define attributeList (seq [opt [«attribute»], many [",", «attribute»]]),
  define «attribute» (seq [attributeToken, opt [attributeArgumentClause]]),
  define attributeToken (first [identifier, attributeScopedToken]),
  define attributeScopedToken (seq [attributeNamespace, "::", identifier]),
  define attributeNamespace identifier,
  define attributeArgumentClause balancedTokenSeq,
  define balancedTokenSeq (many [balancedToken]),
  define balancedToken (first [
    seq ["(", balancedTokenSeq, ")"],
    seq [lbrace, balancedTokenSeq, rbrace],
    seq ["[", balancedTokenSeq, "]"],
    many1 [notAhead [first ["(", ")", lbrace, rbrace, "[", "]", eof]], .anyToken]]),
  define vcAtlAttribute (seq ["[", many1 [seq [notAhead ["]"], .anyToken]], "]"])]

end PackratCpp.Rules
