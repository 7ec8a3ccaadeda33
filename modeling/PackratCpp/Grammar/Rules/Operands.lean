/-
  The operands of operators: primary, postfix and unary expressions.

  * `names`: names and the qualifiers before them.
  * `lambdas`: closures.
  * `postfixes`: calls, subscripts, member accesses and casts by name.
  * `unary`: operators in front, `new`, `delete` and `noexcept`.
-/
import PackratCpp.Grammar.Phrase

namespace PackratCpp.Rules

open Rule Keyword
open TokenKind (identifier string number character eof)

/-! ## Names -/

/-- Primary expressions and names. -/
def names (ext : Extensions) : List GrammarStep := [
  collapsing primaryExpression (first [
    literal,
    kThis,
    parExpression,
    idExpression,
    lambdaExpression,
    gate ext.gnu (seq ["(", compoundStatement, ")"])]),
  define idExpression (first [qualifiedId, unqualifiedId]),
  -- A template-id counts only before something that cannot go on with a comparison, so that
  -- `a < b > c` stays two comparisons.
  define unqualifiedId (first [
    seq [templateId, ahead [first ["(", ")", "[", "]", "?", ":", binaryOperator, ",", ";", eof]]],
    identifier,
    operatorFunctionId,
    conversionFunctionId,
    literalOperatorId,
    seq ["~", className],
    seq ["~", decltypeSpecifier],
    seq ["!", className],
    gate ext.managed cliGenericId,
    kDefault]),
  define qualifiedId (first [
    seq [nestedNameSpecifier, opt [kTemplate], unqualifiedId],
    seq ["::", identifier],
    seq ["::", operatorFunctionId],
    seq ["::", literalOperatorId],
    seq ["::", templateId, ahead [first [overloadableOperator, ";"]]]]),
  define nestedNameSpecifier (seq [
    first [
      seq [opt ["::"], typeName, "::"],
      seq [opt ["::"], namespaceName, "::"],
      seq [decltypeSpecifier, "::"]],
    many [first [seq [identifier, "::"], seq [opt [kTemplate], simpleTemplateId, "::"]]]])]

/-! ## Closures -/

/-- Lambda expressions. -/
def lambdas : List GrammarStep := [
  define lambdaExpression (seq [lambdaIntroducer, opt [lambdaDeclarator], compoundStatement]),
  define lambdaIntroducer (seq ["[", opt [lambdaCapture], "]"]),
  define lambdaCapture
    (first [seq [captureDefault, ",", captureList], captureList, captureDefault]),
  define captureDefault (first ["&", "="]),
  define captureList (seq [capture, opt ["..."], many [",", capture, opt ["..."]]]),
  define capture (first [expression, seq ["&", expression]]),
  define lambdaDeclarator (seq [
    "(",
    parameterDeclarationClause,
    ")",
    opt [kMutable],
    opt [exceptionSpecification],
    opt [attributeSpecifierSeq],
    opt [trailingReturnType]])]

/-! ## Postfix expressions -/

/-- Postfix expressions. -/
def postfixes : List GrammarStep := [
  collapsing postfixExpression (seq [
    first [
      seq [simpleTypeSpecifier, "(", opt [expressionList], ")"],
      seq [simpleTypeSpecifier, bracedInitList],
      seq [typenameSpecifier, "(", opt [expressionList], ")"],
      seq [typenameSpecifier, bracedInitList],
      primaryExpression,
      seq [kDynamicCast, typeIdEnclosed, "(", expression, ")"],
      seq [kStaticCast, typeIdEnclosed, "(", expression, ")"],
      seq [kReinterpretCast, typeIdEnclosed, "(", expression, ")"],
      seq [kConstCast, typeIdEnclosed, "(", expression, ")"],
      seq [kTypeid, "(", expression, ")"],
      seq [kTypeid, "(", typeId, ")"]],
    many [
      first [
        seq ["[", expression, "]"],
        seq ["(", opt [expressionList], ")"],
        seq [
          first [".", "->"],
          first [seq [opt [kTemplate], idExpression], pseudoDestructorName]],
        "++",
        "--"]]]),
  define expressionList initializerList,
  define pseudoDestructorName (first [
    seq [opt [nestedNameSpecifier], typeName, "::", "~", typeName],
    seq [nestedNameSpecifier, kTemplate, simpleTemplateId, "::", "~", typeName],
    seq [opt [nestedNameSpecifier], "~", typeName],
    seq ["~", decltypeSpecifier]])]

/-! ## Unary expressions -/

/-- The words that allocate. -/
def newKeyword : Expr :=
  first [kNew, kGcnew]

/-- Unary expressions, `new` and `delete`. -/
def unary : List GrammarStep := [
  collapsing unaryExpression (first [
    seq [unaryOperator, castExpression],
    postfixExpression,
    seq ["++", castExpression],
    seq ["--", castExpression],
    seq [kSizeof, unaryExpression],
    seq [kSizeof, "(", typeId, ")"],
    seq [kSizeof, "...", "(", identifier, ")"],
    seq [kAlignof, "(", typeId, ")"],
    noexceptExpression,
    newExpression,
    deleteExpression]),
  define unaryOperator (first ["*", "&", "+", "-", "!", "~"]),
  define binaryOperator (first [
    "||", "&&", "&", "|", "^", "==", "!=", "<=", "<", ">=", ">", "<<", ">>", "*", "/", "+", "-",
    assignmentOperator]),
  define newExpression (first [
    seq [opt ["::"], newKeyword, opt [newPlacement], newTypeId, opt [newInitializer]],
    seq [opt ["::"], newKeyword, newPlacement, "(", typeId, ")", opt [newInitializer]],
    seq [opt ["::"], newKeyword, "(", typeId, ")", opt [newInitializer]]]),
  define newPlacement (seq ["(", expressionList, ")"]),
  define newTypeId (seq [typeSpecifierSeq, opt [newDeclarator]]),
  define newDeclarator (first [noptrNewDeclarator, seq [ptrOperator, opt [newDeclarator]]]),
  define noptrNewDeclarator (seq [
    "[",
    expression,
    "]",
    opt [attributeSpecifierSeq],
    many ["[", constantExpression, "]", opt [attributeSpecifierSeq]]]),
  define newInitializer (first [seq ["(", opt [expressionList], ")"], bracedInitList]),
  define deleteExpression (seq [opt ["::"], kDelete, opt ["[", "]"], castExpression]),
  define noexceptExpression (seq [kNoexcept, "(", expression, ")"])]

end PackratCpp.Rules
