/-
  The rule registry: one identifier for each rule of the grammar.

  * `Rule`: the identifiers.  They are shared by the grammar, the parser and the trees.
  * `Rule.all`, `Rule.index`: the registry order; `all_getElem?_index` ties the two.
  * `Rule.name`, `Rule.ofName?`: the lower-case name and the way back (`ofName?_name`);
    `Rule.capitalName` is the same name with a capital, as the concrete tree shows it.
-/

namespace PackratCpp

set_option maxRecDepth 4000

/-- A rule of the grammar. -/
inductive Rule where
  -- Literals
  | booleanLiteral
  | pointerLiteral
  | literal
  -- Top level
  | translationUnit
  -- Expressions
  | primaryExpression
  | idExpression
  | unqualifiedId
  | qualifiedId
  | nestedNameSpecifier
  | lambdaExpression
  | lambdaIntroducer
  | lambdaCapture
  | captureDefault
  | captureList
  | capture
  | lambdaDeclarator
  | postfixExpression
  | expressionList
  | pseudoDestructorName
  | unaryExpression
  | unaryOperator
  | binaryOperator
  | newExpression
  | newPlacement
  | newTypeId
  | newDeclarator
  | noptrNewDeclarator
  | newInitializer
  | deleteExpression
  | noexceptExpression
  | castExpression
  | pmExpression
  | multiplicativeExpression
  | additiveExpression
  | shiftExpression
  | relationalExpression
  | equalityExpression
  | andExpression
  | exclusiveOrExpression
  | inclusiveOrExpression
  | logicalAndExpression
  | logicalOrExpression
  | conditionalExpression
  | assignmentExpression
  | assignmentOperator
  | parExpression
  | expression
  | constantExpression
  -- Statements
  | statement
  | emptyStatement
  | labeledStatement
  | expressionStatement
  | compoundStatement
  | statementSeq
  | condition
  | ifStatement
  | switchStatement
  | switchBlockStatementGroups
  | switchBlockStatementGroup
  | switchLabelStatement
  | iterationStatement
  | forInitStatement
  | forRangeDeclaration
  | forRangeInitializer
  | jumpStatement
  | declarationStatement
  -- Declarations
  | declarationSeq
  | declaration
  | blockDeclaration
  | aliasDeclaration
  | simpleDeclaration
  | staticAssertDeclaration
  | emptyDeclaration
  | attributeDeclaration
  | declSpecifier
  | recoveredDeclaration
  | vcAtlDeclaration
  | conditionDeclSpecifierSeq
  | forRangeDeclSpecifierSeq
  | parameterDeclSpecifierSeq
  | functionDeclSpecifierSeq
  | simpleDeclSpecifierSeq
  | memberDeclSpecifierSeq
  | storageClassSpecifier
  | functionSpecifier
  | typedefName
  | typeSpecifier
  | typeSpecifierSeq
  | trailingTypeSpecifier
  | trailingTypeSpecifierSeq
  | simpleTypeSpecifier
  | typeName
  | decltypeSpecifier
  | elaboratedTypeSpecifier
  | enumName
  | enumSpecifier
  | enumHead
  | opaqueEnumDeclaration
  | enumKey
  | enumBase
  | enumeratorList
  | enumeratorDefinition
  | enumerator
  | namespaceName
  | originalNamespaceName
  | namespaceDefinition
  | namedNamespaceDefinition
  | originalNamespaceDefinition
  | extensionNamespaceDefinition
  | unnamedNamespaceDefinition
  | namespaceBlock
  | namespaceAlias
  | namespaceAliasDefinition
  | qualifiedNamespaceSpecifier
  | usingDeclaration
  | usingDirective
  | asmDefinition
  | linkageSpecification
  | attributeSpecifierSeq
  | attributeSpecifier
  | alignmentSpecifier
  | attributeList
  | «attribute»
  | attributeToken
  | attributeScopedToken
  | attributeNamespace
  | attributeArgumentClause
  | balancedTokenSeq
  | balancedToken
  | vcAtlAttribute
  -- Declarators
  | initDeclaratorList
  | initDeclarator
  | declarator
  | ptrDeclarator
  | noptrDeclarator
  | parametersAndQualifiers
  | trailingReturnType
  | ptrOperator
  | cvQualifierSeq
  | cvQualifier
  | refQualifier
  | declaratorId
  | typeId
  | typeIdEnclosed
  | abstractDeclarator
  | ptrAbstractDeclarator
  | noptrAbstractDeclarator
  | abstractPackDeclarator
  | noptrAbstractPackDeclarator
  | parameterDeclarationClause
  | parameterDeclarationList
  | parameterDeclaration
  | functionDefinition
  | functionBody
  | initializer
  | braceOrEqualInitializer
  | initializerClause
  | initializerList
  | bracedInitList
  -- Classes
  | className
  | classSpecifier
  | classHead
  | classHeadName
  | classVirtSpecifier
  | classKey
  | memberSpecification
  | memberDeclaration
  | memberDeclaratorList
  | memberDeclarator
  | virtSpecifierSeq
  | virtSpecifier
  | pureSpecifier
  -- C++/CLI classes, properties, events, delegates, generics and attributes
  | cliTopLevelVisibility
  | cliFinallyClause
  | cliFunctionModifiers
  | cliFunctionModifier
  | cliEventDefinition
  | cliEventModifiers
  | cliPropertyOrEventName
  | cliEventType
  | cliParameterArray
  | cliPropertyDefinition
  | cliPropertyDeclSpecifierSeq
  | cliPropertyBody
  | cliPropertyModifiers
  | cliPropertyIndexes
  | cliPropertyIndexParameterList
  | cliAccessorSpecification
  | cliAccessorDeclaration
  | cliDelegateSpecifier
  | cliDelegateDeclSpecifierSeq
  | cliGenericDeclaration
  | cliGenericParameterList
  | cliConstraintClauseList
  | cliConstraintItemList
  | cliGenericParameter
  | cliGenericId
  | cliGenericName
  | cliGenericArgumentList
  | cliGenericArgument
  | cliConstraintClause
  | cliConstraintItem
  | cliAttributes
  | cliAttributeSection
  | cliAttributeTargetSpecifier
  | cliAttributeTarget
  | cliAttributeList
  | cliAttribute
  | cliAttributeArguments
  | cliPositionArgumentList
  | cliNamedArgumentList
  | cliPositionArgument
  | cliNamedArgument
  | cliAttributeArgumentExpression
  -- Derived classes, special members, overloading
  | baseClause
  | baseSpecifierList
  | baseSpecifier
  | classOrDecltype
  | baseTypeSpecifier
  | accessSpecifier
  | conversionFunctionId
  | conversionTypeId
  | conversionDeclarator
  | ctorInitializer
  | memInitializerList
  | memInitializer
  | memInitializerId
  | operatorFunctionId
  | overloadableOperator
  | literalOperatorId
  -- Templates
  | templateDeclaration
  | templateParameterList
  | templateParameterListEnclosed
  | templateParameter
  | typeParameter
  | innerTypeParameter
  | simpleTemplateId
  | templateId
  | templateName
  | templateArgumentList
  | templateArgument
  | innerSimpleTemplateId
  | innerTrailingTypeSpecifier
  | innerTypeId
  | innerTemplateId
  | innerTemplateArgumentList
  | innerTemplateArgument
  | typenameSpecifier
  | explicitInstantiation
  | explicitSpecialization
  -- Exception handling
  | tryBlock
  | functionTryBlock
  | handlerSeq
  | handler
  | exceptionDeclaration
  | throwExpression
  | exceptionSpecification
  | dynamicExceptionSpecification
  | typeIdList
  | noexceptSpecification
  deriving DecidableEq, Inhabited

namespace Rule

/-- Every rule, in registry order. -/
def all : List Rule :=
  [.booleanLiteral, .pointerLiteral, .literal, .translationUnit, .primaryExpression,
   .idExpression, .unqualifiedId, .qualifiedId, .nestedNameSpecifier, .lambdaExpression,
   .lambdaIntroducer, .lambdaCapture, .captureDefault, .captureList, .capture, .lambdaDeclarator,
   .postfixExpression, .expressionList, .pseudoDestructorName, .unaryExpression, .unaryOperator,
   .binaryOperator, .newExpression, .newPlacement, .newTypeId, .newDeclarator,
   .noptrNewDeclarator, .newInitializer, .deleteExpression, .noexceptExpression, .castExpression,
   .pmExpression, .multiplicativeExpression, .additiveExpression, .shiftExpression,
   .relationalExpression, .equalityExpression, .andExpression, .exclusiveOrExpression,
   .inclusiveOrExpression, .logicalAndExpression, .logicalOrExpression, .conditionalExpression,
   .assignmentExpression, .assignmentOperator, .parExpression, .expression, .constantExpression,
   .statement, .emptyStatement, .labeledStatement, .expressionStatement, .compoundStatement,
   .statementSeq, .condition, .ifStatement, .switchStatement, .switchBlockStatementGroups,
   .switchBlockStatementGroup, .switchLabelStatement, .iterationStatement, .forInitStatement,
   .forRangeDeclaration, .forRangeInitializer, .jumpStatement, .declarationStatement,
   .declarationSeq, .declaration, .blockDeclaration, .aliasDeclaration, .simpleDeclaration,
   .staticAssertDeclaration, .emptyDeclaration, .attributeDeclaration, .declSpecifier,
   .recoveredDeclaration, .vcAtlDeclaration, .conditionDeclSpecifierSeq,
   .forRangeDeclSpecifierSeq, .parameterDeclSpecifierSeq, .functionDeclSpecifierSeq,
   .simpleDeclSpecifierSeq, .memberDeclSpecifierSeq, .storageClassSpecifier, .functionSpecifier,
   .typedefName, .typeSpecifier, .typeSpecifierSeq, .trailingTypeSpecifier,
   .trailingTypeSpecifierSeq, .simpleTypeSpecifier, .typeName, .decltypeSpecifier,
   .elaboratedTypeSpecifier, .enumName, .enumSpecifier, .enumHead, .opaqueEnumDeclaration,
   .enumKey, .enumBase, .enumeratorList, .enumeratorDefinition, .enumerator, .namespaceName,
   .originalNamespaceName, .namespaceDefinition, .namedNamespaceDefinition,
   .originalNamespaceDefinition, .extensionNamespaceDefinition, .unnamedNamespaceDefinition,
   .namespaceBlock, .namespaceAlias, .namespaceAliasDefinition, .qualifiedNamespaceSpecifier,
   .usingDeclaration, .usingDirective, .asmDefinition, .linkageSpecification,
   .attributeSpecifierSeq, .attributeSpecifier, .alignmentSpecifier, .attributeList,
   .«attribute», .attributeToken, .attributeScopedToken, .attributeNamespace,
   .attributeArgumentClause, .balancedTokenSeq, .balancedToken, .vcAtlAttribute,
   .initDeclaratorList, .initDeclarator, .declarator, .ptrDeclarator, .noptrDeclarator,
   .parametersAndQualifiers, .trailingReturnType, .ptrOperator, .cvQualifierSeq, .cvQualifier,
   .refQualifier, .declaratorId, .typeId, .typeIdEnclosed, .abstractDeclarator,
   .ptrAbstractDeclarator, .noptrAbstractDeclarator, .abstractPackDeclarator,
   .noptrAbstractPackDeclarator, .parameterDeclarationClause, .parameterDeclarationList,
   .parameterDeclaration, .functionDefinition, .functionBody, .initializer,
   .braceOrEqualInitializer, .initializerClause, .initializerList, .bracedInitList, .className,
   .classSpecifier, .classHead, .classHeadName, .classVirtSpecifier, .classKey,
   .memberSpecification, .memberDeclaration, .memberDeclaratorList, .memberDeclarator,
   .virtSpecifierSeq, .virtSpecifier, .pureSpecifier, .cliTopLevelVisibility, .cliFinallyClause,
   .cliFunctionModifiers, .cliFunctionModifier, .cliEventDefinition, .cliEventModifiers,
   .cliPropertyOrEventName, .cliEventType, .cliParameterArray, .cliPropertyDefinition,
   .cliPropertyDeclSpecifierSeq, .cliPropertyBody, .cliPropertyModifiers, .cliPropertyIndexes,
   .cliPropertyIndexParameterList, .cliAccessorSpecification, .cliAccessorDeclaration,
   .cliDelegateSpecifier, .cliDelegateDeclSpecifierSeq, .cliGenericDeclaration,
   .cliGenericParameterList, .cliConstraintClauseList, .cliConstraintItemList,
   .cliGenericParameter, .cliGenericId, .cliGenericName, .cliGenericArgumentList,
   .cliGenericArgument, .cliConstraintClause, .cliConstraintItem, .cliAttributes,
   .cliAttributeSection, .cliAttributeTargetSpecifier, .cliAttributeTarget, .cliAttributeList,
   .cliAttribute, .cliAttributeArguments, .cliPositionArgumentList, .cliNamedArgumentList,
   .cliPositionArgument, .cliNamedArgument, .cliAttributeArgumentExpression, .baseClause,
   .baseSpecifierList, .baseSpecifier, .classOrDecltype, .baseTypeSpecifier, .accessSpecifier,
   .conversionFunctionId, .conversionTypeId, .conversionDeclarator, .ctorInitializer,
   .memInitializerList, .memInitializer, .memInitializerId, .operatorFunctionId,
   .overloadableOperator, .literalOperatorId, .templateDeclaration, .templateParameterList,
   .templateParameterListEnclosed, .templateParameter, .typeParameter, .innerTypeParameter,
   .simpleTemplateId, .templateId, .templateName, .templateArgumentList, .templateArgument,
   .innerSimpleTemplateId, .innerTrailingTypeSpecifier, .innerTypeId, .innerTemplateId,
   .innerTemplateArgumentList, .innerTemplateArgument, .typenameSpecifier,
   .explicitInstantiation, .explicitSpecialization, .tryBlock, .functionTryBlock, .handlerSeq,
   .handler, .exceptionDeclaration, .throwExpression, .exceptionSpecification,
   .dynamicExceptionSpecification, .typeIdList, .noexceptSpecification]

/-- Number of rules. -/
def count : Nat := 260

/-- The place of a rule in the registry. -/
def index (r : Rule) : Nat :=
  r.ctorIdx

/-- The name of a rule. -/
def name : Rule → String
  | .booleanLiteral => "booleanLiteral"
  | .pointerLiteral => "pointerLiteral"
  | .literal => "literal"
  | .translationUnit => "translationUnit"
  | .primaryExpression => "primaryExpression"
  | .idExpression => "idExpression"
  | .unqualifiedId => "unqualifiedId"
  | .qualifiedId => "qualifiedId"
  | .nestedNameSpecifier => "nestedNameSpecifier"
  | .lambdaExpression => "lambdaExpression"
  | .lambdaIntroducer => "lambdaIntroducer"
  | .lambdaCapture => "lambdaCapture"
  | .captureDefault => "captureDefault"
  | .captureList => "captureList"
  | .capture => "capture"
  | .lambdaDeclarator => "lambdaDeclarator"
  | .postfixExpression => "postfixExpression"
  | .expressionList => "expressionList"
  | .pseudoDestructorName => "pseudoDestructorName"
  | .unaryExpression => "unaryExpression"
  | .unaryOperator => "unaryOperator"
  | .binaryOperator => "binaryOperator"
  | .newExpression => "newExpression"
  | .newPlacement => "newPlacement"
  | .newTypeId => "newTypeId"
  | .newDeclarator => "newDeclarator"
  | .noptrNewDeclarator => "noptrNewDeclarator"
  | .newInitializer => "newInitializer"
  | .deleteExpression => "deleteExpression"
  | .noexceptExpression => "noexceptExpression"
  | .castExpression => "castExpression"
  | .pmExpression => "pmExpression"
  | .multiplicativeExpression => "multiplicativeExpression"
  | .additiveExpression => "additiveExpression"
  | .shiftExpression => "shiftExpression"
  | .relationalExpression => "relationalExpression"
  | .equalityExpression => "equalityExpression"
  | .andExpression => "andExpression"
  | .exclusiveOrExpression => "exclusiveOrExpression"
  | .inclusiveOrExpression => "inclusiveOrExpression"
  | .logicalAndExpression => "logicalAndExpression"
  | .logicalOrExpression => "logicalOrExpression"
  | .conditionalExpression => "conditionalExpression"
  | .assignmentExpression => "assignmentExpression"
  | .assignmentOperator => "assignmentOperator"
  | .parExpression => "parExpression"
  | .expression => "expression"
  | .constantExpression => "constantExpression"
  | .statement => "statement"
  | .emptyStatement => "emptyStatement"
  | .labeledStatement => "labeledStatement"
  | .expressionStatement => "expressionStatement"
  | .compoundStatement => "compoundStatement"
  | .statementSeq => "statementSeq"
  | .condition => "condition"
  | .ifStatement => "ifStatement"
  | .switchStatement => "switchStatement"
  | .switchBlockStatementGroups => "switchBlockStatementGroups"
  | .switchBlockStatementGroup => "switchBlockStatementGroup"
  | .switchLabelStatement => "switchLabelStatement"
  | .iterationStatement => "iterationStatement"
  | .forInitStatement => "forInitStatement"
  | .forRangeDeclaration => "forRangeDeclaration"
  | .forRangeInitializer => "forRangeInitializer"
  | .jumpStatement => "jumpStatement"
  | .declarationStatement => "declarationStatement"
  | .declarationSeq => "declarationSeq"
  | .declaration => "declaration"
  | .blockDeclaration => "blockDeclaration"
  | .aliasDeclaration => "aliasDeclaration"
  | .simpleDeclaration => "simpleDeclaration"
  | .staticAssertDeclaration => "staticAssertDeclaration"
  | .emptyDeclaration => "emptyDeclaration"
  | .attributeDeclaration => "attributeDeclaration"
  | .declSpecifier => "declSpecifier"
  | .recoveredDeclaration => "recoveredDeclaration"
  | .vcAtlDeclaration => "vcAtlDeclaration"
  | .conditionDeclSpecifierSeq => "conditionDeclSpecifierSeq"
  | .forRangeDeclSpecifierSeq => "forRangeDeclSpecifierSeq"
  | .parameterDeclSpecifierSeq => "parameterDeclSpecifierSeq"
  | .functionDeclSpecifierSeq => "functionDeclSpecifierSeq"
  | .simpleDeclSpecifierSeq => "simpleDeclSpecifierSeq"
  | .memberDeclSpecifierSeq => "memberDeclSpecifierSeq"
  | .storageClassSpecifier => "storageClassSpecifier"
  | .functionSpecifier => "functionSpecifier"
  | .typedefName => "typedefName"
  | .typeSpecifier => "typeSpecifier"
  | .typeSpecifierSeq => "typeSpecifierSeq"
  | .trailingTypeSpecifier => "trailingTypeSpecifier"
  | .trailingTypeSpecifierSeq => "trailingTypeSpecifierSeq"
  | .simpleTypeSpecifier => "simpleTypeSpecifier"
  | .typeName => "typeName"
  | .decltypeSpecifier => "decltypeSpecifier"
  | .elaboratedTypeSpecifier => "elaboratedTypeSpecifier"
  | .enumName => "enumName"
  | .enumSpecifier => "enumSpecifier"
  | .enumHead => "enumHead"
  | .opaqueEnumDeclaration => "opaqueEnumDeclaration"
  | .enumKey => "enumKey"
  | .enumBase => "enumBase"
  | .enumeratorList => "enumeratorList"
  | .enumeratorDefinition => "enumeratorDefinition"
  | .enumerator => "enumerator"
  | .namespaceName => "namespaceName"
  | .originalNamespaceName => "originalNamespaceName"
  | .namespaceDefinition => "namespaceDefinition"
  | .namedNamespaceDefinition => "namedNamespaceDefinition"
  | .originalNamespaceDefinition => "originalNamespaceDefinition"
  | .extensionNamespaceDefinition => "extensionNamespaceDefinition"
  | .unnamedNamespaceDefinition => "unnamedNamespaceDefinition"
  | .namespaceBlock => "namespaceBlock"
  | .namespaceAlias => "namespaceAlias"
  | .namespaceAliasDefinition => "namespaceAliasDefinition"
  | .qualifiedNamespaceSpecifier => "qualifiedNamespaceSpecifier"
  | .usingDeclaration => "usingDeclaration"
  | .usingDirective => "usingDirective"
  | .asmDefinition => "asmDefinition"
  | .linkageSpecification => "linkageSpecification"
  | .attributeSpecifierSeq => "attributeSpecifierSeq"
  | .attributeSpecifier => "attributeSpecifier"
  | .alignmentSpecifier => "alignmentSpecifier"
  | .attributeList => "attributeList"
  | .«attribute» => "attribute"
  | .attributeToken => "attributeToken"
  | .attributeScopedToken => "attributeScopedToken"
  | .attributeNamespace => "attributeNamespace"
  | .attributeArgumentClause => "attributeArgumentClause"
  | .balancedTokenSeq => "balancedTokenSeq"
  | .balancedToken => "balancedToken"
  | .vcAtlAttribute => "vcAtlAttribute"
  | .initDeclaratorList => "initDeclaratorList"
  | .initDeclarator => "initDeclarator"
  | .declarator => "declarator"
  | .ptrDeclarator => "ptrDeclarator"
  | .noptrDeclarator => "noptrDeclarator"
  | .parametersAndQualifiers => "parametersAndQualifiers"
  | .trailingReturnType => "trailingReturnType"
  | .ptrOperator => "ptrOperator"
  | .cvQualifierSeq => "cvQualifierSeq"
  | .cvQualifier => "cvQualifier"
  | .refQualifier => "refQualifier"
  | .declaratorId => "declaratorId"
  | .typeId => "typeId"
  | .typeIdEnclosed => "typeIdEnclosed"
  | .abstractDeclarator => "abstractDeclarator"
  | .ptrAbstractDeclarator => "ptrAbstractDeclarator"
  | .noptrAbstractDeclarator => "noptrAbstractDeclarator"
  | .abstractPackDeclarator => "abstractPackDeclarator"
  | .noptrAbstractPackDeclarator => "noptrAbstractPackDeclarator"
  | .parameterDeclarationClause => "parameterDeclarationClause"
  | .parameterDeclarationList => "parameterDeclarationList"
  | .parameterDeclaration => "parameterDeclaration"
  | .functionDefinition => "functionDefinition"
  | .functionBody => "functionBody"
  | .initializer => "initializer"
  | .braceOrEqualInitializer => "braceOrEqualInitializer"
  | .initializerClause => "initializerClause"
  | .initializerList => "initializerList"
  | .bracedInitList => "bracedInitList"
  | .className => "className"
  | .classSpecifier => "classSpecifier"
  | .classHead => "classHead"
  | .classHeadName => "classHeadName"
  | .classVirtSpecifier => "classVirtSpecifier"
  | .classKey => "classKey"
  | .memberSpecification => "memberSpecification"
  | .memberDeclaration => "memberDeclaration"
  | .memberDeclaratorList => "memberDeclaratorList"
  | .memberDeclarator => "memberDeclarator"
  | .virtSpecifierSeq => "virtSpecifierSeq"
  | .virtSpecifier => "virtSpecifier"
  | .pureSpecifier => "pureSpecifier"
  | .cliTopLevelVisibility => "cliTopLevelVisibility"
  | .cliFinallyClause => "cliFinallyClause"
  | .cliFunctionModifiers => "cliFunctionModifiers"
  | .cliFunctionModifier => "cliFunctionModifier"
  | .cliEventDefinition => "cliEventDefinition"
  | .cliEventModifiers => "cliEventModifiers"
  | .cliPropertyOrEventName => "cliPropertyOrEventName"
  | .cliEventType => "cliEventType"
  | .cliParameterArray => "cliParameterArray"
  | .cliPropertyDefinition => "cliPropertyDefinition"
  | .cliPropertyDeclSpecifierSeq => "cliPropertyDeclSpecifierSeq"
  | .cliPropertyBody => "cliPropertyBody"
  | .cliPropertyModifiers => "cliPropertyModifiers"
  | .cliPropertyIndexes => "cliPropertyIndexes"
  | .cliPropertyIndexParameterList => "cliPropertyIndexParameterList"
  | .cliAccessorSpecification => "cliAccessorSpecification"
  | .cliAccessorDeclaration => "cliAccessorDeclaration"
  | .cliDelegateSpecifier => "cliDelegateSpecifier"
  | .cliDelegateDeclSpecifierSeq => "cliDelegateDeclSpecifierSeq"
  | .cliGenericDeclaration => "cliGenericDeclaration"
  | .cliGenericParameterList => "cliGenericParameterList"
  | .cliConstraintClauseList => "cliConstraintClauseList"
  | .cliConstraintItemList => "cliConstraintItemList"
  | .cliGenericParameter => "cliGenericParameter"
  | .cliGenericId => "cliGenericId"
  | .cliGenericName => "cliGenericName"
  | .cliGenericArgumentList => "cliGenericArgumentList"
  | .cliGenericArgument => "cliGenericArgument"
  | .cliConstraintClause => "cliConstraintClause"
  | .cliConstraintItem => "cliConstraintItem"
  | .cliAttributes => "cliAttributes"
  | .cliAttributeSection => "cliAttributeSection"
  | .cliAttributeTargetSpecifier => "cliAttributeTargetSpecifier"
  | .cliAttributeTarget => "cliAttributeTarget"
  | .cliAttributeList => "cliAttributeList"
  | .cliAttribute => "cliAttribute"
  | .cliAttributeArguments => "cliAttributeArguments"
  | .cliPositionArgumentList => "cliPositionArgumentList"
  | .cliNamedArgumentList => "cliNamedArgumentList"
  | .cliPositionArgument => "cliPositionArgument"
  | .cliNamedArgument => "cliNamedArgument"
  | .cliAttributeArgumentExpression => "cliAttributeArgumentExpression"
  | .baseClause => "baseClause"
  | .baseSpecifierList => "baseSpecifierList"
  | .baseSpecifier => "baseSpecifier"
  | .classOrDecltype => "classOrDecltype"
  | .baseTypeSpecifier => "baseTypeSpecifier"
  | .accessSpecifier => "accessSpecifier"
  | .conversionFunctionId => "conversionFunctionId"
  | .conversionTypeId => "conversionTypeId"
  | .conversionDeclarator => "conversionDeclarator"
  | .ctorInitializer => "ctorInitializer"
  | .memInitializerList => "memInitializerList"
  | .memInitializer => "memInitializer"
  | .memInitializerId => "memInitializerId"
  | .operatorFunctionId => "operatorFunctionId"
  | .overloadableOperator => "overloadableOperator"
  | .literalOperatorId => "literalOperatorId"
  | .templateDeclaration => "templateDeclaration"
  | .templateParameterList => "templateParameterList"
  | .templateParameterListEnclosed => "templateParameterListEnclosed"
  | .templateParameter => "templateParameter"
  | .typeParameter => "typeParameter"
  | .innerTypeParameter => "innerTypeParameter"
  | .simpleTemplateId => "simpleTemplateId"
  | .templateId => "templateId"
  | .templateName => "templateName"
  | .templateArgumentList => "templateArgumentList"
  | .templateArgument => "templateArgument"
  | .innerSimpleTemplateId => "innerSimpleTemplateId"
  | .innerTrailingTypeSpecifier => "innerTrailingTypeSpecifier"
  | .innerTypeId => "innerTypeId"
  | .innerTemplateId => "innerTemplateId"
  | .innerTemplateArgumentList => "innerTemplateArgumentList"
  | .innerTemplateArgument => "innerTemplateArgument"
  | .typenameSpecifier => "typenameSpecifier"
  | .explicitInstantiation => "explicitInstantiation"
  | .explicitSpecialization => "explicitSpecialization"
  | .tryBlock => "tryBlock"
  | .functionTryBlock => "functionTryBlock"
  | .handlerSeq => "handlerSeq"
  | .handler => "handler"
  | .exceptionDeclaration => "exceptionDeclaration"
  | .throwExpression => "throwExpression"
  | .exceptionSpecification => "exceptionSpecification"
  | .dynamicExceptionSpecification => "dynamicExceptionSpecification"
  | .typeIdList => "typeIdList"
  | .noexceptSpecification => "noexceptSpecification"

/-- The name of a rule with a capital first letter. -/
def capitalName (r : Rule) : String :=
  r.name.capitalize

/-- The rule at a place of the registry. -/
def ofIndex? (i : Nat) : Option Rule :=
  all[i]?

/-- The rule with a name. -/
def ofName? (name : String) : Option Rule :=
  all.find? (·.name == name)

theorem length_all : all.length = count := by
  decide

theorem all_getElem?_index (r : Rule) : all[r.index]? = some r := by
  cases r <;> rfl

theorem mem_all (r : Rule) : r ∈ all :=
  List.mem_of_getElem? r.all_getElem?_index

theorem index_lt_count (r : Rule) : r.index < count := by
  have := (List.getElem?_eq_some_iff.1 r.all_getElem?_index).1
  rwa [length_all] at this

theorem index_injective {r s : Rule} (h : r.index = s.index) : r = s := by
  have := r.all_getElem?_index
  rw [h, s.all_getElem?_index] at this
  exact (Option.some.inj this).symm

end Rule

end PackratCpp
