/-
  The grammar of every dialect.

  * `Rule.mayBeEmpty`, `Rule.startRank`, `Rule.isNested`: the rules that may match nothing, the
    order in which rules start with each other, and the rules below the top level.
  * `Dialect.groups`: the steps in groups, in the order of the registry.  `Dialect.stepsPass`: checks
    of all steps.  `Dialect.body?`: the body of a rule, by its number.
  * `GrammarStep.Sound`: what each rule of the grammar satisfies, checked in all dialects by
    `Dialect.rules_sound`.  `Dialect.subjects_eq`: each rule has one body.
  * `Dialect.grammar`: the grammar with some rules mocked.  `Grammar.standard?_eq`: this is what
    putting it together comes to, for any choice of mocks.
  * `Dialect.find?_of_group`: what a step says, by its group and its number there.
  * `Dialect.ranked`, `Dialect.closed`, `Dialect.sparesEof`: no rule waits for itself, and the
    rules below the top level mention neither of the two at the top and take no end of input.
-/
import PackratCpp.Grammar.Standard
import PackratCpp.Proofs.Ranking
import PackratCpp.Proofs.Scope
import PackratCpp.Proofs.Table

namespace PackratCpp

namespace Rule

/-- The rules that may match without consuming anything, in some dialect. -/
def mayBeEmpty : Rule → Bool
  | .parameterDeclSpecifierSeq | .attributeList | .attributeArgumentClause | .balancedTokenSeq |
    .abstractDeclarator | .ptrAbstractDeclarator | .noptrAbstractDeclarator |
    .parameterDeclarationClause | .parameterDeclarationList | .parameterDeclaration |
    .cliAccessorSpecification | .templateParameterList | .templateParameter => true
  | _ => false

/-- The length of the longest chain of rules, from a rule on, of which each gets to the next one
without consuming anything, when everything is switched on. -/
def startRank : Rule → Nat
  | .literal | .lambdaExpression | .binaryOperator | .newInitializer |
    .switchBlockStatementGroup | .vcAtlDeclaration | .enumHead | .opaqueEnumDeclaration |
    .enumeratorDefinition | .namespaceName | .namedNamespaceDefinition | .attributeScopedToken |
    .balancedTokenSeq | .cvQualifierSeq | .noptrAbstractDeclarator | .functionBody |
    .braceOrEqualInitializer | .classHead | .virtSpecifierSeq | .cliFunctionModifiers |
    .cliPropertyBody | .cliConstraintClauseList | .cliGenericName | .cliAttributes |
    .cliAttributeTargetSpecifier | .cliNamedArgumentList | .simpleTemplateId |
    .innerSimpleTemplateId | .handlerSeq | .exceptionSpecification => 1
  | .elaboratedTypeSpecifier | .enumSpecifier | .enumeratorList | .namespaceDefinition |
    .attributeSpecifier | .attributeToken | .attributeArgumentClause | .initializer | .className |
    .classSpecifier | .cliEventDefinition | .cliPropertyDefinition | .cliDelegateSpecifier |
    .cliGenericId | .templateId => 2
  | .unqualifiedId | .typeName | .usingDirective | .attributeSpecifierSeq | .«attribute» => 3
  | .nestedNameSpecifier | .labeledStatement | .attributeDeclaration | .attributeList |
    .cliParameterArray | .cliGenericParameter | .cliAttribute => 4
  | .qualifiedId | .pseudoDestructorName | .simpleTypeSpecifier | .qualifiedNamespaceSpecifier |
    .ptrOperator | .classHeadName | .cliEventType | .cliGenericParameterList | .cliAttributeList |
    .innerTrailingTypeSpecifier => 5
  | .idExpression | .newDeclarator | .trailingTypeSpecifier | .ptrAbstractDeclarator |
    .abstractPackDeclarator | .classOrDecltype | .conversionDeclarator => 6
  | .primaryExpression | .typeSpecifier | .trailingTypeSpecifierSeq | .declaratorId |
    .abstractDeclarator | .baseTypeSpecifier | .memInitializerId => 7
  | .postfixExpression | .declSpecifier | .typeSpecifierSeq | .noptrDeclarator | .baseSpecifier |
    .memInitializer => 8
  | .unaryExpression | .newTypeId | .ptrDeclarator | .typeId | .baseSpecifierList |
    .conversionTypeId | .memInitializerList | .innerTypeId | .exceptionDeclaration => 9
  | .castExpression | .declarator | .cliPropertyIndexParameterList | .cliGenericArgument |
    .cliConstraintItem | .typeIdList => 10
  | .pmExpression | .conditionDeclSpecifierSeq | .forRangeDeclSpecifierSeq |
    .parameterDeclSpecifierSeq | .functionDeclSpecifierSeq | .initDeclarator | .memberDeclarator |
    .cliPropertyDeclSpecifierSeq | .cliDelegateDeclSpecifierSeq | .cliConstraintItemList |
    .cliGenericArgumentList => 11
  | .multiplicativeExpression | .forRangeDeclaration | .initDeclaratorList |
    .parameterDeclaration | .functionDefinition | .memberDeclaratorList => 12
  | .additiveExpression | .simpleDeclSpecifierSeq | .memberDeclSpecifierSeq |
    .parameterDeclarationList | .templateParameter => 13
  | .shiftExpression | .simpleDeclaration | .parameterDeclarationClause | .memberDeclaration |
    .cliAccessorDeclaration | .templateParameterList => 14
  | .relationalExpression | .blockDeclaration | .memberSpecification |
    .cliAccessorSpecification => 15
  | .equalityExpression | .declarationStatement | .declaration => 16
  | .andExpression | .declarationSeq | .recoveredDeclaration => 17
  | .translationUnit | .exclusiveOrExpression => 18
  | .inclusiveOrExpression => 19
  | .logicalAndExpression => 20
  | .logicalOrExpression => 21
  | .conditionalExpression => 22
  | .assignmentExpression | .constantExpression => 23
  | .expression | .initializerClause | .cliAttributeArgumentExpression | .templateArgument |
    .innerTemplateArgument => 24
  | .capture | .expressionStatement | .condition | .forRangeInitializer | .initializerList |
    .cliPositionArgument | .templateArgumentList | .innerTemplateId |
    .innerTemplateArgumentList => 25
  | .captureList | .expressionList | .statement | .forInitStatement | .cliPositionArgumentList => 26
  | .lambdaCapture | .statementSeq => 27
  | _ => 0

/-- The rules below the top level: all but the translation unit and skipped input. -/
def isNested (r : Rule) : Bool :=
  r ≠ .translationUnit && r ≠ .recoveredDeclaration

/-- The rules that may be mentioned by another one: all but the translation unit. -/
def isPart (r : Rule) : Bool :=
  r ≠ .translationUnit

theorem all_map_index : all.map index = List.range count := by
  decide +kernel

theorem nodup_all : all.Nodup :=
  List.Nodup.of_map index (by rw [all_map_index]; exact List.nodup_range)

end Rule

/-- Entry number `i` of some lists, one behind the other. -/
def nth? {α : Type} : List (List α) → (i : Nat) → Option α
  | [], _ => none
  | xs :: xss, i => bif i.blt xs.length then xs[i]? else nth? xss (i - xs.length)

theorem nth?_eq {α : Type} (xss : List (List α)) (i : Nat) : nth? xss i = xss.flatten[i]? := by
  induction xss generalizing i with
  | nil => rfl
  | cons xs xss ih =>
    rw [nth?, ih, List.flatten_cons, List.getElem?_append, Bool.cond_eq_ite]
    simp only [Nat.blt_eq]

/-! ## All rules of all dialects -/

/-- What a rule of the grammar satisfies. -/
structure GrammarStep.Sound (rule : Rule) (body : Expr) (collapse : Bool) : Prop where
  empty : body.mayBeEmpty Rule.mayBeEmpty = true → rule.mayBeEmpty = true
  ranked : body.startsBelow Rule.mayBeEmpty Rule.startRank rule.startRank = true
  nested : rule.isNested = true →
    body.within Rule.isNested = true ∧ body.sparesEof = true
  parts : body.within Rule.isPart = true
  spares : rule.isPart = true → body.sparesEof = true
  early : body.callsEarly = true
  kept : rule = .declaration → collapse = false

/-- Whether a step gives a body to a rule, and a sound one. -/
def GrammarStep.isSound : GrammarStep → Bool
  | .define rule body collapse =>
    (!body.mayBeEmpty Rule.mayBeEmpty || rule.mayBeEmpty) &&
    body.startsBelow Rule.mayBeEmpty Rule.startRank rule.startRank &&
    (!rule.isNested || body.within Rule.isNested && body.sparesEof) &&
    body.within Rule.isPart && (!rule.isPart || body.sparesEof) && body.callsEarly &&
    (rule ≠ .declaration || !collapse)
  | .mock _ => false

namespace Dialect

variable {d : Dialect} {r : Rule}

open Rules in
/-- The steps of a dialect in groups, in the order of the registry.  There the two rules of the top level
are apart. -/
def groups (recovery : Bool) (ext : Extensions) : List (List GrammarStep) :=
  [literals, (topLevel recovery).take 1,
    names ext, lambdas, postfixes, unary, operators ext,
    statements ext,
    declarations ext, (topLevel recovery).drop 1, attributedDeclarations, specifiers, types ext,
    enumerations ext, namespaces ext, attributes ext,
    declarators ext, abstractDeclarators, parameters ext, functions, initializers ext,
    classes ext, members ext,
    managedModifiers, events, properties, generics, attributeSections,
    bases ext, specialMembers, operatorNames,
    templateParameters, templateIds ext, templateForms, exceptions ext]

theorem regroup_perm {α : Type} (literals first rest upTo behind special managed templates : List α) :
    (literals ++ (first ++ rest) ++ upTo ++ behind ++ special ++ managed ++ templates).Perm
      (literals ++ first ++ upTo ++ rest ++ behind ++ managed ++ special ++ templates) := by
  classical
  refine List.perm_iff_count.2 fun step => ?_
  simp only [List.count_append]
  omega

open Rules in
theorem rules_perm (d : Dialect) : d.rules.Perm (groups d.errorRecovery d.extensions).flatten := by
  have hperm := regroup_perm literals ((topLevel d.errorRecovery).take 1)
    ((topLevel d.errorRecovery).drop 1)
    (names d.extensions ++ lambdas ++ postfixes ++ unary ++ operators d.extensions ++
      statements d.extensions ++ declarations d.extensions)
    (attributedDeclarations ++ specifiers ++ types d.extensions ++ enumerations d.extensions ++
      namespaces d.extensions ++ attributes d.extensions ++ declarators d.extensions ++
      abstractDeclarators ++ parameters d.extensions ++ functions ++ initializers d.extensions ++
      classes d.extensions ++ members d.extensions)
    (bases d.extensions ++ specialMembers ++ operatorNames)
    (managedModifiers ++ events ++ properties ++ generics ++ attributeSections)
    (templateParameters ++ templateIds d.extensions ++ templateForms ++ exceptions d.extensions)
  rw [List.take_append_drop] at hperm
  unfold rules groups
  simpa only [List.flatten_cons, List.flatten_nil, List.append_nil, List.append_assoc] using hperm

theorem mem_rules {group : List GrammarStep} (hgroup : group ∈ groups d.errorRecovery d.extensions)
    {step : GrammarStep} (hstep : step ∈ group) : step ∈ d.rules :=
  d.rules_perm.mem_iff.2 (List.mem_flatten.2 ⟨group, hgroup, hstep⟩)

/-- Whether all steps pass a check.  They are checked in groups since many of these are the same in every
dialect. -/
def stepsPass (recovery : Bool) (ext : Extensions) (check : GrammarStep → Bool) : Bool :=
  (groups recovery ext).all (·.all check)

theorem check_of_stepsPass {check : GrammarStep → Bool}
    (h : stepsPass d.errorRecovery d.extensions check = true) :
    ∀ step ∈ d.rules, check step = true := by
  intro step hstep
  obtain ⟨group, hgroup, hstep⟩ := List.mem_flatten.1 (d.rules_perm.mem_iff.1 hstep)
  exact List.all_eq_true.1 (List.all_eq_true.1 h group hgroup) step hstep

theorem all_isSound : ∀ recovery gnu managed atl : Bool,
    stepsPass recovery ⟨gnu, managed, atl⟩ (·.isSound) = true := by
  decide +kernel

theorem all_subjects : ∀ recovery gnu managed atl : Bool,
    (groups recovery ⟨gnu, managed, atl⟩).flatten.map (·.subject) = Rule.all := by
  decide +kernel

theorem rules_isSound (d : Dialect) : ∀ step ∈ d.rules, step.isSound = true :=
  check_of_stepsPass (all_isSound d.errorRecovery d.extensions.gnu d.extensions.managed
    d.extensions.attributedAtl)

theorem rules_sound {body : Expr} {collapse : Bool} (h : .define r body collapse ∈ d.rules) :
    GrammarStep.Sound r body collapse := by
  have hs := d.rules_isSound _ h
  simp only [GrammarStep.isSound, Bool.and_eq_true, Bool.or_eq_true, Bool.not_eq_true',
    decide_eq_true_eq, ne_eq] at hs
  obtain ⟨⟨⟨⟨⟨⟨hempty, hranked⟩, hnested⟩, hparts⟩, hspares⟩, hearly⟩, hkept⟩ := hs
  exact {
    empty := fun he => hempty.resolve_left (by simp [he])
    ranked := hranked
    nested := fun hr => hnested.resolve_left (by simp [hr])
    parts := hparts
    spares := fun hr => hspares.resolve_left (by simp [hr])
    early := hearly
    kept := fun hr => hkept.resolve_left (by simp [hr]) }

theorem rules_isDefine (d : Dialect) : ∀ step ∈ d.rules, step.isDefine = true := by
  intro step hstep
  cases step with
  | define => rfl
  | mock => exact absurd (d.rules_isSound _ hstep) (by simp [GrammarStep.isSound])

/-- **The steps give the rules of the registry their bodies**, one for each and in this order. -/
theorem subjects_eq (d : Dialect) :
    (groups d.errorRecovery d.extensions).flatten.map (·.subject) = Rule.all :=
  all_subjects d.errorRecovery d.extensions.gnu d.extensions.managed d.extensions.attributedAtl

theorem subjects_perm (d : Dialect) : (d.rules.map (·.subject)).Perm Rule.all :=
  d.subjects_eq ▸ d.rules_perm.map _

theorem mem_subjects (d : Dialect) (r : Rule) : r ∈ d.rules.map (·.subject) :=
  d.subjects_perm.mem_iff.2 r.mem_all

theorem subjects_nodup (d : Dialect) : (d.rules.map (·.subject)).Nodup :=
  d.subjects_perm.nodup_iff.2 Rule.nodup_all

/-- The grammar in which the rules of `mocks` have stand-ins. -/
def grammar (d : Dialect) (mocks : List Rule) : Grammar :=
  ⟨d, (RuleTable.ofSteps (d.rules ++ mocks.map .mock)).toArray⟩

theorem find?_grammar_of_mem {mocks : List Rule} (h : r ∈ mocks) :
    (d.grammar mocks).find? r = some (.standIn r) := by
  rw [grammar, Grammar.find?_toArray]
  exact RuleTable.find?_of_mock (List.mem_append_right _ (List.mem_map_of_mem h))

theorem find?_grammar_of_not_mem {mocks : List Rule} (h : r ∉ mocks) :
    (d.grammar mocks).find? r = d.rules.findSome? (·.body? r) := by
  have hmock : GrammarStep.mock r ∉ d.rules ++ mocks.map .mock := by
    intro hr
    rcases List.mem_append.1 hr with hr | hr
    · cases d.rules_isDefine _ hr
    · obtain ⟨q, hq, hqr⟩ := List.mem_map.1 hr
      cases hqr
      exact h hq
  have hmocks : (mocks.map GrammarStep.mock).findSome? (·.body? r) = none := by
    simp [GrammarStep.body?]
  rw [grammar, Grammar.find?_toArray, RuleTable.find?_of_not_mock hmock, List.findSome?_append,
    hmocks, Option.or_none]

theorem find?_grammar_of_define {mocks : List Rule} (h : r ∉ mocks) {body : Expr}
    {collapse : Bool} (hd : .define r body collapse ∈ d.rules) :
    (d.grammar mocks).find? r = some ⟨body, collapse⟩ := by
  rw [find?_grammar_of_not_mem h]
  exact RuleTable.findSome?_body? d.subjects_nodup hd

/-- The body of a rule, which is found by the number of the rule: step by step would take long. -/
def body? (recovery : Bool) (ext : Extensions) (r : Rule) : Option Production :=
  (nth? (groups recovery ext) r.index).bind (·.body? r)

theorem findSome?_rules (d : Dialect) (r : Rule) :
    d.rules.findSome? (·.body? r) = body? d.errorRecovery d.extensions r := by
  have hsubject : ((groups d.errorRecovery d.extensions).flatten.map (·.subject))[r.index]? = some r := by
    rw [d.subjects_eq, r.all_getElem?_index]
  rw [List.getElem?_map, Option.map_eq_some_iff] at hsubject
  obtain ⟨step, hentry, hr⟩ := hsubject
  have hstep : step ∈ d.rules := d.rules_perm.mem_iff.2 (List.mem_of_getElem? hentry)
  rw [body?, nth?_eq, hentry, Option.bind_some]
  cases step with
  | mock => cases d.rules_isDefine _ hstep
  | define q body collapse =>
    obtain rfl : q = r := hr
    rw [RuleTable.findSome?_body? d.subjects_nodup hstep]
    exact (if_pos rfl).symm

theorem find?_of_group (group : List GrammarStep) (i : Nat)
    (hgroup : group ∈ groups d.errorRecovery d.extensions) {body : Expr} {collapse : Bool}
    (hstep : group[i]? = some (.define r body collapse)) :
    (d.grammar []).find? r = some ⟨body, collapse⟩ :=
  find?_grammar_of_define List.not_mem_nil (mem_rules hgroup (List.mem_of_getElem? hstep))

theorem define_of_find? {mocks : List Rule} {production : Production} (hr : r ∉ mocks)
    (h : (d.grammar mocks).find? r = some production) :
    .define r production.body production.collapse ∈ d.rules := by
  rw [find?_grammar_of_not_mem hr] at h
  obtain ⟨step, hstep, hbody⟩ := List.exists_of_findSome?_eq_some h
  cases step with
  | mock => cases hbody
  | define q body collapse =>
    simp only [GrammarStep.body?] at hbody
    split_ifs at hbody with hq
    cases hbody
    exact hq ▸ hstep

theorem check_of_find? {check : GrammarStep → Bool}
    (hall : ∀ recovery gnu managed atl : Bool,
      stepsPass recovery ⟨gnu, managed, atl⟩ check = true)
    {production : Production} (h : (d.grammar []).find? r = some production) :
    check (.define r production.body production.collapse) = true :=
  check_of_stepsPass (hall d.errorRecovery d.extensions.gnu d.extensions.managed
    d.extensions.attributedAtl) _ (define_of_find? List.not_mem_nil h)

theorem mem_rules_of_find? {mocks : List Rule} {production : Production}
    (h : (d.grammar mocks).find? r = some production) :
    production = .standIn r ∨ .define r production.body production.collapse ∈ d.rules := by
  by_cases hr : r ∈ mocks
  · rw [find?_grammar_of_mem hr] at h
    exact Or.inl (Option.some.inj h).symm
  · exact Or.inr (define_of_find? hr h)

theorem exists_find? (d : Dialect) (mocks : List Rule) (r : Rule) :
    ∃ production, (d.grammar mocks).find? r = some production := by
  by_cases hr : r ∈ mocks
  · exact ⟨_, find?_grammar_of_mem hr⟩
  · obtain ⟨step, hstep, rfl⟩ := List.mem_map.1 (d.mem_subjects r)
    cases step with
    | define q body collapse => exact ⟨_, find?_grammar_of_define hr hstep⟩
    | mock => cases d.rules_isDefine _ hstep

/-! ## What holds whatever is mocked -/

theorem ranked (d : Dialect) (mocks : List Rule) :
    (d.grammar mocks).Ranked Rule.mayBeEmpty Rule.startRank where
  empty_of r production hf he := by
    rcases mem_rules_of_find? hf with rfl | hr
    · cases he
    · exact (rules_sound hr).empty he
  starts_below r production hf := by
    rcases mem_rules_of_find? hf with rfl | hr
    · rfl
    · exact (rules_sound hr).ranked

theorem closed (d : Dialect) (mocks : List Rule) : (d.grammar mocks).Closed Rule.isNested := by
  intro r production hr hf
  rcases mem_rules_of_find? hf with rfl | hd
  · rfl
  · exact ((rules_sound hd).nested hr).1

theorem sparesEof (d : Dialect) (mocks : List Rule) :
    (d.grammar mocks).SparesEof Rule.isNested := by
  intro r production hr hf
  rcases mem_rules_of_find? hf with rfl | hd
  · rfl
  · exact ((rules_sound hd).nested hr).2

theorem exists_declaration (d : Dialect) (mocks : List Rule) :
    ∃ body, (d.grammar mocks).find? .declaration = some ⟨body, false⟩ := by
  obtain ⟨production, hf⟩ := d.exists_find? mocks .declaration
  have hcollapse : production.collapse = false := by
    rcases mem_rules_of_find? hf with rfl | hr
    · rfl
    · exact (rules_sound hr).kept rfl
  exact ⟨production.body, by rw [hf, ← hcollapse]⟩

theorem mem_rules_of_topLevel {step : GrammarStep}
    (h : step ∈ Rules.topLevel d.errorRecovery) : step ∈ d.rules := by
  unfold rules
  simp only [List.mem_append, h, or_true, true_or]

theorem find?_translationUnit {mocks : List Rule} (h : .translationUnit ∉ mocks) :
    (d.grammar mocks).find? .translationUnit =
      some ⟨.seq [.star (Rules.topLevelItem d.errorRecovery), .token (.kind .eof)], false⟩ := by
  refine find?_grammar_of_define h ?_
  have hbody : Rules.seq [Rules.many [Rules.topLevelItem d.errorRecovery], TokenKind.eof] =
      .seq [.star (Rules.topLevelItem d.errorRecovery), .token (.kind .eof)] := by
    cases d.errorRecovery <;> rfl
  rw [← hbody]
  exact mem_rules_of_topLevel (List.mem_cons_self ..)

theorem find?_recoveredDeclaration {mocks : List Rule} (h : .recoveredDeclaration ∉ mocks) :
    (d.grammar mocks).find? .recoveredDeclaration =
      some ⟨.plus (.seq [.notFollowedBy (.choice [.rule .declaration, .token (.kind .eof)]),
        .anyToken]), false⟩ := by
  refine find?_grammar_of_define h ?_
  have hbody : Rules.many1 [Rules.notAhead [Rules.first [Rule.declaration, TokenKind.eof]],
        .anyToken] = .plus (.seq [.notFollowedBy (.choice [.rule .declaration,
        .token (.kind .eof)]), .anyToken]) := rfl
  rw [← hbody]
  exact mem_rules_of_topLevel (List.mem_cons_of_mem _ (List.mem_cons_self ..))

/-! ## Recovery concerns the top level -/

theorem mem_topLevel_iff {step : GrammarStep} (h : step.subject.isNested = true)
    (recovery recovery' : Bool) :
    step ∈ Rules.topLevel recovery ↔ step ∈ Rules.topLevel recovery' := by
  have hnot : ∀ recovery, step ∉ Rules.topLevel recovery := by
    intro recovery hm
    simp only [Rules.topLevel, List.mem_cons, List.not_mem_nil, or_false] at hm
    rcases hm with rfl | rfl <;> cases h
  simp only [hnot]

theorem find?_grammar_recovery (language : Language) (ext : Extensions)
    (recovery recovery' : Bool) (h : r.isNested = true) :
    (grammar ⟨recovery, language, ext⟩ []).find? r =
      (grammar ⟨recovery', language, ext⟩ []).find? r := by
  obtain ⟨step, hstep, rfl⟩ := List.mem_map.1 (mem_subjects ⟨recovery, language, ext⟩ r)
  have hstep' : step ∈ rules ⟨recovery', language, ext⟩ := by
    unfold rules at hstep ⊢
    simp only [List.mem_append] at hstep ⊢
    rwa [mem_topLevel_iff h recovery recovery'] at hstep
  cases step with
  | mock => cases rules_isDefine _ _ hstep
  | define q body collapse =>
    have hq : (GrammarStep.define q body collapse).subject ∉ ([] : List Rule) := List.not_mem_nil
    rw [find?_grammar_of_define hq hstep, find?_grammar_of_define hq hstep']

end Dialect

/-- **Putting the grammar of a dialect together succeeds**, whatever is mocked. -/
theorem Grammar.standard?_eq (d : Dialect) (mocks : List Rule) :
    Grammar.standard? d mocks = .ok (d.grammar mocks) := by
  unfold standard? ofSteps?
  rw [RuleTable.finish?_eq d.rules_isDefine d.subjects_nodup d.mem_subjects mocks]
  rfl

end PackratCpp
