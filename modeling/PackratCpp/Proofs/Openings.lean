/-
  An expression that starts with a square bracket starts with a lambda expression.

  * `Rule.mayLead`: the rules that a constant expression gets to before it has consumed anything, with lambda
    expressions as the only ones among them that have a square bracket in front.
  * `Expr.leads`: whether an expression starts with no square bracket, but for these rules.
  * `Grammar.Leads`: their bodies pass this check.  `Dialect.leads`: so they do in every dialect.
  * `Yields.exists_lambda`: then whatever starts with a square bracket has a lambda expression there.
  * `Derives.lambda_closes`: a lambda expression ends with a brace.
-/
import PackratCpp.Proofs.Branches

namespace PackratCpp

open BracketKind

/-- The rules that a constant expression may get to before it consumes anything, in some dialect. -/
def Rule.mayLead : Rule → Bool
  | .constantExpression | .conditionalExpression | .logicalOrExpression | .logicalAndExpression |
    .inclusiveOrExpression | .exclusiveOrExpression | .andExpression | .equalityExpression |
    .relationalExpression | .shiftExpression | .additiveExpression | .multiplicativeExpression |
    .pmExpression | .castExpression | .unaryExpression | .unaryOperator | .postfixExpression |
    .noexceptExpression | .newExpression | .deleteExpression | .simpleTypeSpecifier |
    .typenameSpecifier | .primaryExpression | .decltypeSpecifier | .nestedNameSpecifier | .typeName |
    .literal | .parExpression | .idExpression | .lambdaExpression | .namespaceName | .className |
    .enumName | .typedefName | .simpleTemplateId | .booleanLiteral | .pointerLiteral | .qualifiedId |
    .unqualifiedId | .originalNamespaceName | .namespaceAlias | .templateName | .templateId |
    .operatorFunctionId | .conversionFunctionId | .literalOperatorId | .cliGenericId |
    .cliGenericName => true
  | _ => false

namespace Expr

mutual

/-- Whether an expression starts with no square bracket, but for the rules that may lead. -/
def leads : Expr → Bool
  | .token (.text s) => s ≠ "["
  | .token (.kind k) => k ≠ .punctuator
  | .anyToken => false
  | .rule r => r.mayLead
  | .seq es => firstLeads es
  | .choice es => allLead es
  | .option e | .star e | .plus e => leads e
  | .token (.keyword _) | .followedBy _ | .notFollowedBy _ | .epsilon | .never => true

/-- The same for a sequence: an item counts if those in front of it may all be empty. -/
def firstLeads : List Expr → Bool
  | [] => true
  | e :: es => leads e && (!mayBeEmpty Rule.mayBeEmpty e || firstLeads es)

/-- The same for each of some expressions. -/
def allLead : List Expr → Bool
  | [] => true
  | e :: es => leads e && allLead es

end

theorem leads_of_mem {e : Expr} {es : List Expr} (h : allLead es = true) (hm : e ∈ es) :
    e.leads = true :=
  check_of_mem (fun _ _ => by rw [allLead]) h hm

end Expr

/-- Whether a task starts with no square bracket, but for the rules that may lead. -/
def Task.leads : Task → Bool
  | .expr e | .turns e => e.leads
  | .items es => Expr.firstLeads es
  | .alternatives es => Expr.allLead es

/-- A grammar in which only lambda expressions have a square bracket in front, among the rules that may
lead. -/
structure Grammar.Leads (g : Grammar) : Prop where
  empty_of : ∀ r production, g.find? r = some production →
    production.body.mayBeEmpty Rule.mayBeEmpty = true → r.mayBeEmpty = true
  body : ∀ {r production}, g.find? r = some production → r.mayLead = true →
    r ≠ .lambdaExpression → production.body.leads = true
  lambda : g.find? .lambdaExpression = some ⟨.seq [.rule .lambdaIntroducer,
    .option (.rule .lambdaDeclarator), .rule .compoundStatement], false⟩
  compound : g.find? .compoundStatement = some ⟨.seq [.token (.text "\x7b"),
    .option (.rule .statementSeq), .token (.text "\x7d")], false⟩

/-- Whether a step gives a rule that may lead a body with no square bracket in front. -/
def GrammarStep.leads : GrammarStep → Bool
  | .define rule body _ => !rule.mayLead || rule = .lambdaExpression || body.leads
  | .mock _ => false

namespace Dialect

theorem all_leads : ∀ recovery gnu managed atl : Bool,
    stepsPass recovery ⟨gnu, managed, atl⟩ (·.leads) = true := by
  decide +kernel

/-- **So it is in every dialect.** -/
theorem leads (d : Dialect) : (d.grammar []).Leads := by
  constructor
  case empty_of => exact (d.ranked []).empty_of
  case body =>
    intro r production hf hr hne
    simpa [GrammarStep.leads, hr, hne] using check_of_find? all_leads hf
  case lambda =>
    exact find?_of_group Rules.lambdas 0 (by simp [groups]) rfl
  case compound =>
    exact find?_of_group (Rules.statements d.extensions) 4 (by simp [groups]) rfl

end Dialect

section
variable {g : Grammar} {tokens : TokenStream} {p stop : Nat} {trees : List Tree}

/-- **What starts with a square bracket starts with a lambda expression.** -/
theorem Yields.exists_lambda (hg : g.Leads) (htokens : tokens.PunctuatesBrackets) {t : Task}
    (h : Yields g tokens t p stop trees) (ht : t.leads = true) (hopen : tokens.SpelledAt "[" p)
    (hlt : p < stop) : ∃ e cs, .node .lambdaExpression p e cs ∈ Tree.preorderAll trees := by
  induction h with
  | @token test p u hu ha =>
    obtain ⟨u', hu', -, htext⟩ := hopen
    cases hu.symm.trans hu'
    have hkind := htokens p u hu (by rw [htext]; decide)
    cases test with
    | text s =>
      have hs := Terminal.text_of_accepts ha
      simp [Task.leads, Expr.leads, ← hs, htext] at ht
    | keyword w => cases hkind.symm.trans (Terminal.keyword_of_accepts ha).1
    | kind k =>
      rw [Terminal.accepts, beq_iff_eq, hkind] at ha
      simp [Task.leads, Expr.leads, ← ha] at ht
  | anyToken => cases ht
  | @rule r production p stop trees hf h ih =>
    rw [Production.tree?, if_neg (by omega), Option.toList_some]
    by_cases hr : r = .lambdaExpression
    · subst hr
      cases hg.lambda.symm.trans hf
      exact ⟨stop, trees, List.mem_append_left _ (List.mem_cons_self ..)⟩
    · obtain ⟨e, cs, hm⟩ := ih (hg.body hf ht hr) hopen hlt
      refine ⟨e, cs, ?_⟩
      rcases production.node_cases r p stop trees with heq | heq
      · rwa [← heq]
      · rw [heq]
        exact List.mem_append_left _ (List.mem_cons_of_mem _ hm)
  | seq _ ih | choice _ ih | option _ ih | star _ ih => exact ih ht hopen hlt
  | alternatives hm _ ih => exact ih (Expr.leads_of_mem ht hm) hopen hlt
  | @itemsNext e es p q trees stop trees' h₁ h₂ ih₁ ih₂ =>
    obtain ⟨hfirst, hrest⟩ := Bool.and_eq_true_iff.1 ht
    rcases Nat.lt_or_eq_of_le h₁.le with hpq | rfl
    · obtain ⟨e, cs, hm⟩ := ih₁ hfirst hopen hpq
      exact ⟨e, cs, by rw [Tree.preorderAll_append]; exact List.mem_append_left _ hm⟩
    · -- the first item is empty, so that the next one starts with the bracket
      have hempty : e.mayBeEmpty Rule.mayBeEmpty = true :=
        (h₁.lt_or_mayBeEmpty hg.empty_of).resolve_left (Nat.lt_irrefl _)
      rw [hempty] at hrest
      obtain ⟨e, cs, hm⟩ := ih₂ hrest hopen hlt
      exact ⟨e, cs, by rw [Tree.preorderAll_append]; exact List.mem_append_right _ hm⟩
  | plus h₁ _ ih₁ ih₂ | turnsNext h₁ _ ih₁ ih₂ =>
    rcases Nat.lt_or_eq_of_le h₁.le with hpq | rfl
    · obtain ⟨e, cs, hm⟩ := ih₁ ht hopen hpq
      exact ⟨e, cs, by rw [Tree.preorderAll_append]; exact List.mem_append_left _ hm⟩
    · obtain ⟨e, cs, hm⟩ := ih₂ ht hopen hlt
      exact ⟨e, cs, by rw [Tree.preorderAll_append]; exact List.mem_append_right _ hm⟩
  | itemsDone | optionSkip | plusEmpty | turnsDone | followedBy | notFollowedBy | epsilon =>
    exact absurd hlt (Nat.lt_irrefl _)

/-- **A lambda expression ends with a brace.** -/
theorem Derives.lambda_closes (hg : g.Leads) {r : Rule} {log : List Attempt}
    (h : Derives g tokens r (.expr (.seq [.rule .lambdaIntroducer, .option (.rule .lambdaDeclarator),
      .rule .compoundStatement])) p (.matched stop trees) log) :
    ∃ i, stop = i + 1 ∧ tokens.SpelledAt "\x7d" i := by
  obtain ⟨_, _, _, _, _, -, -, h⟩ := h.seq_cons
  obtain ⟨_, _, _, _, _, -, -, h⟩ := h.seq_cons
  obtain ⟨_, _, _, _, _, -, hbody, h⟩ := h.seq_cons
  obtain ⟨rfl, -⟩ := h.seq_nil
  cases hbody with
  | ruleMatch hf hbody =>
    cases hg.compound.symm.trans hf
    obtain ⟨_, _, _, _, _, -, -, hbody⟩ := hbody.seq_cons
    obtain ⟨_, _, _, _, _, -, -, hbody⟩ := hbody.seq_cons
    obtain ⟨_, _, _, _, _, -, hclose, hbody⟩ := hbody.seq_cons
    obtain ⟨rfl, -⟩ := hbody.seq_nil
    obtain ⟨rfl, -, hbrace⟩ := hclose.spelledAt
    exact ⟨_, rfl, hbrace⟩

end

end PackratCpp
