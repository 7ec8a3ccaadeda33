/-
  How declarations and statements end.

  * `Expr.endsWell`: whether an expression ends with `;` or `}` whenever it spans anything, given the
    rules that do.
  * `Grammar.Terminates`: the bodies of the rules that should (`Rule.isTerminated`) do so, or end with an
    alias declaration, which has no `;` of its own.  `Dialect.terminates`: so it is in every dialect.
  * `Yields.endsWell`: then so does all that they span.
  * `Grammar.standard_terminated`: every declaration and every statement of a finished parse ends with
    `;` or `}`, unless an alias declaration ends there.
  * `Grammar.alias_unterminated`: where one does, there may be no `;` at all.
-/
import PackratCpp.Proofs.Forecast
import PackratCpp.Proofs.Lookup
import PackratCpp.Proofs.Nodes

namespace PackratCpp

namespace Rule

/-- The rules that should end with a terminator: declarations, statements, and what these end with. -/
def isTerminated : Rule → Bool
  | .declaration | .blockDeclaration | .simpleDeclaration | .namespaceAliasDefinition |
    .usingDeclaration | .usingDirective | .staticAssertDeclaration | .opaqueEnumDeclaration |
    .asmDefinition | .emptyDeclaration | .attributeDeclaration | .vcAtlDeclaration |
    .functionDefinition | .functionBody | .functionTryBlock | .templateDeclaration |
    .cliGenericDeclaration | .explicitInstantiation | .explicitSpecialization |
    .linkageSpecification | .namespaceDefinition | .namedNamespaceDefinition |
    .originalNamespaceDefinition | .extensionNamespaceDefinition | .unnamedNamespaceDefinition |
    .namespaceBlock | .statement | .labeledStatement | .expressionStatement | .emptyStatement |
    .compoundStatement | .ifStatement | .switchStatement | .switchBlockStatementGroups |
    .iterationStatement | .jumpStatement | .declarationStatement | .tryBlock | .handlerSeq |
    .handler | .cliFinallyClause => true
  | _ => false

/-- Whether a rule may stand at the end of another one that should end with a terminator. -/
def mayEnd (r : Rule) : Bool :=
  r.isTerminated || r = .aliasDeclaration

end Rule

/-- The spellings that end declarations and statements. -/
def terminators : List String :=
  [";", "\x7d"]

namespace Expr

mutual

/-- Whether whatever an expression spans ends with a terminator, or with a rule that may end it. -/
def endsWell : Expr → Bool
  | .token (.text s) => s ∈ terminators
  | .token _ | .anyToken => false
  | .rule r => r.mayEnd
  | .seq items => lastEndsWell items
  | .choice alternatives => allEndWell alternatives
  | .option body | .star body | .plus body => endsWell body
  | .followedBy _ | .notFollowedBy _ | .epsilon | .never => true

/-- The same for a sequence: an item counts if those behind it may all be empty. -/
def lastEndsWell : List Expr → Bool
  | [] => true
  | e :: es => lastEndsWell es && (endsWell e || !mayAllBeEmpty Rule.mayBeEmpty es)

/-- The same for each of some expressions. -/
def allEndWell : List Expr → Bool
  | [] => true
  | e :: es => endsWell e && allEndWell es

end

theorem endsWell_of_mem {e : Expr} {es : List Expr} (h : allEndWell es = true) (hm : e ∈ es) :
    e.endsWell = true :=
  check_of_mem (fun _ _ => by rw [allEndWell]) h hm

end Expr

/-- Whether whatever a task spans ends with a terminator, or with a rule that may end it. -/
def Task.endsWell : Task → Bool
  | .expr e | .turns e => e.endsWell
  | .items es => Expr.lastEndsWell es
  | .alternatives es => Expr.allEndWell es

/-- A grammar whose declarations and statements end as they should. -/
structure Grammar.Terminates (g : Grammar) : Prop where
  empty_of : ∀ r production, g.find? r = some production →
    production.body.mayBeEmpty Rule.mayBeEmpty = true → r.mayBeEmpty = true
  body : ∀ {r production}, g.find? r = some production → r.isTerminated = true →
    production.body.endsWell = true
  kept : ∀ {production}, g.find? .aliasDeclaration = some production → production.collapse = false

/-- The last token before a place is a terminator. -/
def TokenStream.TerminatedAt (s : TokenStream) (stop : Nat) : Prop :=
  ∃ t, s.get? (stop - 1) = some t ∧ t.text ∈ terminators

/-- An alias declaration among some trees, or inside them, ends at a place. -/
def Tree.AliasEnds (trees : List Tree) (stop : Nat) : Prop :=
  ∃ u ∈ preorderAll trees, u.rule? = some .aliasDeclaration ∧ u.stop = stop

section
variable {g : Grammar} {tokens : TokenStream}

namespace Tree.AliasEnds

variable {ts us : List Tree} {stop : Nat}

theorem append_left (h : AliasEnds ts stop) : AliasEnds (ts ++ us) stop := by
  obtain ⟨u, hu, halias⟩ := h
  exact ⟨u, by rw [preorderAll_append]; exact List.mem_append_left _ hu, halias⟩

theorem append_right (h : AliasEnds us stop) : AliasEnds (ts ++ us) stop := by
  obtain ⟨u, hu, halias⟩ := h
  exact ⟨u, by rw [preorderAll_append]; exact List.mem_append_right _ hu, halias⟩

theorem node (h : AliasEnds ts stop) (production : Production) (q : Rule) (p stop' : Nat) :
    AliasEnds [production.node q p stop' ts] stop := by
  rcases production.node_cases q p stop' ts with heq | heq
  · rwa [← heq]
  · obtain ⟨u, hu, halias⟩ := h
    rw [heq]
    exact ⟨u, List.mem_append_left _ (List.mem_cons_of_mem _ hu), halias⟩

end Tree.AliasEnds

/-- **What should end with a terminator does**, unless an alias declaration ends there.  In a sequence
and in a repetition, the last part that spans anything decides. -/
theorem Yields.endsWell (hg : g.Terminates) {t : Task} {p stop : Nat} {trees : List Tree}
    (h : Yields g tokens t p stop trees) (ht : t.endsWell = true) (hlt : p < stop) :
    tokens.TerminatedAt stop ∨ Tree.AliasEnds trees stop := by
  induction h with
  | @token test p u hu ha =>
    cases test with
    | text s =>
      have hs : s ∈ terminators := of_decide_eq_true ht
      simp only [Terminal.accepts, Bool.and_eq_true, beq_iff_eq] at ha
      exact Or.inl ⟨u, hu, by rw [ha.2]; exact hs⟩
    | keyword | kind => cases ht
  | anyToken => cases ht
  | @rule q production p stop trees hf h ih =>
    rw [Production.tree?, if_neg (by omega), Option.toList_some]
    have hq : q.isTerminated = true ∨ q = .aliasDeclaration := by
      simpa [Task.endsWell, Expr.endsWell, Rule.mayEnd] using ht
    rcases hq with hq | rfl
    · exact (ih (hg.body hf hq) hlt).imp_right fun halias => halias.node production q p stop
    · rw [Production.node_of_not_collapse (by simp [hg.kept hf])]
      exact Or.inr ⟨_, List.mem_cons_self .., rfl, rfl⟩
  | seq _ ih | choice _ ih | option _ ih | star _ ih => exact ih ht hlt
  | alternatives hm _ ih => exact ih (Expr.endsWell_of_mem ht hm) hlt
  | @itemsNext e es p q ts stop us h₁ h₂ ih₁ ih₂ =>
    obtain ⟨hrest, hfirst⟩ := Bool.and_eq_true_iff.1 ht
    have hle := h₂.le
    rcases h₂.lt_or_mayBeEmpty hg.empty_of with hq | hempty
    · exact (ih₂ hrest hq).imp_right .append_right
    · by_cases hq : q < stop
      · exact (ih₂ hrest hq).imp_right .append_right
      · have heq : q = stop := by omega
        subst heq
        rcases Bool.or_eq_true_iff.1 hfirst with hfirst | hne
        · exact (ih₁ hfirst hlt).imp_right .append_left
        · rw [show Expr.mayAllBeEmpty Rule.mayBeEmpty es = true from hempty] at hne
          cases hne
  | @plus e p q ts stop us h₁ h₂ ih₁ ih₂ | @turnsNext e p q ts stop us h₁ h₂ ih₁ ih₂ =>
    have hle := h₂.le
    by_cases hq : q < stop
    · exact (ih₂ ht hq).imp_right .append_right
    · have heq : q = stop := by omega
      subst heq
      exact (ih₁ ht hlt).imp_right .append_left
  | itemsDone | optionSkip | plusEmpty | turnsDone | followedBy | notFollowedBy | epsilon =>
    exact absurd hlt (Nat.lt_irrefl _)

end

/-! ## The grammar of every dialect -/

/-- Whether the body of a rule ends as it should. -/
def GrammarStep.endsWell : GrammarStep → Bool
  | .define rule body collapse =>
    (!rule.isTerminated || body.endsWell) && (rule ≠ .aliasDeclaration || !collapse)
  | .mock _ => false

namespace Dialect

theorem all_endsWell : ∀ recovery gnu managed atl : Bool,
    stepsPass recovery ⟨gnu, managed, atl⟩ (·.endsWell) = true := by
  decide +kernel

/-- **Declarations and statements end as they should in the grammar of every dialect.** -/
theorem terminates (d : Dialect) : (d.grammar []).Terminates := by
  have hstep : ∀ {r production}, (d.grammar []).find? r = some production →
      (!r.isTerminated || production.body.endsWell) = true ∧
        (r ≠ .aliasDeclaration || !production.collapse) = true := by
    intro r production hf
    exact Bool.and_eq_true_iff.1 (check_of_find? all_endsWell hf)
  constructor
  case empty_of => exact (d.ranked []).empty_of
  case body =>
    intro r production hf hr
    simpa [hr] using (hstep hf).1
  case kept =>
    intro production hf
    simpa using (hstep hf).2

end Dialect

namespace Grammar

/-- **Every declaration and every statement is terminated**, unless it ends with an alias declaration.
In every dialect, whatever the root rule and the limit on depth, each of them spans some tokens in a
finished parse, and the last one is `;` or a closing brace. -/
theorem standard_terminated (d : Dialect) : ∃ g, standard? d [] = .ok g ∧
    ∀ (tokens : TokenStream) (root : Rule) (maxDepth? : Option Nat) (r : Parse),
      g.parse tokens root maxDepth? = .ok r →
      ∀ q start stop children, .node q start stop children ∈ r.tree.preorder →
        q = .declaration ∨ q = .statement →
        start < stop ∧
          ((∃ t, tokens.lastBetween? start stop = some t ∧ (t.text = ";" ∨ t.text = "\x7d")) ∨
            ∃ u ∈ Tree.preorderAll children, u.rule? = some .aliasDeclaration ∧ u.stop = stop) := by
  refine ⟨_, standard?_eq d [], fun tokens root maxDepth? r hr => ?_⟩
  intro q start stop children hm hq
  obtain ⟨-, production, hf, h⟩ := node_of_parse (Yields.closed _ tokens) hr hm
  have hlt : start < stop := by
    refine (h.lt_or_mayBeEmpty d.terminates.empty_of).resolve_right fun hempty => ?_
    have hrule := d.terminates.empty_of q production hf hempty
    rcases hq with rfl | rfl <;> cases hrule
  have hterminated : q.isTerminated = true := by
    rcases hq with rfl | rfl <;> rfl
  refine ⟨hlt, (h.endsWell d.terminates (d.terminates.body hf hterminated) hlt).imp_left ?_⟩
  rintro ⟨t, ht, htext⟩
  refine ⟨t, ?_, by simpa [terminators] using htext⟩
  rw [TokenStream.lastBetween?, if_pos hlt, ht]

/-- `{ using t = int; }`. -/
def aliasInBlock : TokenStream :=
  .terminated [⟨.punctuator, "\x7b", 1, 1, 0⟩, ⟨.keyword, "using", 1, 3, 2⟩,
    ⟨.identifier, "t", 1, 9, 8⟩, ⟨.punctuator, "=", 1, 11, 10⟩, ⟨.keyword, "int", 1, 13, 12⟩,
    ⟨.punctuator, ";", 1, 16, 15⟩, ⟨.punctuator, "\x7d", 1, 18, 17⟩] ⟨.eof, "", 1, 19, 18⟩

/-- The block ends with its brace, and the first statement in it with the alias declaration.  The semicolon
is a statement of its own. -/
theorem aliasInBlock_terminated :
    ∃ g, standard? .standard [] = .ok g ∧ ∃ r, g.parse aliasInBlock .statement none = .ok r ∧
      (∃ children, .node .statement 1 5 children ∈ r.tree.preorder ∧
        ∃ u ∈ Tree.preorderAll children, u.rule? = some .aliasDeclaration ∧ u.stop = 5) ∧
      ∃ children, .node .statement 5 6 children ∈ r.tree.preorder ∧
        ∃ t, aliasInBlock.lastBetween? 5 6 = some t ∧ (t.text = ";" ∨ t.text = "\x7d") := by
  have hforecast : (Dialect.standard.forecast aliasInBlock .statement).map (·.map fun t =>
      (t.preorder.filter fun u => u.rule? = some .statement).map fun u => (u.start, u.stop,
        (Tree.preorderAll u.children).any fun u => u.rule? = some .aliasDeclaration)) =
      some (some [(0, 7, true), (1, 5, true), (5, 6, false)]) := by decide +kernel
  obtain ⟨r, hr, hspans⟩ := Dialect.parse_of_forecast_map hforecast
  obtain ⟨g, hg, hterminated⟩ := standard_terminated .standard
  cases (standard?_eq _ _).symm.trans hg
  have hnode : ∀ start stop contains,
      (start, stop, contains) ∈ [(0, 7, true), (1, 5, true), (5, 6, false)] →
      ∃ children, .node .statement start stop children ∈ r.tree.preorder ∧
        (Tree.preorderAll children).any (fun u => u.rule? = some .aliasDeclaration) = contains := by
    intro start stop contains hm
    rw [← hspans] at hm
    obtain ⟨u, hu, hspan⟩ := List.mem_map.1 hm
    obtain ⟨hu, hrule⟩ := List.mem_filter.1 hu
    cases u with
    | leaf => cases of_decide_eq_true hrule
    | node q s e children =>
      cases Option.some.inj (of_decide_eq_true hrule)
      cases hspan
      exact ⟨_, hu, rfl⟩
  obtain ⟨children, hm, -⟩ := hnode 1 5 true (by decide)
  obtain ⟨children', hm', hnone⟩ := hnode 5 6 false (by decide)
  refine ⟨_, hg, r, hr, ⟨children, hm, ?_⟩, children', hm', ?_⟩
  · refine (hterminated _ _ _ r hr _ _ _ _ hm (Or.inr rfl)).2.resolve_left ?_
    rintro ⟨t, ht, htext⟩
    cases ht
    revert htext
    decide
  · refine (hterminated _ _ _ r hr _ _ _ _ hm' (Or.inr rfl)).2.resolve_right ?_
    rintro ⟨u, hu, hrule, -⟩
    exact List.any_eq_false.1 hnone u hu (decide_eq_true hrule)

/-- An alias declaration without a semicolon. -/
def unterminatedAlias : TokenStream :=
  .terminated [⟨.keyword, "using", 1, 1, 0⟩, ⟨.identifier, "X", 1, 7, 6⟩, ⟨.punctuator, "=", 1, 9, 8⟩,
    ⟨.keyword, "int", 1, 11, 10⟩] ⟨.eof, "", 1, 14, 13⟩

/-- **An alias declaration is read without its semicolon.**  The translation unit has a declaration
whose last token is the type. -/
theorem alias_unterminated :
    ∃ g, standard? .standard [] = .ok g ∧
      ∃ r, g.parse unterminatedAlias .translationUnit (some 1000) = .ok r ∧
        ∃ u ∈ r.tree.preorder, u.rule? = some .declaration ∧
          ∃ t, unterminatedAlias.lastBetween? u.start u.stop = some t ∧ t.text = "int" := by
  have hread : (Dialect.standard.lookup.parse unterminatedAlias .translationUnit
      (some 1000)).toOption.map (fun r => (r.tree.preorder.filter fun u =>
        u.rule? = some .declaration).map fun u => (u.start, u.stop)) = some [(0, 4)] := by
    decide +kernel
  obtain ⟨r, hr, hspans⟩ := Dialect.standard.parse_of_lookup hread
  obtain ⟨u, us, hu, hspan, -⟩ := List.map_eq_cons_iff.1 hspans
  obtain ⟨hm, hrule⟩ := List.mem_filter.1 (hu ▸ List.mem_cons_self .. : u ∈ _)
  simp only [Prod.mk.injEq] at hspan
  refine ⟨_, standard?_eq _ _, r, hr, u, hm, of_decide_eq_true hrule, ?_⟩
  rw [hspan.1, hspan.2]
  exact ⟨⟨.keyword, "int", 1, 11, 10⟩, rfl, rfl⟩

end Grammar

end PackratCpp
