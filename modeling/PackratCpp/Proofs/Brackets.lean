/-
  Brackets match in what is read.

  * `BracketKind.step`, `WellNested`: brackets are matched with a stack, which is empty before and after.
    `WellNested.matchBrackets_eq`: what is well nested leaves any stack alone.
  * `Expr.balanced`: whether an expression spans well nested tokens, given that rules do.  Within a
    sequence, the brackets that are open are kept on a stack (`Expr.nestItems`), and any token may be
    taken where a lookahead has ruled the brackets out.
  * `Grammar.Balanced`: the bodies of all rules pass the check, but for those that take tokens as they
    come (`Rule.isRaw`).  `Dialect.balanced`: so they do in every dialect.
  * `Judgment.nests_closed`: then whatever is matched without these rules is well nested.
  * `Grammar.standard_wellNested`: so is every node of a finished parse that has none of them inside.
-/
import PackratCpp.Proofs.Lookup
import PackratCpp.Proofs.Nodes

namespace PackratCpp

/-! ## Brackets -/

/-- The three pairs of brackets. -/
inductive BracketKind where
  | round
  | square
  | curly
  deriving DecidableEq

namespace BracketKind

/-- The bracket that a spelling opens. -/
def opened? : String → Option BracketKind
  | "(" => some .round
  | "[" => some .square
  | "\x7b" => some .curly
  | _ => none

/-- The bracket that a spelling closes. -/
def closed? : String → Option BracketKind
  | ")" => some .round
  | "]" => some .square
  | "\x7d" => some .curly
  | _ => none

/-- The spellings of brackets. -/
def spellings : List String :=
  ["(", ")", "[", "]", "\x7b", "\x7d"]

/-- Matches one spelling: a bracket that is opened goes on the stack, one that is closed has to be on
top of it. -/
def step (stack : List BracketKind) (s : String) : Option (List BracketKind) :=
  match opened? s, closed? s, stack with
  | some b, _, _ => some (b :: stack)
  | none, none, _ => some stack
  | none, some b, top :: rest => if b = top then some rest else none
  | none, some _, [] => none

theorem step_of_notMem {s : String} (h : s ∉ spellings) (stack : List BracketKind) :
    step stack s = some stack := by
  have hopened : opened? s = none := by
    unfold opened?
    split <;> first | rfl | exact absurd (by decide) h
  have hclosed : closed? s = none := by
    unfold closed?
    split <;> first | rfl | exact absurd (by decide) h
  simp only [step, hopened, hclosed]

theorem step_append {s : String} {stack stack' : List BracketKind} (h : step stack s = some stack')
    (below : List BracketKind) : step (stack ++ below) s = some (stack' ++ below) := by
  unfold step at h ⊢
  cases hopened : opened? s with
  | some b =>
    simp only [hopened, Option.some.injEq] at h ⊢
    rw [← h, List.cons_append]
  | none =>
    cases hclosed : closed? s with
    | none =>
      simp only [hopened, hclosed, Option.some.injEq] at h ⊢
      rw [h]
    | some b =>
      cases stack with
      | nil => simp [hopened, hclosed] at h
      | cons top rest =>
        simp only [hopened, hclosed, List.cons_append] at h ⊢
        split_ifs at h ⊢ with hb
        cases h
        rfl

end BracketKind

open BracketKind

/-- Matches the spellings of some tokens. -/
def matchBrackets (stack : List BracketKind) (tokens : List Token) : Option (List BracketKind) :=
  (tokens.map (·.text)).foldlM step stack

/-- The brackets among some tokens match. -/
def WellNested (tokens : List Token) : Prop :=
  matchBrackets [] tokens = some []

instance (tokens : List Token) : Decidable (WellNested tokens) :=
  inferInstanceAs (Decidable (_ = _))

section
variable {stack stack' : List BracketKind} {ts us : List Token}

theorem matchBrackets_cons (stack : List BracketKind) (t : Token) (ts : List Token) :
    matchBrackets stack (t :: ts) =
      (step stack t.text).bind fun stack' => matchBrackets stack' ts := rfl

theorem matchBrackets_append (stack : List BracketKind) (ts us : List Token) :
    matchBrackets stack (ts ++ us) =
      (matchBrackets stack ts).bind fun stack' => matchBrackets stack' us := by
  rw [matchBrackets, List.map_append, List.foldlM_append]
  rfl

theorem matchBrackets_below (h : matchBrackets stack ts = some stack') (below : List BracketKind) :
    matchBrackets (stack ++ below) ts = some (stack' ++ below) := by
  induction ts generalizing stack with
  | nil =>
    cases h
    rfl
  | cons t ts ih =>
    rw [matchBrackets_cons, Option.bind_eq_some_iff] at h
    obtain ⟨stack₁, hstep, hrest⟩ := h
    rw [matchBrackets_cons, step_append hstep, Option.bind_some]
    exact ih hrest

theorem WellNested.matchBrackets_eq (h : WellNested ts) (stack : List BracketKind) :
    matchBrackets stack ts = some stack :=
  matchBrackets_below h stack

theorem WellNested.nil : WellNested [] := rfl

theorem WellNested.append (h : WellNested ts) (h' : WellNested us) : WellNested (ts ++ us) := by
  rw [WellNested, matchBrackets_append, h, Option.bind_some]
  exact h'

theorem WellNested.single {t : Token} (h : t.text ∉ spellings) : WellNested [t] := by
  rw [WellNested, matchBrackets_cons, step_of_notMem h]
  rfl

end

/-! ## Expressions that span well nested tokens -/

/-- The rules that take tokens as they come. -/
def Rule.isRaw : Rule → Bool
  | .asmDefinition | .vcAtlAttribute | .recoveredDeclaration => true
  | _ => false

/-- Whether a failure of an expression rules out that a bracket comes next. -/
def Expr.sparesBrackets (e : Expr) : Bool :=
  spellings.all fun s => .text s ∈ (Task.expr e).tests

namespace Expr

mutual

/-- Whether an expression spans well nested tokens, if rules do. -/
def balanced : Expr → Bool
  | .token (.text s) => s ∉ spellings
  | .token (.kind k) => k ≠ .punctuator
  | .token (.keyword _) => true
  | .anyToken => false
  | .seq items => nestItems false [] items
  | .choice alternatives => allBalanced alternatives
  | .option body | .star body | .plus body => balanced body
  | .rule _ | .followedBy _ | .notFollowedBy _ | .epsilon | .never => true

/-- Whether a sequence closes what is on the stack.  Brackets are known not to come next if `spared`. -/
def nestItems (spared : Bool) (stack : List BracketKind) : List Expr → Bool
  | [] => stack.isEmpty
  | e :: es =>
    match e with
    | .token (.text s) =>
      match step stack s with
      | some stack' => nestItems false stack' es
      | none => false
    | .anyToken => spared && nestItems false stack es
    | .notFollowedBy body => nestItems (spared || sparesBrackets body) stack es
    | e => balanced e && nestItems false stack es

/-- Whether each of some expressions spans well nested tokens. -/
def allBalanced : List Expr → Bool
  | [] => true
  | e :: es => balanced e && allBalanced es

end

end Expr

/-! ## Matches are well nested -/

namespace TokenStream

/-- Every token that is spelled like a bracket is a punctuator. -/
def PunctuatesBrackets (s : TokenStream) : Prop :=
  ∀ i t, s.get? i = some t → t.text ∈ spellings → t.kind = .punctuator

/-- There is no bracket at a place. -/
def FreeAt (s : TokenStream) (i : Nat) : Prop :=
  ∀ t, s.get? i = some t → t.isEof = false → t.text ∉ spellings

end TokenStream

section
variable {g : Grammar} {tokens : TokenStream}

/-- What a match of an expression tells about the next token. -/
def Expr.Tells (tokens : TokenStream) (p stop : Nat) : Expr → Prop
  | .token (.text s) => stop = p + 1 ∧ ∃ t, tokens.get? p = some t ∧ t.text = s
  | .anyToken => stop = p + 1 ∧ ∃ t, tokens.get? p = some t ∧ t.isEof = false
  | .notFollowedBy e => stop = p ∧ (e.sparesBrackets = true → tokens.FreeAt p)
  | _ => True

/-- The brackets that a task spans match, if it passes the check. -/
def Task.Nests (tokens : TokenStream) (p stop : Nat) : Task → Prop
  | .expr e => e.Tells tokens p stop ∧ (e.balanced = true → WellNested (tokens.between p stop))
  | .items es => ∀ spared stack, Expr.nestItems spared stack es = true →
      (spared = true → tokens.FreeAt p) → matchBrackets stack (tokens.between p stop) = some []
  | .alternatives es => Expr.allBalanced es = true → WellNested (tokens.between p stop)
  | .turns e => e.balanced = true → WellNested (tokens.between p stop)

/-- No rule that takes tokens as they come has a node in some trees. -/
def Tree.NoneRaw (trees : List Tree) : Prop :=
  RulesWithin (fun q => !q.isRaw) trees

/-- The brackets of a match that has no raw node match, if its task passes the check. -/
def Judgment.nests (tokens : TokenStream) : Judgment := fun t p stop trees =>
  p ≤ stop ∧ (Tree.NoneRaw trees → t.Nests tokens p stop)

theorem Tree.NoneRaw.of_append {ts us : List Tree} (h : NoneRaw (ts ++ us)) :
    NoneRaw ts ∧ NoneRaw us := by
  constructor
  · intro t ht
    exact h t (by rw [preorderAll_append]; exact List.mem_append_left _ ht)
  · intro t ht
    exact h t (by rw [preorderAll_append]; exact List.mem_append_right _ ht)

/-- A grammar whose rules are balanced, but for those that take tokens as they come. -/
structure Grammar.Balanced (g : Grammar) : Prop where
  body : ∀ {q production}, g.find? q = some production → q.isRaw = false →
    production.body.balanced = true
  kept : ∀ {q production}, g.find? q = some production → q.isRaw = true →
    production.collapse = false

theorem Grammar.Balanced.noneRaw (hg : g.Balanced) {q : Rule} {production : Production}
    (hf : g.find? q = some production) {p stop : Nat} {trees : List Tree}
    (h : Tree.NoneRaw [production.node q p stop trees]) : q.isRaw = false ∧ Tree.NoneRaw trees := by
  have hnode : ∀ {r s e cs}, Tree.NoneRaw [.node r s e cs] → r.isRaw = false := by
    intro r s e cs hnone
    simpa using hnone (.node r s e cs) (List.mem_cons_self ..) r rfl
  constructor
  · by_contra hraw
    have hkept := hg.kept hf (Bool.eq_true_of_not_eq_false hraw)
    rw [Production.node_of_not_collapse (by simp [hkept])] at h
    exact hraw (hnode h)
  · rcases production.node_cases q p stop trees with heq | heq
    · rw [heq]
      exact h
    · rw [heq] at h
      intro t ht
      exact h t (List.mem_append_left _ (List.mem_cons_of_mem _ ht))

theorem wellNested_between {p q r : Nat} (hpq : p ≤ q) (hqr : q ≤ r)
    (h : WellNested (tokens.between p q)) (h' : WellNested (tokens.between q r)) :
    WellNested (tokens.between p r) := by
  rw [← TokenStream.between_append hpq hqr]
  exact h.append h'

theorem wellNested_between_self (tokens : TokenStream) (p : Nat) :
    WellNested (tokens.between p p) := by
  rw [TokenStream.between_self]
  exact .nil

theorem Terminal.notMem_spellings {test : Terminal} {t : Token} (ha : test.accepts t = true)
    (hkind : t.text ∈ spellings → t.kind = .punctuator)
    (hbalanced : (Expr.token test).balanced = true) : t.text ∉ spellings := by
  intro hbracket
  have hkind := hkind hbracket
  cases test with
  | text s =>
    simp only [accepts, Bool.and_eq_true, beq_iff_eq] at ha
    rw [ha.2] at hbracket
    simp [Expr.balanced, hbracket] at hbalanced
  | keyword w => simp [accepts, hkind] at ha
  | kind k =>
    simp only [accepts, beq_iff_eq] at ha
    simp [Expr.balanced, ← ha, hkind] at hbalanced

theorem Task.Nests.items_cons {e : Expr} {es : List Expr} {p q stop : Nat} (hpq : p ≤ q)
    (hqs : q ≤ stop) (h : (Task.expr e).Nests tokens p q) (h' : (Task.items es).Nests tokens q stop) :
    (Task.items (e :: es)).Nests tokens p stop := by
  intro spared stack hcheck hfree
  rw [← TokenStream.between_append hpq hqs, matchBrackets_append]
  obtain ⟨htells, hnested⟩ := h
  unfold Expr.nestItems at hcheck
  split at hcheck
  · -- a spelling, which may be a bracket
    next s =>
    obtain ⟨rfl, t, ht, rfl⟩ := htells
    split at hcheck
    · next stack' hstep =>
      have hone : matchBrackets stack (tokens.between p (p + 1)) = some stack' := by
        rw [TokenStream.between_succ ht, matchBrackets_cons, hstep]
        rfl
      rw [hone, Option.bind_some]
      exact h' false stack' hcheck fun h => nomatch h
    · cases hcheck
  · -- any token, behind a lookahead that has ruled the brackets out
    obtain ⟨rfl, t, ht, heof⟩ := htells
    obtain ⟨hspared, hrest⟩ := Bool.and_eq_true_iff.1 hcheck
    have hone : WellNested (tokens.between p (p + 1)) := by
      rw [TokenStream.between_succ ht]
      exact .single (hfree hspared t ht heof)
    rw [hone.matchBrackets_eq, Option.bind_some]
    exact h' false stack hrest fun h => nomatch h
  · next body =>
    obtain ⟨rfl, hbody⟩ := htells
    rw [(wellNested_between_self tokens q).matchBrackets_eq, Option.bind_some]
    refine h' _ stack hcheck fun hspared => ?_
    exact (Bool.or_eq_true_iff.1 hspared).elim hfree hbody
  · -- anything else leaves the stack alone
    obtain ⟨hbalanced, hrest⟩ := Bool.and_eq_true_iff.1 hcheck
    rw [(hnested hbalanced).matchBrackets_eq, Option.bind_some]
    exact h' false stack hrest fun h => nomatch h

/-- **Brackets match in every match**, if they do in the bodies of the rules. -/
theorem Judgment.nests_closed (hg : g.Balanced) (htokens : tokens.PunctuatesBrackets) :
    (Judgment.nests tokens).Closed g tokens := by
  have hempty := wellNested_between_self tokens
  constructor
  case token =>
    intro test p t ht ha
    refine ⟨Nat.le_succ p, fun _ => ⟨?_, fun hbalanced => ?_⟩⟩
    · cases test with
      | text s =>
        simp only [Terminal.accepts, Bool.and_eq_true, beq_iff_eq] at ha
        exact ⟨rfl, t, ht, ha.2⟩
      | keyword | kind => trivial
    · rw [TokenStream.between_succ ht]
      exact .single (test.notMem_spellings ha (htokens p t ht) hbalanced)
  case anyToken =>
    intro p t ht he
    exact ⟨Nat.le_succ p, fun _ => ⟨⟨rfl, t, ht, he⟩, fun h => absurd h Bool.false_ne_true⟩⟩
  case rule =>
    intro q production p stop trees hf h
    refine ⟨h.1, fun hraw => ⟨trivial, fun _ => ?_⟩⟩
    unfold Production.tree? at hraw
    split_ifs at hraw with hstop
    · rw [hstop]
      exact hempty p
    · obtain ⟨hq, htrees⟩ := hg.noneRaw hf hraw
      exact (h.2 htrees).2 (hg.body hf hq)
  case seq =>
    intro es p stop trees h
    exact ⟨h.1, fun hraw => ⟨trivial, fun hbalanced =>
      h.2 hraw false [] hbalanced fun h => absurd h Bool.false_ne_true⟩⟩
  case itemsDone =>
    intro p
    refine ⟨Nat.le_refl p, fun _ spared stack hstack _ => ?_⟩
    rw [TokenStream.between_self, List.isEmpty_iff.1 hstack]
    rfl
  case itemsNext =>
    intro e es p q trees stop trees' h h'
    refine ⟨Nat.le_trans h.1 h'.1, fun hraw => ?_⟩
    obtain ⟨hraw₁, hraw₂⟩ := hraw.of_append
    exact (h.2 hraw₁).items_cons h.1 h'.1 (h'.2 hraw₂)
  case choice =>
    intro es p stop trees h
    exact ⟨h.1, fun hraw => ⟨trivial, h.2 hraw⟩⟩
  case alternativesTake =>
    intro e es p stop trees h
    exact ⟨h.1, fun hraw hbalanced => (h.2 hraw).2 (Bool.and_eq_true_iff.1 hbalanced).1⟩
  case alternativesNext =>
    intro e es p stop trees h
    exact ⟨h.1, fun hraw hbalanced => h.2 hraw (Bool.and_eq_true_iff.1 hbalanced).2⟩
  case option =>
    intro e p stop trees h
    exact ⟨h.1, fun hraw => ⟨trivial, (h.2 hraw).2⟩⟩
  case star =>
    intro e p stop trees h
    exact ⟨h.1, fun hraw => ⟨trivial, h.2 hraw⟩⟩
  case plus =>
    intro e p q trees stop trees' h h'
    refine ⟨Nat.le_trans h.1 h'.1, fun hraw => ⟨trivial, fun hbalanced => ?_⟩⟩
    obtain ⟨hraw₁, hraw₂⟩ := hraw.of_append
    exact wellNested_between h.1 h'.1 ((h.2 hraw₁).2 hbalanced) (h'.2 hraw₂ hbalanced)
  case turnsNext =>
    intro e p q trees stop trees' h h'
    refine ⟨Nat.le_trans h.1 h'.1, fun hraw hbalanced => ?_⟩
    obtain ⟨hraw₁, hraw₂⟩ := hraw.of_append
    exact wellNested_between h.1 h'.1 ((h.2 hraw₁).2 hbalanced) (h'.2 hraw₂ hbalanced)
  case turnsDone =>
    intro e p
    exact ⟨Nat.le_refl p, fun _ _ => hempty p⟩
  case optionSkip =>
    intro e p
    exact ⟨Nat.le_refl p, fun _ => ⟨trivial, fun _ => hempty p⟩⟩
  case plusEmpty | followedBy =>
    intros
    exact ⟨Nat.le_refl _, fun _ => ⟨trivial, fun _ => hempty _⟩⟩
  case epsilon =>
    intro p
    exact ⟨Nat.le_refl p, fun _ => ⟨trivial, fun _ => hempty p⟩⟩
  case notFollowedBy =>
    intro e p htests
    refine ⟨Nat.le_refl p, fun _ => ⟨⟨rfl, fun hspares t ht heof hbracket => ?_⟩, fun _ => hempty p⟩⟩
    have hmem := of_decide_eq_true (List.all_eq_true.1 hspares _ hbracket)
    have hrefused := htests _ hmem t ht
    simp [Terminal.accepts, heof] at hrefused

end

/-! ## The grammar of every dialect -/

/-- Whether the body of a rule is balanced, unless the rule takes tokens as they come. -/
def GrammarStep.isBalanced : GrammarStep → Bool
  | .define rule body collapse => if rule.isRaw then !collapse else body.balanced
  | .mock _ => false

namespace Dialect

theorem all_isBalanced : ∀ recovery gnu managed atl : Bool,
    stepsPass recovery ⟨gnu, managed, atl⟩ (·.isBalanced) = true := by
  decide +kernel

/-- **The grammar of every dialect is balanced.** -/
theorem balanced (d : Dialect) : (d.grammar []).Balanced := by
  have hstep : ∀ {q production}, (d.grammar []).find? q = some production →
      (if q.isRaw then !production.collapse else production.body.balanced) = true :=
    fun hf => check_of_find? all_isBalanced hf
  constructor
  case body =>
    intro q production hf hq
    simpa [hq] using hstep hf
  case kept =>
    intro q production hf hq
    simpa [hq] using hstep hf

end Dialect

namespace Grammar

/-- **Only code whose brackets match is read.**  In every dialect, whatever the root rule and the limit
on depth, and as long as every token that is spelled like a bracket is a punctuator: the tokens of each
node of a finished parse are well nested, unless there is a node inside of one of the three rules that
take tokens as they come. -/
theorem standard_wellNested (d : Dialect) : ∃ g, standard? d [] = .ok g ∧
    ∀ (tokens : TokenStream) (root : Rule) (maxDepth? : Option Nat) (r : Parse),
      tokens.PunctuatesBrackets → g.parse tokens root maxDepth? = .ok r →
      ∀ q start stop children, .node q start stop children ∈ r.tree.preorder →
        (∀ u ∈ (Tree.node q start stop children).preorder, u.rule? ≠ some .asmDefinition ∧
          u.rule? ≠ some .vcAtlAttribute ∧ u.rule? ≠ some .recoveredDeclaration) →
        WellNested (tokens.between start stop) := by
  refine ⟨_, standard?_eq d [], fun tokens root maxDepth? r htokens hr => ?_⟩
  intro q start stop children hm hnone
  obtain ⟨-, production, hf, h⟩ := node_of_parse (Judgment.nests_closed d.balanced htokens) hr hm
  have hraw : ∀ u ∈ (Tree.node q start stop children).preorder, ∀ s, u.rule? = some s →
      s.isRaw = false := by
    intro u hu s hs
    obtain ⟨hasm, hatl, hskipped⟩ := hnone u hu
    rw [hs] at hasm hatl hskipped
    unfold Rule.isRaw
    split <;> first | rfl | contradiction
  have hchildren : Tree.NoneRaw children := by
    intro u hu s hs
    simp [hraw u (List.mem_cons_of_mem _ hu) s hs]
  exact (h.2 hchildren).2 (d.balanced.body hf (hraw _ (List.mem_cons_self ..) q rfl))

/-- An attribute with brackets in its argument. -/
def bracketedAttribute : TokenStream :=
  .terminated [⟨.punctuator, "[", 1, 1, 0⟩, ⟨.punctuator, "[", 1, 2, 1⟩, ⟨.identifier, "a", 1, 3, 2⟩,
    ⟨.punctuator, "(", 1, 4, 3⟩, ⟨.identifier, "b", 1, 5, 4⟩, ⟨.punctuator, "[", 1, 6, 5⟩,
    ⟨.punctuator, "]", 1, 7, 6⟩, ⟨.punctuator, ")", 1, 8, 7⟩, ⟨.punctuator, "]", 1, 9, 8⟩,
    ⟨.punctuator, "]", 1, 10, 9⟩] ⟨.eof, "", 1, 11, 10⟩

/-- It is read, and its brackets match. -/
theorem bracketedAttribute_wellNested :
    ∃ g, standard? .standard [] = .ok g ∧ bracketedAttribute.PunctuatesBrackets ∧
      ∃ r, g.parse bracketedAttribute .attributeSpecifier (some 100) = .ok r ∧
        ∃ children, .node .attributeSpecifier 0 10 children ∈ r.tree.preorder ∧
          (∀ u ∈ (Tree.node .attributeSpecifier 0 10 children).preorder,
            u.rule? ≠ some .asmDefinition ∧ u.rule? ≠ some .vcAtlAttribute ∧
              u.rule? ≠ some .recoveredDeclaration) ∧
          WellNested (bracketedAttribute.between 0 10) := by
  have hread : (Dialect.standard.lookup.parse bracketedAttribute .attributeSpecifier
      (some 100)).toOption.map (fun r => (r.tree.rule?, r.tree.start, r.tree.stop,
        r.tree.preorder.all fun u => u.rule? ≠ some .asmDefinition ∧
          u.rule? ≠ some .vcAtlAttribute ∧ u.rule? ≠ some .recoveredDeclaration)) =
      some (some .attributeSpecifier, 0, 10, true) := by decide +kernel
  have htokens : ∀ t ∈ bracketedAttribute.tokens.toList, t.text ∈ spellings →
      t.kind = .punctuator := by decide
  have hpunctuates : bracketedAttribute.PunctuatesBrackets := fun i t ht =>
    htokens t (Array.mem_toList_iff.2 (Array.mem_of_getElem? ht))
  obtain ⟨r, hr, hread⟩ := Dialect.standard.parse_of_lookup hread
  obtain ⟨g, hg, hnested⟩ := standard_wellNested .standard
  cases (standard?_eq _ _).symm.trans hg
  simp only [Prod.mk.injEq] at hread
  obtain ⟨hrule, hstart, hstop, hraw⟩ := hread
  obtain ⟨cs, ht⟩ := Tree.exists_node hrule
  rw [hstart, hstop] at ht
  rw [ht] at hraw
  have hm : .node .attributeSpecifier 0 10 cs ∈ r.tree.preorder := ht ▸ r.tree.mem_preorder_self
  have hnone := fun u hu => of_decide_eq_true (List.all_eq_true.1 hraw u hu)
  exact ⟨_, hg, hpunctuates, r, hr, cs, hm, hnone, hnested _ _ _ r hpunctuates hr _ _ _ _ hm hnone⟩

end Grammar

end PackratCpp
