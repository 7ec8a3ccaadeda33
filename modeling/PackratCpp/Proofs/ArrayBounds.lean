/-
  Array bounds are read as bounds.

  * `Grammar.DeclaresArray`: a stream declares an array of integers, with the tokens of another stream
    between the brackets.
  * `Dialect.BindsArrays`: the rules at work.
  * `Dialect.contained_of_parse`: square brackets are closed in a constant expression that is parsed, unless
    it has attribute blocks or assembly code.
  * `Dialect.goes_on_behind_attributes`: a constant expression is no list of attributes in brackets.
  * `Grammar.standard_array_bound`: so it is read as the bound of the array.
  * `Grammar.bound_misread`: some that are not.
-/
import PackratCpp.Proofs.Forecast
import PackratCpp.Proofs.Framing
import PackratCpp.Proofs.Openings
import PackratCpp.Proofs.Reachable

namespace PackratCpp

open BracketKind

/-! ## What the tokens around the bound tell -/

namespace ArrayBounds

/-- The name and the bracket behind it, and what ends the declaration. -/
def nameAndBracket : Window :=
  ⟨[[.name], [.symbol "["]], [[.symbol ";"], [.eof]], []⟩

/-- What is to be foreseen: the name is a name, no parameters follow it, and neither parameters nor
attributes follow the array. -/
def facts : List Known := [
  ⟨.declaratorId, 0, .matched 1 [.node .declaratorId 0 1 [.node .className 0 1 [.leaf 0]]]⟩,
  ⟨.parametersAndQualifiers, 1, .failed⟩,
  ⟨.alignmentSpecifier, 1, .failed⟩,
  ⟨.parametersAndQualifiers, 2, .failed⟩,
  ⟨.attributeSpecifierSeq, 2, .failed⟩]

/-- The tokens around the bound, if a declarator with the bound is read between them. -/
def around : Window :=
  ⟨[[.word "int"], [.name], [.symbol "["]], [[.symbol ";"], [.eof]],
    [⟨.noptrDeclarator, 1, .matched 3 [.given 0]⟩, ⟨.attributeSpecifierSeq, 2, .failed⟩]⟩

/-- The declaration that is read then. -/
def declarationFact : Known :=
  ⟨.simpleDeclaration, 0, .matched 4 [.node .simpleDeclaration 0 4 [
    .node .simpleDeclSpecifierSeq 0 1 [.node .declSpecifier 0 1 [.node .typeSpecifier 0 1
      [.node .trailingTypeSpecifier 0 1 [.node .simpleTypeSpecifier 0 1 [.leaf 0]]]]],
    .node .initDeclaratorList 1 3 [.node .initDeclarator 1 3 [.node .declarator 1 3
      [.node .ptrDeclarator 1 3 [.given 0]]]],
    .leaf 3]]⟩

theorem foreseen : ∀ gnu managed atl : Bool, Extensions.foresee ⟨gnu, managed, atl⟩
    [⟨nameAndBracket, facts⟩, ⟨around, [declarationFact]⟩] = true := by
  decide +kernel

/-- The declarator of an array, with the tree of a bound of `n` tokens. -/
def declarator (n : Nat) (bound : Tree) : Tree :=
  .node .noptrDeclarator 1 (n + 4) [.node .declaratorId 1 2 [.node .className 1 2 [.leaf 1]],
    .leaf 2, bound, .leaf (n + 3)]

/-- The declaration of an array. -/
def declaration (n : Nat) (bound : Tree) : Tree :=
  .node .simpleDeclaration 0 (n + 5) [
    .node .simpleDeclSpecifierSeq 0 1 [.node .declSpecifier 0 1 [.node .typeSpecifier 0 1
      [.node .trailingTypeSpecifier 0 1 [.node .simpleTypeSpecifier 0 1 [.leaf 0]]]]],
    .node .initDeclaratorList 1 (n + 4) [.node .initDeclarator 1 (n + 4) [.node .declarator 1 (n + 4)
      [.node .ptrDeclarator 1 (n + 4) [declarator n bound]]]],
    .leaf (n + 4)]

end ArrayBounds

open ArrayBounds

/-- A stream is `int x [`, the tokens of another stream, and `] ;`. -/
structure Grammar.DeclaresArray (g : Grammar) (tokens bound : TokenStream) : Prop where
  int : g.Sees tokens 0 (.word "int")
  name : g.Sees tokens 1 .name
  opening : g.Sees tokens 2 (.symbol "[")
  inner : ∀ {i}, i < bound.eofIndex →
    (tokens.get? (i + 3)).map Token.reading = (bound.get? i).map Token.reading
  closing : g.Sees tokens (bound.eofIndex + 3) (.symbol "]")
  semicolon : g.Sees tokens (bound.eofIndex + 4) (.symbol ";")
  eofIndex_eq : tokens.eofIndex = bound.eofIndex + 5

/-! ## The rules at work -/

/-- The test of the first token of a sequence. -/
def Expr.firstTest? : Expr → Option Terminal
  | .seq (.token test :: _) => some test
  | _ => none

/-- Whether an attribute starts with no double bracket. -/
def Expr.isOtherAttribute (managed : Bool) : Expr → Bool
  | .rule r => r = .alignmentSpecifier || managed && r = .cliAttributes
  | e => e.firstTest? = some (.keyword .kAsm)

namespace Expr

/-- What a declarator declares. -/
def declared : Expr :=
  .choice [.seq [.rule .declaratorId, .option (.rule .attributeSpecifierSeq)],
    .seq [.token (.text "("), .rule .ptrDeclarator, .token (.text ")")]]

/-- The bound of an array, with attributes behind it. -/
def arraySuffix : Expr :=
  .seq [.token (.text "["), .option (.rule .constantExpression), .token (.text "]"),
    .option (.rule .attributeSpecifierSeq)]

/-- Parameters, or the bound of an array. -/
def declaratorSuffix : Expr :=
  .choice [.rule .parametersAndQualifiers, .arraySuffix]

/-- An attribute in double brackets. -/
def doubleBrackets : Expr :=
  .seq [.token (.text "["), .token (.text "["), .rule .attributeList, .token (.text "]"),
    .token (.text "]")]

end Expr

/-- The rules that decide what a bracket behind a name is. -/
structure Dialect.BindsArrays (d : Dialect) : Prop where
  -- Arrays have their bounds in single brackets, attributes in double ones.
  declarator : (d.grammar []).find? .noptrDeclarator =
    some ⟨.seq [.declared, .star .declaratorSuffix], false⟩
  specifiers : (d.grammar []).find? .attributeSpecifierSeq =
    some ⟨.plus (.rule .attributeSpecifier), false⟩
  specifier : ∃ more,
    (d.grammar []).find? .attributeSpecifier = some ⟨.choice (.doubleBrackets :: more), false⟩ ∧
      more.all (Expr.isOtherAttribute d.extensions.managed) = true
  asm : ∃ alternatives, (d.grammar []).find? .asmDefinition = some ⟨.choice alternatives, false⟩ ∧
    alternatives.all (fun e => e.firstTest? = some (.keyword .kAsm)) = true

theorem Dialect.bindsArrays (d : Dialect) : d.BindsArrays := by
  constructor
  case declarator =>
    exact find?_of_group (Rules.declarators d.extensions) 4 (by simp [groups]) rfl
  case specifiers =>
    exact find?_of_group (Rules.attributes d.extensions) 0 (by simp [groups]) rfl
  case specifier =>
    obtain ⟨more, hstep, hmore⟩ : ∃ more, (Rules.attributes d.extensions)[1]? =
        some (.define .attributeSpecifier (.choice (.doubleBrackets :: more)) false) ∧
        more.all (Expr.isOtherAttribute d.extensions.managed) = true := by
      rcases d.extensions with ⟨_ | _, _ | _, atl⟩ <;> exact ⟨_, rfl, rfl⟩
    exact ⟨more, find?_of_group _ 1 (by simp [groups]) hstep, hmore⟩
  case asm =>
    obtain ⟨alternatives, hstep, hall⟩ : ∃ alternatives, (Rules.namespaces d.extensions)[13]? =
        some (.define .asmDefinition (.choice alternatives) false) ∧
        alternatives.all (fun e => e.firstTest? = some (.keyword .kAsm)) = true := by
      rcases d.extensions with ⟨_ | _, managed, atl⟩ <;> exact ⟨_, rfl, rfl⟩
    exact ⟨alternatives, find?_of_group _ 13 (by simp [groups]) hstep, hall⟩

/-- The rules of attributes in double brackets. -/
def Rule.isAttributePart : Rule → Bool
  | .attributeList | .«attribute» | .attributeToken | .attributeScopedToken | .attributeNamespace |
    .attributeArgumentClause | .balancedTokenSeq | .balancedToken => true
  | _ => false

theorem Dialect.all_keepOut_others : ∀ recovery gnu managed atl : Bool,
    stepsPass recovery ⟨gnu, managed, atl⟩ (·.keepsOut fun r => !r.isAttributePart) = true := by
  decide +kernel

theorem Derives.exists_first {g : Grammar} {tokens : TokenStream} {r : Rule} {p stop : Nat}
    {trees : List Tree} {log : List Attempt} {e : Expr} {test : Terminal}
    (he : e.firstTest? = some test)
    (h : Derives g tokens r (.expr e) p (.matched stop trees) log) :
    ∃ t, tokens.get? p = some t ∧ test.accepts t = true := by
  unfold Expr.firstTest? at he
  split at he <;> cases he
  obtain ⟨_, _, _, _, _, -, hfirst, -⟩ := h.seq_cons
  exact hfirst.token_matched.2.2

/-! ## What is closed in a bound -/

section
variable {d : Dialect} {bound tokens : TokenStream}

theorem Derives.not_asm {r : Rule} {t : Task} {p stop : Nat} {trees : List Tree} {log : List Attempt}
    (h : Derives (d.grammar []) bound r t p (.matched stop trees) log)
    (hasm : ∀ {i t}, bound.get? i = some t → (Terminal.keyword .kAsm).accepts t = false) :
    ∀ u ∈ Tree.preorderAll trees, u.rule? ≠ some .asmDefinition := by
  intro u hu hrule
  obtain ⟨cs, heq⟩ := Tree.exists_node hrule
  rw [heq] at hu
  obtain ⟨-, production, hf, _, _, hd⟩ := h.atNodes _ _ _ _ hu
  obtain ⟨alternatives, hf', hall⟩ := d.bindsArrays.asm
  cases hf'.symm.trans hf
  obtain ⟨e, he, _, hd⟩ := hd.exists_alternative
  obtain ⟨t, ht, ha⟩ := hd.exists_first (of_decide_eq_true (List.all_eq_true.1 hall e he))
  cases (hasm ht).symm.trans ha

/-- **Square brackets are closed in a constant expression** that has no assembly code, and no attribute
blocks.  These two take brackets as they come. -/
theorem Dialect.contained_of_parse {result : Parse} (hbrackets : bound.PunctuatesBrackets)
    (hasm : ∀ i t, bound.get? i = some t → t.kind = .keyword → t.text ≠ "asm")
    (hatl : d.extensions.attributedAtl = true → bound.ClosesSquares)
    (hr : (d.grammar []).parse bound .constantExpression none = .ok result) : bound.Contained := by
  have hasm : ∀ {i t}, bound.get? i = some t → (Terminal.keyword .kAsm).accepts t = false := by
    intro i t ht
    rw [Bool.eq_false_iff]
    intro ha
    obtain ⟨hkind, htext⟩ := Terminal.keyword_of_accepts ha
    exact hasm i t ht hkind htext
  refine ⟨hbrackets, ?_, hasm⟩
  cases hoff : d.extensions.attributedAtl with
  | true => exact hatl hoff
  | false =>
    obtain ⟨production, hf⟩ := d.exists_find? [] .constantExpression
    obtain ⟨stop, trees, log, hd, hstop, -⟩ := (Dialect.reads_of_parse hr).exists_derives hf
    have hbody := d.closed [] _ _ rfl hf
    have hout : (d.grammar []).Closed fun q => !q.isAtl := by
      obtain ⟨recovery, language, gnu, managed, atl⟩ := d
      cases hoff
      exact Dialect.closed_of_keepOut (Dialect.all_keepOut_atl recovery gnu managed)
    have hnested := hd.yields.rulesWithin (d.closed []) hbody
    have hnoatl := hd.yields.rulesWithin hout (hout _ _ rfl hf)
    have hnone : Tree.NoneRaw trees := by
      intro u hu q hq
      have hnoasm := hd.not_asm hasm u hu
      have hnested := hnested u hu q hq
      have hnoatl := hnoatl u hu q hq
      rw [hq] at hnoasm
      have hraw : q.isRaw = false := by
        unfold Rule.isRaw
        split
        · exact absurd rfl hnoasm
        · cases hnoatl
        · cases hnested
        · rfl
      simp [hraw]
    have hwell := ((hd.judged (Judgment.nests_closed d.balanced hbrackets)).2 hnone).2
      (d.balanced.body hf rfl)
    have hle := hd.yields.le_eofIndex (d.closed []) (d.sparesEof []) hbody
      (d.sparesEof [] _ _ rfl hf) (Nat.zero_le _)
    have hlen := bound.length_eq
    obtain rfl : stop = bound.eofIndex := by omega
    exact TokenStream.closesSquares_of_wellNested hwell

theorem Derives.attributeList_wellNested {r : Rule} {p stop : Nat} {trees : List Tree}
    {log : List Attempt} (hbrackets : bound.PunctuatesBrackets)
    (h : Derives (d.grammar []) bound r (.expr (.rule .attributeList)) p (.matched stop trees) log) :
    WellNested (bound.between p stop) := by
  have hclosed : (d.grammar []).Closed fun q => !!q.isAttributePart :=
    Dialect.closed_of_keepOut (Dialect.all_keepOut_others d.errorRecovery d.extensions.gnu
      d.extensions.managed d.extensions.attributedAtl)
  refine ((h.judged (Judgment.nests_closed d.balanced hbrackets)).2 fun u hu q hq => ?_).2 rfl
  have hpart := h.yields.rulesWithin hclosed rfl u hu q hq
  have hraw : q.isRaw = false := by
    unfold Rule.isRaw
    split <;> first | rfl | cases hpart
  simp [hraw]

/-- **A constant expression is no list of attributes in brackets**: behind the bracket that closes such a
list in front of it, it goes on with something else than another one.  If it ended there, it would be a
lambda expression, which ends with a brace. -/
theorem Dialect.goes_on_behind_attributes (hbound : bound.Contained) {m : Nat} {trees trees' : List Tree}
    (h : (d.grammar []).Gives bound .constantExpression 0 (.matched bound.eofIndex trees))
    (hlist : (d.grammar []).Gives bound .attributeList 1 (.matched m trees'))
    (hopen : bound.SpelledAt "[" 0) (hclose : bound.SpelledAt "]" m) :
    m + 1 < bound.eofIndex ∧ ¬ bound.SpelledAt "]" (m + 1) := by
  obtain ⟨_, h⟩ := h .constantExpression
  obtain ⟨_, hlist⟩ := hlist .attributeSpecifier
  have hkeeps := h.rule_keeps d.steady hbound rfl (Nat.zero_le _)
  have hle := hlist.yields.le
  have hm := hclose.lt_eofIndex
  -- the whole expression owes nothing, and one bracket in front of the attributes and behind them
  have howed : bound.owed 0 = 0 := by
    have hstart := hkeeps.owed_le
    have hend := bound.owed_eofIndex
    have hzero := hbound.closes 0 (Nat.zero_le _)
    omega
  have hone : bound.owed 1 = 1 := by
    obtain ⟨t, ht, -, htext⟩ := hopen
    have hsucc := TokenStream.owed_succ ht (by omega)
    rw [htext, howed, if_pos rfl, if_neg (by decide)] at hsucc
    exact hsucc
  have hinner : ∀ i, 1 ≤ i → i ≤ m → bound.owed m = 1 ∧ 1 ≤ bound.owed i := by
    intro i hi him
    have hwell := TokenStream.owed_of_wellNested (hlist.attributeList_wellNested hbound.punctuates)
      hm.le hi him
    omega
  have hbehind : bound.owed (m + 1) = 0 := by
    obtain ⟨t, ht, -, htext⟩ := hclose
    have hsucc := TokenStream.owed_succ ht hm
    rw [htext, (hinner 1 (Nat.le_refl 1) hle).1, if_neg (by decide), if_pos rfl] at hsucc
    exact hsucc
  constructor
  · refine Nat.lt_of_le_of_ne hm fun hlast => ?_
    obtain ⟨e, cs, hlambda⟩ := h.yields.exists_lambda d.leads hbound.punctuates rfl hopen (by omega)
    obtain ⟨hlt, production, hf, _, _, hd⟩ := h.atNodes _ _ _ _ hlambda
    have hbounds := (h.yields.tiling.bounds _ hlambda).2.2
    have hnode := hkeeps.nodes hlambda
    cases d.leads.lambda.symm.trans hf
    obtain ⟨i, rfl, hbrace⟩ := hd.lambda_closes d.leads
    have hi : i = m := by
      have hend := bound.owed_eofIndex
      by_contra hne
      have := (hinner (i + 1) (by omega) (by simp only [Tree.stop] at hbounds; omega)).2
      omega
    subst hi
    exact absurd (hbrace.unique hclose) (by decide)
  · rintro ⟨t, ht, heof, htext⟩
    have hlt := TokenStream.lt_eofIndex ht heof
    have hsucc := TokenStream.owed_succ ht hlt
    rw [htext, hbehind, if_neg (by decide), if_pos rfl] at hsucc
    have := hbound.closes (m + 1 + 1) hlt
    omega

/-! ## The bracket behind the name -/

theorem Grammar.Sees.punctuator {g : Grammar} {i : Nat} {a : String}
    (h : g.Sees tokens i (.symbol a)) :
    ∃ t, tokens.get? i = some t ∧ t.kind = .punctuator ∧ t.text = a := by
  obtain ⟨t, ht, hshows⟩ := h
  cases hshows with
  | symbol hkind => exact ⟨t, ht, hkind, rfl⟩

theorem Grammar.Sees.spelledAt {g : Grammar} {i : Nat} {a : String}
    (h : g.Sees tokens i (.symbol a)) : tokens.SpelledAt a i := by
  obtain ⟨t, ht, hkind, htext⟩ := h.punctuator
  exact ⟨t, ht, by simp [Token.isEof, hkind], htext⟩

theorem Grammar.DeclaresArray.framed {g : Grammar} (h : g.DeclaresArray tokens bound) :
    bound.Framed tokens 3 where
  inside := h.inner
  closed := h.closing.punctuator

theorem Derives.doubleBrackets_matched {g : Grammar} {r : Rule} {p stop : Nat} {trees : List Tree}
    {log : List Attempt} (h : Derives g tokens r (.expr .doubleBrackets) p (.matched stop trees) log) :
    ∃ q ts, tokens.SpelledAt "[" (p + 1) ∧
      g.Gives tokens .attributeList (p + 2) (.matched q ts) ∧ tokens.SpelledAt "]" q ∧
      tokens.SpelledAt "]" (q + 1) := by
  obtain ⟨_, _, _, _, _, -, hopen, h⟩ := h.seq_cons
  obtain ⟨rfl, -, -⟩ := hopen.spelledAt
  obtain ⟨_, _, _, _, _, -, hopen', h⟩ := h.seq_cons
  obtain ⟨rfl, -, hopen'⟩ := hopen'.spelledAt
  obtain ⟨_, _, _, _, _, -, hlist, h⟩ := h.seq_cons
  obtain ⟨_, _, _, _, _, -, hclose, h⟩ := h.seq_cons
  obtain ⟨rfl, -, hclose⟩ := hclose.spelledAt
  obtain ⟨_, _, _, _, _, -, hclose', -⟩ := h.seq_cons
  exact ⟨_, _, hopen', hlist.gives, hclose, hclose'.spelledAt.2.2⟩

variable {trees : List Tree} (hbound : bound.Contained)
  (harray : (d.grammar []).DeclaresArray tokens bound) (hpos : 0 < bound.eofIndex)
  (h : (d.grammar []).Gives bound .constantExpression 0 (.matched bound.eofIndex trees))
include hbound harray hpos h

theorem Dialect.not_doubleBrackets {r : Rule} {stop : Nat} {ts : List Tree} {log : List Attempt}
    (hd : Derives (d.grammar []) tokens r (.expr .doubleBrackets) 2 (.matched stop ts) log) :
    False := by
  have hframe := harray.framed
  obtain ⟨q, us, hopen, hlist, hclose, hclose'⟩ := hd.doubleBrackets_matched
  -- the list of attributes comes to the same in the bound alone
  obtain ⟨v, _, hinner⟩ := (d.ranked []).total .attributeSpecifier .attributeList
    (show 1 ≤ bound.length by have := bound.length_eq; omega)
  obtain ⟨_, hframed⟩ := hinner.gives.framed d.steady hbound hframe rfl hpos .attributeSpecifier
  obtain ⟨_, hlist⟩ := hlist .attributeSpecifier
  have hv := (hlist.unique hframed).1
  cases v with
  | failed => cases hv
  | matched m us' =>
    obtain ⟨rfl, -⟩ := Verdict.matched.inj hv
    have hle := (hinner.rule_keeps d.steady hbound rfl hpos).le_eofIndex
    rcases Nat.lt_or_eq_of_le hle with hlt | rfl
    · obtain ⟨hmore, hno⟩ := d.goes_on_behind_attributes hbound h hinner.gives
        (hframe.spelledAt hpos hopen) (hframe.spelledAt hlt hclose)
      exact hno (hframe.spelledAt hmore hclose')
    · exact absurd (hclose'.unique harray.semicolon.spelledAt) (by decide)

theorem Dialect.gives_no_attributes
    (halign : (d.grammar []).Gives tokens .alignmentSpecifier 2 .failed)
    (hcli : d.extensions.managed = true → (d.grammar []).Gives tokens .cliAttributes 2 .failed) :
    (d.grammar []).Gives tokens .attributeSpecifierSeq 2 .failed := by
  suffices hone : (d.grammar []).Gives tokens .attributeSpecifier 2 .failed by
    intro r
    obtain ⟨_, hd⟩ := hone .attributeSpecifierSeq
    exact ⟨_, .ruleFail d.bindsArrays.specifiers (.plusFail hd)⟩
  have hlen := tokens.length_eq
  have heof := harray.eofIndex_eq
  obtain ⟨v, _, hd⟩ := (d.ranked []).total .attributeSpecifierSeq .attributeSpecifier
    (show 2 ≤ tokens.length by omega)
  cases v with
  | failed => exact hd.gives
  | matched stop ts =>
    exfalso
    obtain ⟨more, hf, hmore⟩ := d.bindsArrays.specifier
    generalize hv : Verdict.matched stop ts = v at hd
    cases hd with
    | ruleFail => cases hv
    | ruleMissing => cases hv
    | ruleMatch hf' hd =>
      cases hf.symm.trans hf'
      obtain ⟨e, he, _, hd⟩ := hd.exists_alternative
      rcases List.mem_cons.1 he with rfl | he
      · exact d.not_doubleBrackets hbound harray hpos h hd
      · have hother := List.all_eq_true.1 hmore e he
        unfold Expr.isOtherAttribute at hother
        split at hother
        · simp only [Bool.or_eq_true, Bool.and_eq_true, decide_eq_true_eq] at hother
          rcases hother with rfl | ⟨hmanaged, rfl⟩
          · cases ((halign _).choose_spec.unique hd).1
          · cases ((hcli hmanaged _).choose_spec.unique hd).1
        · obtain ⟨t, ht, ha⟩ := hd.exists_first (of_decide_eq_true hother)
          obtain ⟨u, hu, hkind, -⟩ := harray.opening.punctuator
          cases ht.symm.trans hu
          cases hkind.symm.trans (Terminal.keyword_of_accepts ha).1

end

section
variable {d : Dialect} {tokens : TokenStream} {n : Nat} {name bound : Tree}

/-- **A declarator of an array is read**, if neither parameters nor attributes are read where they could
be. -/
theorem Dialect.gives_declarator
    (hname : (d.grammar []).Gives tokens .declaratorId 1 (.matched 2 [name]))
    (hattributes : (d.grammar []).Gives tokens .attributeSpecifierSeq 2 .failed)
    (hparameters : (d.grammar []).Gives tokens .parametersAndQualifiers 2 .failed)
    (hopen : tokens.SpelledAt "[" 2)
    (hbound : (d.grammar []).Gives tokens .constantExpression 3 (.matched (n + 3) [bound]))
    (hclose : tokens.SpelledAt "]" (n + 3))
    (hattributes' : (d.grammar []).Gives tokens .attributeSpecifierSeq (n + 4) .failed)
    (hparameters' : (d.grammar []).Gives tokens .parametersAndQualifiers (n + 4) .failed)
    (hend : tokens.SpelledAt ";" (n + 4)) :
    (d.grammar []).Gives tokens .noptrDeclarator 1
      (.matched (n + 4) [.node .noptrDeclarator 1 (n + 4) [name, .leaf 2, bound, .leaf (n + 3)]]) := by
  obtain ⟨_, hname⟩ := hname .noptrDeclarator
  obtain ⟨_, hattributes⟩ := hattributes .noptrDeclarator
  obtain ⟨_, hparameters⟩ := hparameters .noptrDeclarator
  obtain ⟨_, hbound⟩ := hbound .noptrDeclarator
  obtain ⟨_, hattributes'⟩ := hattributes' .noptrDeclarator
  obtain ⟨_, hparameters'⟩ := hparameters' .noptrDeclarator
  obtain ⟨_, hnone⟩ : ∃ log, Derives (d.grammar []) tokens .noptrDeclarator
      (.expr (.token (.text "["))) (n + 4) .failed log := hend.derives_failed (by decide) _ _
  have hdeclared : Derives (d.grammar []) tokens .noptrDeclarator (.expr .declared) 1
      (.matched 2 [name]) _ :=
    .choice (.alternativesMatch (.seq (.itemsMatch hname
      (.itemsMatch (.optionSkip hattributes) .itemsDone))))
  have harray : Derives (d.grammar []) tokens .noptrDeclarator (.expr .declaratorSuffix) 2
      (.matched (n + 4) [.leaf 2, bound, .leaf (n + 3)]) _ :=
    .choice (.alternativesNext hparameters (.alternativesMatch (.seq
      (.itemsMatch (hopen.derives _ _) (.itemsMatch (.optionMatch hbound)
        (.itemsMatch (hclose.derives _ _) (.itemsMatch (.optionSkip hattributes') .itemsDone)))))))
  have hnomore : Derives (d.grammar []) tokens .noptrDeclarator (.turns .declaratorSuffix) (n + 4)
      (.matched (n + 4) []) _ :=
    .turnsStop (.choice (.alternativesNext hparameters' (.alternativesNext
      (.seq (.itemsStop hnone)) .alternativesDone)))
  exact Derives.gives_node (.seq (.itemsMatch hdeclared (.itemsMatch
    (.star (.turnsMatch harray (by omega) hnomore)) .itemsDone))) d.bindsArrays.declarator (by omega)

end

/-! ## Declarations with a bound -/

namespace ArrayBounds

/-- A token with this kind and this spelling. -/
def token (w : TokenKind × String) : Token :=
  ⟨w.1, w.2, 1, 1, 0⟩

/-- A stream of tokens with these kinds and spellings. -/
def stream (ws : List (TokenKind × String)) : TokenStream :=
  .terminated (ws.map token) (token (.eof, ""))

/-- `int x [`, some tokens, and `] ;`. -/
def withBound (ws : List (TokenKind × String)) : List (TokenKind × String) :=
  [(.keyword, "int"), (.identifier, "x"), (.punctuator, "[")] ++
    (ws ++ [(.punctuator, "]"), (.punctuator, ";")])

variable {ws : List (TokenKind × String)}

theorem stream_tokens (hws : ∀ w ∈ ws, w.1 ≠ .eof) :
    (stream ws).tokens = (ws.map token ++ [token (.eof, "")]).toArray := by
  have hfilter : (ws.map token).filter (fun t : Token => !t.isEof) = ws.map token := by
    rw [List.filter_eq_self]
    intro t ht
    obtain ⟨w, hw, rfl⟩ := List.mem_map.1 ht
    simp [Token.isEof, token, hws w hw]
  rw [stream, TokenStream.terminated]
  simp only [hfilter]
  rfl

theorem eofIndex_stream (hws : ∀ w ∈ ws, w.1 ≠ .eof) : (stream ws).eofIndex = ws.length := by
  simp [TokenStream.eofIndex, TokenStream.length, stream_tokens hws]

theorem get?_stream (hws : ∀ w ∈ ws, w.1 ≠ .eof) {i : Nat} {w : TokenKind × String}
    (hi : ws[i]? = some w) : (stream ws).get? i = some (token w) := by
  have hlt := (List.getElem?_eq_some_iff.1 hi).1
  rw [TokenStream.get?, stream_tokens hws, List.getElem?_toArray,
    List.getElem?_append_left (by simpa using hlt), List.getElem?_map, hi, Option.map_some]

theorem unspelled : ∀ recovery gnu managed atl : Bool,
    Dialect.stepsPass recovery ⟨gnu, managed, atl⟩ (·.avoids "x") = true := by
  decide +kernel

theorem declaresArray (d : Dialect) (hws : ∀ w ∈ ws, w.1 ≠ .eof) :
    (d.grammar []).DeclaresArray (stream (withBound ws)) (stream ws) := by
  have hall : ∀ w ∈ withBound ws, w.1 ≠ .eof := by
    intro w hw
    simp only [withBound, List.mem_append, List.mem_cons, List.not_mem_nil, or_false] at hw
    rcases hw with (rfl | rfl | rfl) | hw | rfl | rfl
    case inr.inl => exact hws w hw
    all_goals decide
  have hget : ∀ {i w}, (withBound ws)[i]? = some w →
      (stream (withBound ws)).get? i = some (token w) := get?_stream hall
  have hbehind : ∀ k, (withBound ws)[ws.length + (3 + k)]? =
      [(TokenKind.punctuator, "]"), (.punctuator, ";")][k]? := by
    intro k
    rw [withBound, List.getElem?_append_right (by simp; omega),
      List.getElem?_append_right (by simp; omega)]
    congr 1
    simp only [List.length_cons, List.length_nil]
    omega
  constructor
  case int => exact Grammar.sees_word (hget rfl) ⟨rfl, rfl⟩
  case name =>
    exact ⟨_, hget rfl, .name rfl (Dialect.not_spells (Dialect.check_of_stepsPass
      (unspelled d.errorRecovery d.extensions.gnu d.extensions.managed d.extensions.attributedAtl)))⟩
  case opening => exact Grammar.sees_symbol (hget rfl) ⟨rfl, rfl⟩
  case inner =>
    intro i hi
    rw [eofIndex_stream hws] at hi
    have hw : ws[i]? = some ws[i] := List.getElem?_eq_getElem hi
    rw [get?_stream hws hw, hget (w := ws[i]) ?_]
    rw [withBound, List.getElem?_append_right (by simp), List.getElem?_append_left (by simpa using hi)]
    exact hw
  case closing =>
    rw [eofIndex_stream hws]
    exact Grammar.sees_symbol (hget (hbehind 0)) ⟨rfl, rfl⟩
  case semicolon =>
    rw [eofIndex_stream hws]
    exact Grammar.sees_symbol (hget (hbehind 1)) ⟨rfl, rfl⟩
  case eofIndex_eq =>
    rw [eofIndex_stream hws, eofIndex_stream hall]
    simp [withBound]

end ArrayBounds

/-! ## Array bounds -/

namespace Grammar

/-- **Array bounds are read as bounds.**

In every dialect, for every constant expression that is read from a stream of its own and is not empty: the
declaration `int x [ e ] ;` is read, with the two brackets and the tree of the expression between them as
children of the declarator.  The brackets of the expression are punctuators, as the lexer makes them, it has
no assembly code, and where there are attribute blocks, its square brackets are closed; in C++/CLI, no
attributes can be read at the first bracket. -/
theorem standard_array_bound (d : Dialect) : ∃ g, standard? d [] = .ok g ∧
    ∀ (bound tokens : TokenStream) (r : Parse),
      0 < bound.eofIndex → g.parse bound .constantExpression none = .ok r →
      bound.PunctuatesBrackets →
      (∀ i t, bound.get? i = some t → t.kind = .keyword → t.text ≠ "asm") →
      (d.extensions.attributedAtl = true → bound.ClosesSquares) →
      g.DeclaresArray tokens bound →
      (d.extensions.managed = true → g.Gives tokens .cliAttributes 2 .failed) →
      ∃ r', g.parse tokens .simpleDeclaration none = .ok r' ∧
        r'.tree = declaration bound.eofIndex (r.tree.shift 3) := by
  refine ⟨_, standard?_eq d [], ?_⟩
  intro bound tokens r hpos hr hbrackets hasm hatl harray hcli
  have hbound := Dialect.contained_of_parse hbrackets hasm hatl hr
  -- the expression comes to its tree, on its own and between the brackets
  have halone : (d.grammar []).Gives bound .constantExpression 0
      (.matched bound.eofIndex [r.tree]) := by
    obtain ⟨production, hf⟩ := d.exists_find? [] .constantExpression
    obtain ⟨stop, trees, log, hd, hstop, htree⟩ := (Dialect.reads_of_parse hr).exists_derives hf
    have hlen := bound.length_eq
    have hrule := Derives.ruleMatch (r := .constantExpression) hf hd
    have hle := (hrule.rule_keeps d.steady hbound rfl (Nat.zero_le _)).le_eofIndex
    obtain rfl : stop = bound.eofIndex := by omega
    rw [Production.tree?, if_neg (by omega), ← htree] at hrule
    exact hrule.gives
  have hinside := halone.framed d.steady hbound harray.framed rfl (Nat.zero_le _)
  have hname : nameAndBracket.Fits (d.grammar []) tokens 1 (bound.eofIndex + 4) fun _ => .leaf 0 := {
    apart := by simp only [nameAndBracket, List.length_cons, List.length_nil]; omega
    near := ⟨⟨_, List.mem_singleton_self _, harray.name⟩,
      ⟨_, List.mem_singleton_self _, harray.opening⟩, trivial⟩
    far := ⟨⟨_, List.mem_singleton_self _, harray.semicolon⟩,
      ⟨_, List.mem_singleton_self _, harray.eofIndex_eq ▸ sees_eof _ _⟩, trivial⟩
    known := List.forall_mem_nil _ }
  have hattributes := d.gives_no_attributes hbound harray hpos halone
    (hname.gives_of_foreseen foreseen 0 rfl 2 rfl) hcli
  have hdeclarator := d.gives_declarator (hname.gives_of_foreseen foreseen 0 rfl 0 rfl) hattributes
    (hname.gives_of_foreseen foreseen 0 rfl 1 rfl) harray.opening.spelledAt hinside
    harray.closing.spelledAt (hname.gives_of_foreseen foreseen 0 rfl 4 rfl)
    (hname.gives_of_foreseen foreseen 0 rfl 3 rfl) harray.semicolon.spelledAt
  have haround : around.Fits (d.grammar []) tokens 0 (bound.eofIndex + 4)
      fun _ => declarator bound.eofIndex (r.tree.shift 3) := {
    apart := by simp only [around, List.length_cons, List.length_nil]; omega
    near := ⟨⟨_, List.mem_singleton_self _, harray.int⟩, ⟨_, List.mem_singleton_self _, harray.name⟩,
      ⟨_, List.mem_singleton_self _, harray.opening⟩, trivial⟩
    far := ⟨⟨_, List.mem_singleton_self _, harray.semicolon⟩,
      ⟨_, List.mem_singleton_self _, harray.eofIndex_eq ▸ sees_eof _ _⟩, trivial⟩
    known := List.forall_mem_cons.2 ⟨hdeclarator, List.forall_mem_cons.2 ⟨hattributes,
      List.forall_mem_nil _⟩⟩ }
  have hdeclaration := haround.gives_of_foreseen foreseen 1 rfl 0 rfl
  exact hdeclaration.parse (Or.inl harray.eofIndex_eq.symm)

/-- `- N`. -/
def negatedName : List (TokenKind × String) :=
  [(.punctuator, "-"), (.identifier, "N")]

/-- In C++/CLI and with attribute blocks, too, `int x [ - N ] ;` declares an array. -/
theorem negatedName_array_bound : ∃ g, standard? .standard [] = .ok g ∧
    0 < (stream negatedName).eofIndex ∧
    ∃ r, g.parse (stream negatedName) .constantExpression none = .ok r ∧
      (stream negatedName).PunctuatesBrackets ∧
      (∀ i t, (stream negatedName).get? i = some t → t.kind = .keyword → t.text ≠ "asm") ∧
      (stream negatedName).ClosesSquares ∧
      g.DeclaresArray (stream (withBound negatedName)) (stream negatedName) ∧
      g.Gives (stream (withBound negatedName)) .cliAttributes 2 .failed ∧
      ∃ r', g.parse (stream (withBound negatedName)) .simpleDeclaration none = .ok r' ∧
        r'.tree = declaration 2 (r.tree.shift 3) := by
  have hread : (Dialect.standard.forecast (stream negatedName) .constantExpression).map (·.isSome) =
      some true := by decide +kernel
  have htokens : ∀ t ∈ (stream negatedName).tokens.toList, (t.text ∈ spellings → t.kind = .punctuator) ∧
      (t.kind = .keyword → t.text ≠ "asm") := by decide
  have hall : ∀ i t, (stream negatedName).get? i = some t →
      (t.text ∈ spellings → t.kind = .punctuator) ∧ (t.kind = .keyword → t.text ≠ "asm") :=
    fun i t ht => htokens t (Array.mem_toList_iff.2 (Array.mem_of_getElem? ht))
  have hcloses : (stream negatedName).ClosesSquares :=
    TokenStream.closesSquares_of_wellNested (by decide)
  have harray : (Dialect.standard.grammar []).DeclaresArray (stream (withBound negatedName))
      (stream negatedName) := declaresArray .standard (by decide)
  have hminus : (Dialect.standard.grammar []).Sees (stream (withBound negatedName)) 3 (.symbol "-") :=
    Grammar.sees_symbol (t := token (.punctuator, "-")) rfl ⟨rfl, rfl⟩
  have hfits : (⟨[[.symbol "["], [.symbol "-"]], [], []⟩ : Window).Fits (Dialect.standard.grammar [])
      (stream (withBound negatedName)) 2 4 fun _ => .leaf 0 := {
    apart := Nat.le_refl 4
    near := ⟨⟨_, List.mem_singleton_self _, harray.opening⟩, ⟨_, List.mem_singleton_self _, hminus⟩,
      trivial⟩
    far := trivial
    known := List.forall_mem_nil _ }
  have hcli : (Dialect.standard.grammar []).Gives (stream (withBound negatedName)) .cliAttributes 2
      .failed :=
    hfits.gives (fun _ _ => Dialect.find?_of_body?) Window.room .cliAttributes 0 .failed
      (Outlook.eq_of_isIt (by decide +kernel))
  obtain ⟨_, hforecast⟩ := Dialect.exists_forecast hread
  obtain ⟨r, hr, -⟩ := Dialect.parse_of_forecast hforecast
  obtain ⟨g, hg, hbound⟩ := standard_array_bound .standard
  cases (standard?_eq _ _).symm.trans hg
  exact ⟨_, hg, by decide, r, hr, fun i t ht => (hall i t ht).1, fun i t ht => (hall i t ht).2,
    hcloses, harray, hcli, hbound _ _ r (by decide) hr (fun i t ht => (hall i t ht).1)
      (fun i t ht => (hall i t ht).2) (fun _ => hcloses) harray fun _ => hcli⟩

/-- A constant expression that is read from a stream of its own, but not between the brackets of a
declaration: in no tree of the declaration is the first bracket a child of a declarator. -/
def Misread (d : Dialect) (ws : List (TokenKind × String)) : Prop :=
  ∃ g, standard? d [] = .ok g ∧ g.DeclaresArray (stream (withBound ws)) (stream ws) ∧
    (∃ r, g.parse (stream ws) .constantExpression none = .ok r) ∧
    ∀ r, g.parse (stream (withBound ws)) .simpleDeclaration none = .ok r →
      ∀ u ∈ r.tree.preorder, u.rule? = some .noptrDeclarator → .leaf 2 ∉ u.children

theorem misread_of_forecast {d : Dialect} {ws : List (TokenKind × String)} (hws : ∀ w ∈ ws, w.1 ≠ .eof)
    (hread : (d.forecast (stream ws) .constantExpression).map (·.isSome) = some true)
    (hno : (d.forecast (stream (withBound ws)) .simpleDeclaration).map (·.all fun t =>
      t.preorder.all fun u => u.rule? ≠ some .noptrDeclarator ||
        u.children.all fun c => c.rule? ≠ none || c.start ≠ 2) = some true) : Misread d ws := by
  obtain ⟨_, hforecast⟩ := Dialect.exists_forecast hread
  obtain ⟨r, hr, -⟩ := Dialect.parse_of_forecast hforecast
  obtain ⟨tree?, hforecast', hall⟩ := Option.map_eq_some_iff.1 hno
  refine ⟨_, standard?_eq d [], declaresArray d hws, ⟨r, hr⟩, fun r' hr' u hu hrule hleaf => ?_⟩
  have htree := Dialect.tree?_of_forecast hforecast'
  rw [hr'] at htree
  rw [← htree] at hall
  have hchildren := List.all_eq_true.1 hall u hu
  simp only [hrule, ne_eq, not_true_eq_false, decide_false, Bool.false_or] at hchildren
  simpa [Tree.rule?, Tree.start] using List.all_eq_true.1 hchildren _ hleaf

theorem name_misread : Misread .standard [(.identifier, "N")] :=
  misread_of_forecast (by decide) (by decide +kernel) (by decide +kernel)

/-- `[ + ]`, with names that are spelled like brackets. -/
def sumOfBrackets : List (TokenKind × String) :=
  [(.identifier, "["), (.identifier, "+"), (.identifier, "]")]

theorem sumOfBrackets_misread : Misread ⟨true, .cxx, ⟨false, false, false⟩⟩ sumOfBrackets :=
  misread_of_forecast (by decide) (by decide +kernel) (by decide +kernel)

/-- `[ ] { asm ( "x" ) try { } catch ( ... ) { } }`, where the assembly code is an attribute. -/
def assemblyInClosure : List (TokenKind × String) :=
  [(.punctuator, "["), (.punctuator, "]"), (.punctuator, "\x7b"), (.keyword, "asm"),
    (.punctuator, "("), (.string, "\"x\""), (.punctuator, ")"), (.keyword, "try"),
    (.punctuator, "\x7b"), (.punctuator, "\x7d"), (.keyword, "catch"), (.punctuator, "("),
    (.punctuator, "..."), (.punctuator, ")"), (.punctuator, "\x7b"), (.punctuator, "\x7d"),
    (.punctuator, "\x7d")]

set_option maxRecDepth 1000 in
theorem assemblyInClosure_misread : Misread ⟨true, .cxx, ⟨true, false, false⟩⟩ assemblyInClosure :=
  misread_of_forecast (by decide) (by decide +kernel) (by decide +kernel)

/-- `[ a ( [ ] { asm } ) ] ] ; } ) ] { }`, where `} ) ] ]` is assembly code. -/
def assemblyInCapture : List (TokenKind × String) :=
  [(.punctuator, "["), (.identifier, "a"), (.punctuator, "("), (.punctuator, "["),
    (.punctuator, "]"), (.punctuator, "\x7b"), (.keyword, "asm"), (.punctuator, "\x7d"),
    (.punctuator, ")"), (.punctuator, "]"), (.punctuator, "]"), (.punctuator, ";"),
    (.punctuator, "\x7d"), (.punctuator, ")"), (.punctuator, "]"), (.punctuator, "\x7b"),
    (.punctuator, "\x7d")]

set_option maxRecDepth 1000 in
theorem assemblyInCapture_misread :
    Misread ⟨true, .cxx, ⟨false, false, false⟩⟩ assemblyInCapture :=
  misread_of_forecast (by decide) (by decide +kernel) (by decide +kernel)

/-- `p [ [ ] ( [ [ a ( [ ] int b ) { } ]`, where the attribute block of the parameter is `[ [ a ( [ ]`. -/
def blockOfParameter : List (TokenKind × String) :=
  [(.identifier, "p"), (.punctuator, "["), (.punctuator, "["), (.punctuator, "]"),
    (.punctuator, "("), (.punctuator, "["), (.punctuator, "["), (.identifier, "a"),
    (.punctuator, "("), (.punctuator, "["), (.punctuator, "]"), (.keyword, "int"),
    (.identifier, "b"), (.punctuator, ")"), (.punctuator, "\x7b"), (.punctuator, "\x7d"),
    (.punctuator, "]")]

theorem blockOfParameter_misread : Misread ⟨true, .cxx, ⟨false, false, true⟩⟩ blockOfParameter :=
  misread_of_forecast (by decide) (by decide +kernel) (by decide +kernel)

/-- **Constant expressions that are misread**: a name, which is an attribute in C++/CLI; a sum of names
that are spelled like brackets, which is one in double brackets; two with assembly code, which is read up
to the semicolon of the declaration, and which has brackets that end an attribute; and one with an
attribute block with open brackets, which attributes begin with that end with the bound. -/
theorem bound_misread :
    Misread .standard [(.identifier, "N")] ∧
    Misread ⟨true, .cxx, ⟨false, false, false⟩⟩ sumOfBrackets ∧
    Misread ⟨true, .cxx, ⟨true, false, false⟩⟩ assemblyInClosure ∧
    Misread ⟨true, .cxx, ⟨false, false, false⟩⟩ assemblyInCapture ∧
    Misread ⟨true, .cxx, ⟨false, false, true⟩⟩ blockOfParameter :=
  ⟨name_misread, sumOfBrackets_misread, assemblyInClosure_misread, assemblyInCapture_misread,
    blockOfParameter_misread⟩

end Grammar

end PackratCpp
