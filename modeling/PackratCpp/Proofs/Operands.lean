/-
  Names with binary operators between them.

  * `OperatorLevel`: the levels of precedence, from the loosest one to the tightest.
  * `Grammar.SeesOperation`: a stream is `x op x … op x` from some operand on.
  * `Operands.foreseen`: what the rules come to at an operand.  Before `<` that depends on what is read as
    a list of template arguments.
  * `Grammar.SeesOperation.operand`: such a list ends before another operand, and so the name before `<`
    is an operand as well.
-/
import PackratCpp.Proofs.Foresight
import PackratCpp.Proofs.Templates

namespace PackratCpp

/-! ## Operators -/

/-- A level of precedence: the rule of its expressions, and its operators. -/
structure OperatorLevel where
  rule : Rule
  symbols : List String

namespace OperatorLevel

/-- The levels of binary operators, from the loosest one to the tightest. -/
def all : List OperatorLevel := [
  ⟨.logicalOrExpression, ["||"]⟩,
  ⟨.logicalAndExpression, ["&&"]⟩,
  ⟨.inclusiveOrExpression, ["|"]⟩,
  ⟨.exclusiveOrExpression, ["^"]⟩,
  ⟨.andExpression, ["&"]⟩,
  ⟨.equalityExpression, ["==", "!="]⟩,
  ⟨.relationalExpression, ["<", ">", "<=", ">="]⟩,
  ⟨.shiftExpression, ["<<", ">>"]⟩,
  ⟨.additiveExpression, ["+", "-"]⟩,
  ⟨.multiplicativeExpression, ["*", "/", "%"]⟩,
  ⟨.pmExpression, [".*", "->*"]⟩]

/-- The operators of some levels. -/
def symbolsOf (levels : List OperatorLevel) : List String :=
  levels.flatMap (·.symbols)

end OperatorLevel

/-- From operand number `k` on a stream is names with these operators between them, up to the end of
input. -/
structure Grammar.SeesOperation (g : Grammar) (tokens : TokenStream) (k : Nat) (ops : List String) :
    Prop where
  binary : ∀ s ∈ ops, s ∈ OperatorLevel.symbolsOf OperatorLevel.all
  name : ∀ i ≤ ops.length, g.Sees tokens (2 * (k + i)) .name
  operator : ∀ i s, ops[i]? = some s → g.Sees tokens (2 * (k + i) + 1) (.symbol s)
  eofIndex_eq : tokens.eofIndex = 2 * (k + ops.length) + 1

/-! ## What is foreseen -/

namespace Operands

/-- A name as an operand. -/
def operand : Sketch :=
  .node .idExpression 0 1 [.node .unqualifiedId 0 1 [.leaf 0]]

/-- What may stand behind a name that has no list of template arguments. -/
def behind : List Sight :=
  .eof :: ((OperatorLevel.symbolsOf OperatorLevel.all).filter (· ≠ "<")).map .symbol

/-- A name without a list. -/
def plain : Window :=
  ⟨[[.name], behind], [], []⟩

/-- A name before a `<` that begins no list. -/
def unlisted : Window :=
  ⟨[[.name], [.symbol "<"], [.name]], [], [⟨.simpleTemplateId, 0, .failed⟩]⟩

/-- A name before a `<` that may begin a list, behind which there is another name. -/
def listed : Window :=
  ⟨[[.name], [.symbol "<"]], [[.name]], [⟨.simpleTemplateId, 0, .matched 2 [.given 0]⟩]⟩

/-- All that there is is one expression. -/
def whole : Window :=
  ⟨[[.name]], [[.eof]], [⟨.logicalOrExpression, 0, .matched 1 [.given 0]⟩]⟩

/-- The name is an operand in each window. -/
def prospects : List Prospect := [
  ⟨plain, [⟨.castExpression, 0, .matched 1 [operand]⟩]⟩,
  ⟨unlisted, [⟨.castExpression, 0, .matched 1 [operand]⟩]⟩,
  ⟨listed, [⟨.castExpression, 0, .matched 1 [operand]⟩]⟩,
  ⟨whole, [⟨.expression, 0, .matched 1 [.node .expression 0 1 [.given 0]]⟩]⟩]

/-- **All of this is foreseen, with any extensions.** -/
theorem foreseen : ∀ gnu managed atl : Bool,
    Extensions.foresee ⟨gnu, managed, atl⟩ prospects = true := by
  decide +kernel

end Operands

/-! ## Lists -/

theorem Dialect.find?_simpleTemplateId (d : Dialect) :
    (d.grammar []).find? .simpleTemplateId = some ⟨.choice [
      .seq ([.rule .templateName, .token (.text "<"), .option (.rule .templateArgumentList)] ++
        [.token (.text ">")]),
      .seq ([.rule .templateName, .token (.text "<"), .rule .innerTemplateId] ++
        [.token (.text ">>")])], false⟩ :=
  find?_of_group (Rules.templateIds d.extensions) 0 (by simp [groups]) rfl

theorem Yields.closer {d : Dialect} {tokens : TokenStream} {p stop : Nat} {trees : List Tree}
    (h : Yields (d.grammar []) tokens (.expr (.rule .simpleTemplateId)) p stop trees) :
    ∃ q t s, p + 1 ≤ q ∧ stop = q + 1 ∧ tokens.get? q = some t ∧
      (Terminal.text s).accepts t = true ∧ (s = ">" ∨ s = ">>") := by
  have hitems : ∀ {e : Expr} {s : String} {us : List Tree},
      Yields (d.grammar []) tokens
        (.items ([.rule .templateName, .token (.text "<"), e] ++ [.token (.text s)])) p stop us →
      ∃ q t, p + 1 ≤ q ∧ stop = q + 1 ∧ tokens.get? q = some t ∧
        (Terminal.text s).accepts t = true := by
    intro e s us h
    obtain ⟨q, _, _, hfront, hlast, -⟩ := h.items_append
    cases hfront with
    | itemsNext hname hfront =>
      cases hfront with
      | itemsNext hopening hfront =>
        cases hopening
        cases hlast with
        | itemsNext hcloser hdone =>
          cases hdone
          cases hcloser with
          | token ht ha =>
            have hstart := hname.le
            have hstop := hfront.le
            exact ⟨q, _, by omega, rfl, ht, ha⟩
  cases h with
  | rule hf h =>
    cases d.find?_simpleTemplateId.symm.trans hf
    cases h with
    | choice h =>
      cases h with
      | alternatives hm h =>
        simp only [List.mem_cons, List.not_mem_nil, or_false] at hm
        rcases hm with rfl | rfl
        · cases h with
          | seq h =>
            obtain ⟨q, t, hq, hstop, ht, ha⟩ := hitems h
            exact ⟨q, t, _, hq, hstop, ht, ha, Or.inl rfl⟩
        · cases h with
          | seq h =>
            obtain ⟨q, t, hq, hstop, ht, ha⟩ := hitems h
            exact ⟨q, t, _, hq, hstop, ht, ha, Or.inr rfl⟩

theorem Dialect.spells_closer (d : Dialect) {s : String} (h : s = ">" ∨ s = ">>") :
    (d.grammar []).Spells s := by
  refine ⟨_, _, d.find?_simpleTemplateId, ?_⟩
  rcases h with rfl | rfl <;> simp [Expr.sought, Expr.soughtAll]

/-! ## Operands -/

/-- The tree of operand number `k`. -/
def operandTree (k : Nat) : Tree :=
  .node .idExpression (2 * k) (2 * k + 1) [.node .unqualifiedId (2 * k) (2 * k + 1) [.leaf (2 * k)]]

namespace Grammar.SeesOperation

theorem behind {g : Grammar} {tokens : TokenStream} {k : Nat} {front back : List String} {s : String}
    (h : g.SeesOperation tokens k (front ++ s :: back)) :
    g.SeesOperation tokens (k + front.length + 1) back := by
  have hlen : (front ++ s :: back).length = front.length + 1 + back.length := by
    simp only [List.length_append, List.length_cons]
    omega
  have hplace : ∀ i, k + (front.length + 1 + i) = k + front.length + 1 + i := by omega
  constructor
  case binary => exact fun s hs => h.binary s (by simp [hs])
  case name =>
    intro i hi
    have hname := h.name (front.length + 1 + i) (by omega)
    rwa [hplace] at hname
  case operator =>
    intro i s hs
    have hindex : front.length + 1 + i - front.length = i + 1 := by omega
    have hoperator := h.operator (front.length + 1 + i) s (by
      rwa [List.getElem?_append_right (by omega), hindex, List.getElem?_cons_succ])
    rwa [hplace] at hoperator
  case eofIndex_eq => rw [h.eofIndex_eq, hlen, hplace]

section
variable {g : Grammar} {tokens : TokenStream} {k : Nat} {ops : List String}
  (h : g.SeesOperation tokens k ops)
include h

theorem eof : g.Sees tokens (2 * (k + ops.length) + 1) .eof :=
  h.eofIndex_eq ▸ g.sees_eof tokens

theorem exists_operator {q : Nat} {t : Token} {s : String} (hq : 2 * k ≤ q)
    (ht : tokens.get? q = some t) (hs : g.Spells s) (ha : (Terminal.text s).accepts t = true) :
    ∃ i < ops.length, q = 2 * (k + i) + 1 := by
  have htest : ∀ u ∈ (Expr.token (.text s)).sought, g.Spells u := List.forall_mem_singleton.2 hs
  have hlt := TokenStream.get?_lt_length ht
  rw [tokens.length_eq, h.eofIndex_eq] at hlt
  rcases Nat.even_or_odd' (q - 2 * k) with ⟨i, hi | hi⟩
  · have hname := h.name i (by omega)
    rw [show 2 * (k + i) = q by omega] at hname
    cases hname.passes_of_accepts ht htest ha
  · refine ⟨i, ?_, by omega⟩
    by_contra hle
    have heof := h.eof
    rw [show 2 * (k + ops.length) + 1 = q by omega] at heof
    cases heof.passes_of_accepts ht htest ha

end

variable {d : Dialect} {tokens : TokenStream} {k : Nat} {ops : List String}

theorem exists_listStop (h : (d.grammar []).SeesOperation tokens k ops) {q : Nat} {trees : List Tree}
    (hlist : (d.grammar []).Gives tokens .simpleTemplateId (2 * k) (.matched q trees)) :
    ∃ i ≤ ops.length, q = 2 * (k + i) ∧ 1 ≤ i := by
  obtain ⟨log, hd⟩ := hlist .simpleTemplateId
  obtain ⟨q, t, s, hq, rfl, ht, ha, hs⟩ := hd.yields.closer
  obtain ⟨i, hi, rfl⟩ := h.exists_operator (by omega) ht (d.spells_closer hs) ha
  exact ⟨i + 1, hi, by omega, by omega⟩

theorem operand_less (h : (d.grammar []).SeesOperation tokens k ("<" :: ops)) :
    (d.grammar []).Gives tokens .castExpression (2 * k) (.matched (2 * k + 1) [operandTree k]) := by
  have hname := h.name 0 (Nat.zero_le _)
  have hless := h.operator 0 _ rfl
  have hlen : 2 * k ≤ tokens.length := by
    rw [tokens.length_eq, h.eofIndex_eq]
    omega
  obtain ⟨v, log, hd⟩ := (d.ranked []).total .simpleTemplateId .simpleTemplateId hlen
  cases v with
  | failed =>
    have hfits : Operands.unlisted.Fits (d.grammar []) tokens (2 * k) (2 * k + 3) .leaf := by
      refine ⟨Nat.le_refl _, ?_, trivial, List.forall_mem_singleton.2 hd.gives⟩
      exact ⟨⟨_, .head _, hname⟩, ⟨_, .head _, hless⟩, ⟨_, .head _, h.name 1 (by simp)⟩, trivial⟩
    exact hfits.gives_of_foreseen Operands.foreseen 1 rfl 0 rfl
  | matched q trees =>
    obtain ⟨i, hi, rfl, hpos⟩ := h.exists_listStop hd.gives
    obtain ⟨t, rfl⟩ : ∃ t, trees = [t] := by
      cases hd with
      | ruleMatch =>
        rw [Production.tree?, if_neg (by omega)]
        exact ⟨_, rfl⟩
    have hfits : Operands.listed.Fits (d.grammar []) tokens (2 * k) (2 * (k + i)) fun _ => t := by
      refine ⟨?_, ?_, ?_, List.forall_mem_singleton.2 hd.gives⟩
      · show 2 * k + 2 ≤ _
        omega
      · exact ⟨⟨_, .head _, hname⟩, ⟨_, .head _, hless⟩, trivial⟩
      · exact ⟨⟨_, .head _, h.name i hi⟩, trivial⟩
    exact hfits.gives_of_foreseen Operands.foreseen 2 rfl 0 rfl

/-- **Every name is an operand**, whatever operator stands behind it. -/
theorem operand (h : (d.grammar []).SeesOperation tokens k ops) :
    (d.grammar []).Gives tokens .castExpression (2 * k) (.matched (2 * k + 1) [operandTree k]) := by
  by_cases hless : ops.head? = some "<"
  · obtain ⟨rest, rfl⟩ := List.head?_eq_some_iff.1 hless
    exact h.operand_less
  · have hbehind : ∃ sight ∈ Operands.behind, (d.grammar []).Sees tokens (2 * k + 1) sight := by
      cases ops with
      | nil => exact ⟨_, .head _, h.eof⟩
      | cons s rest =>
        refine ⟨_, List.mem_cons_of_mem _ (List.mem_map_of_mem ?_), h.operator 0 s rfl⟩
        have hne : s ≠ "<" := by
          rintro rfl
          exact hless rfl
        exact List.mem_filter.2 ⟨h.binary s (List.mem_cons_self ..), decide_eq_true hne⟩
    have hfits : Operands.plain.Fits (d.grammar []) tokens (2 * k) (2 * k + 2) .leaf := by
      refine ⟨Nat.le_refl _, ?_, trivial, fun _ hm => nomatch hm⟩
      exact ⟨⟨_, .head _, h.name 0 (Nat.zero_le _)⟩, hbehind, trivial⟩
    exact hfits.gives_of_foreseen Operands.foreseen 0 rfl 0 rfl

theorem expression (h : (d.grammar []).SeesOperation tokens 0 ops) {t : Tree}
    (hor : (d.grammar []).Gives tokens .logicalOrExpression 0 (.matched tokens.eofIndex [t])) :
    (d.grammar []).Gives tokens .expression 0
      (.matched tokens.eofIndex [.node .expression 0 tokens.eofIndex [t]]) := by
  have hfits : Operands.whole.Fits (d.grammar []) tokens 0 tokens.eofIndex fun _ => t := by
    refine ⟨?_, ?_, ?_, List.forall_mem_singleton.2 hor⟩
    · rw [h.eofIndex_eq]
      exact Nat.le_add_left 1 _
    · exact ⟨⟨_, .head _, h.name 0 (Nat.zero_le _)⟩, trivial⟩
    · exact ⟨⟨_, .head _, sees_eof _ tokens⟩, trivial⟩
  exact hfits.gives_of_foreseen Operands.foreseen 3 rfl 0 rfl

end Grammar.SeesOperation

end PackratCpp
