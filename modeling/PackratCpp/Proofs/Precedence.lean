/-
  Binary operators group by precedence.

  * `groupTree`: the tree of some operators, which is split at those of the loosest level there is.
  * `OperatorLevel.steps`: the rules of the levels.
  * `Grammar.ReadsLevels`: the rule of a level reads the operators of the tighter levels and its own, and
    groups them.  `Grammar.ReadsLevels.cons`: so it does if the rule of its operands does.
  * `Grammar.standard_parse_operation`: the parse of names with binary operators between them, in every
    dialect.
-/
import Mathlib.Tactic.IntervalCases
import PackratCpp.Proofs.Operands

namespace PackratCpp

/-! ## Trees -/

/-- The parts of some operators between those of a level. -/
def OperatorLevel.parts (level : OperatorLevel) (ops : List String) : List (List String) :=
  ops.splitOnP (· ∈ level.symbols)

/-- Some parts, from operand number `k` on, with the operators between them. -/
def joined (sub : Nat → List String → Tree) : Nat → List (List String) → List Tree
  | _, [] => []
  | k, [part] => [sub k part]
  | k, part :: parts =>
    sub k part :: .leaf (2 * (k + part.length) + 1) :: joined sub (k + part.length + 1) parts

/-- The tree of some operators and the operands around them, from operand number `k` on.  At each level
the operators of the level separate the parts, and an only part stands for itself. -/
def groupTree : List OperatorLevel → Nat → List String → Tree
  | [], k, _ => operandTree k
  | level :: levels, k, ops =>
    match joined (groupTree levels) k (level.parts ops) with
    | [t] => t
    | ts => .node level.rule (2 * k) (2 * (k + ops.length) + 1) ts

namespace OperatorLevel

variable {level : OperatorLevel} {levels front : List OperatorLevel} {sub : Nat → List String → Tree}
  {k : Nat} {ops before rest : List String} {s : String}

theorem exists_first (level : OperatorLevel) (ops : List String) : (∀ s ∈ ops, s ∉ level.symbols) ∨
    ∃ before s rest, ops = before ++ s :: rest ∧ (∀ u ∈ before, u ∉ level.symbols) ∧
      s ∈ level.symbols := by
  cases hfind : ops.find? (· ∈ level.symbols) with
  | none => exact Or.inl fun s hs hm => List.find?_eq_none.1 hfind s hs (decide_eq_true hm)
  | some s =>
    obtain ⟨hs, before, rest, rfl, hfree⟩ := List.find?_eq_some_iff_append.1 hfind
    exact Or.inr ⟨before, s, rest, rfl, by simpa using hfree, of_decide_eq_true hs⟩

theorem joined_of_free (h : ∀ s ∈ ops, s ∉ level.symbols) :
    joined sub k (level.parts ops) = [sub k ops] := by
  rw [parts, List.splitOnP_eq_singleton fun s hs => decide_eq_false (h s hs), joined]

theorem joined_append (h : ∀ u ∈ before, u ∉ level.symbols) (hs : s ∈ level.symbols) :
    joined sub k (level.parts (before ++ s :: rest)) = sub k before ::
      .leaf (2 * (k + before.length) + 1) :: joined sub (k + before.length + 1) (level.parts rest) := by
  obtain ⟨part, others, hrest⟩ := List.exists_cons_of_ne_nil
    (List.splitOnP_ne_nil (· ∈ level.symbols) rest)
  rw [parts, parts, List.splitOnP_append_cons_of_forall_mem (fun u hu => decide_eq_false (h u hu)) s
    (decide_eq_true hs), hrest, joined]
  exact List.cons_ne_nil _ _

example : groupTree all 0 ["+", "*"] = .node .additiveExpression 0 5
    [operandTree 0, .leaf 1, .node .multiplicativeExpression 2 5
      [operandTree 1, .leaf 3, operandTree 2]] := by
  rfl

end OperatorLevel

namespace Tree

/-- A template name with arguments. -/
def isTemplate (t : Tree) : Bool :=
  t.rule? = some .templateId || t.rule? = some .simpleTemplateId ||
    t.rule? = some .innerSimpleTemplateId

theorem mem_preorder_joined {sub : Nat → List String → Tree} {u : Tree} {k : Nat}
    {parts : List (List String)} (h : u ∈ preorderAll (joined sub k parts)) :
    (∃ k part, u ∈ (sub k part).preorder) ∨ ∃ i, u = .leaf i := by
  fun_induction joined sub k parts with
  | case1 => cases h
  | case2 k part =>
    rw [preorderAll, preorderAll, List.append_nil] at h
    exact Or.inl ⟨k, part, h⟩
  | case3 k part parts _ ih =>
    simp only [preorderAll, preorder, List.mem_append, List.mem_singleton] at h
    rcases h with h | h | h
    · exact Or.inl ⟨k, part, h⟩
    · exact Or.inr ⟨_, h⟩
    · exact ih h

end Tree

theorem isTemplate_groupTree {levels : List OperatorLevel}
    (hlevels : ∀ level ∈ levels, ∀ s e cs, (Tree.node level.rule s e cs).isTemplate = false) (k : Nat)
    (ops : List String) : ∀ u ∈ (groupTree levels k ops).preorder, u.isTemplate = false := by
  induction levels generalizing k ops with
  | nil =>
    intro u hu
    simp only [groupTree, operandTree, Tree.preorder, Tree.preorderAll, List.append_nil, List.mem_cons,
      List.not_mem_nil, or_false] at hu
    rcases hu with rfl | rfl | rfl <;> rfl
  | cons level levels ih =>
    obtain ⟨hlevel, hlevels⟩ := List.forall_mem_cons.1 hlevels
    have hparts : ∀ u ∈ Tree.preorderAll (joined (groupTree levels) k (level.parts ops)),
        u.isTemplate = false := by
      intro u hu
      obtain ⟨k, part, hu⟩ | ⟨i, rfl⟩ := Tree.mem_preorder_joined hu
      · exact ih hlevels k part u hu
      · rfl
    rw [groupTree]
    split
    · next t ht =>
      rw [ht, Tree.preorderAll, Tree.preorderAll, List.append_nil] at hparts
      exact hparts
    · rw [Tree.preorder]
      exact List.forall_mem_cons.2 ⟨hlevel _ _ _, hparts⟩

/-! ## Rules -/

namespace OperatorLevel

/-- The rule of the loosest one of some levels. -/
def ruleOf : List OperatorLevel → Rule
  | [] => .castExpression
  | level :: _ => level.rule

/-- Any operator of a level. -/
def operator (level : OperatorLevel) : Expr :=
  match level.symbols with
  | [s] => .token (.text s)
  | symbols => .choice (symbols.map fun s => .token (.text s))

/-- The further turns of a level, with the rule of its operands. -/
def turn (level : OperatorLevel) (operand : Rule) : Expr :=
  .seq [level.operator, .rule operand]

/-- The rules of some levels. -/
def steps : List OperatorLevel → List GrammarStep
  | [] => []
  | level :: levels =>
    .define level.rule (.seq [.rule (ruleOf levels), .star (level.turn (ruleOf levels))]) true ::
      steps levels

theorem sought_operator (level : OperatorLevel) : level.operator.sought = level.symbols := by
  have hall : ∀ symbols : List String,
      Expr.soughtAll (symbols.map fun s => .token (.text s)) = symbols := by
    intro symbols
    induction symbols with
    | nil => rfl
    | cons s symbols ih =>
      rw [List.map_cons, Expr.soughtAll, ih]
      rfl
  unfold operator
  split
  · next s hs =>
    rw [hs]
    rfl
  · rw [Expr.sought, hall]

theorem not_isTemplate : ∀ level ∈ all, ∀ s e cs,
    (Tree.node level.rule s e cs).isTemplate = false := by
  have hall : ∀ level ∈ all, level.rule ≠ .templateId ∧ level.rule ≠ .simpleTemplateId ∧
      level.rule ≠ .innerSimpleTemplateId := by
    simp [all]
  intro level hm s e cs
  simp [Tree.isTemplate, Tree.rule?, hall level hm]

theorem symbols_nodup : (symbolsOf all).Nodup := by
  decide +kernel

end OperatorLevel

theorem Dialect.mem_rules_of_steps {d : Dialect} {step : GrammarStep}
    (h : step ∈ OperatorLevel.steps OperatorLevel.all) : step ∈ d.rules := by
  have hmem : step ∈ Rules.operators d.extensions := by
    -- the tightest level comes first in the grammar
    have heq : Rules.operators d.extensions = (Rules.operators d.extensions).take 1 ++
        (OperatorLevel.steps OperatorLevel.all).reverse ++ (Rules.operators d.extensions).drop 12 := rfl
    rw [heq]
    simp only [List.mem_append, List.mem_reverse, h, or_true, true_or]
  exact mem_rules (by simp [groups]) hmem

open OperatorLevel

namespace Grammar

/-- The stream from operand number `k` on, with the operators of some levels before some others. -/
structure SeesGroup (g : Grammar) (tokens : TokenStream) (levels : List OperatorLevel) (k : Nat)
    (ops back : List String) : Prop where
  sees : g.SeesOperation tokens k (ops ++ back)
  within : ∀ s ∈ ops, s ∈ symbolsOf levels
  apart : ∀ s ∈ back.head?, s ∉ symbolsOf levels

/-- The rule of some levels reads all operators of these levels, and groups them. -/
def ReadsLevels (g : Grammar) (tokens : TokenStream) (levels : List OperatorLevel) : Prop :=
  ∀ k ops back, g.SeesGroup tokens levels k ops back →
    g.Gives tokens (ruleOf levels) (2 * k)
      (.matched (2 * (k + ops.length) + 1) [groupTree levels k ops])

variable {g : Grammar} {tokens : TokenStream} {level : OperatorLevel} {levels : List OperatorLevel}
  {k : Nat} {ops back : List String}

namespace SeesGroup

theorem exists_sight (h : g.SeesGroup tokens levels k ops back) :
    ∃ sight, g.Sees tokens (2 * (k + ops.length) + 1) sight ∧
      ∀ s ∈ symbolsOf levels, sight.passes (.text s) = false := by
  cases back with
  | nil =>
    refine ⟨.eof, ?_, fun _ _ => rfl⟩
    simpa using h.sees.eof
  | cons s back =>
    refine ⟨.symbol s, h.sees.operator _ s (by simp), fun u hu => ?_⟩
    refine beq_eq_false_iff_ne.2 ?_
    rintro rfl
    exact h.apart _ rfl hu

theorem tighter (h : g.SeesGroup tokens (level :: levels) k ops back)
    (hfree : ∀ s ∈ ops, s ∉ level.symbols) : g.SeesGroup tokens levels k ops back where
  sees := h.sees
  within s hs := (List.mem_append.1 (h.within s hs)).resolve_left (hfree s hs)
  apart s hs hm := h.apart s hs (List.mem_append_right _ hm)

variable {before rest : List String} {s : String}

theorem first (h : g.SeesGroup tokens (level :: levels) k (before ++ s :: rest) back)
    (hfree : ∀ u ∈ before, u ∉ level.symbols) (hs : s ∉ symbolsOf levels) :
    g.SeesGroup tokens levels k before (s :: (rest ++ back)) where
  sees := by simpa using h.sees
  within u hu := (List.mem_append.1 (h.within u (List.mem_append_left _ hu))).resolve_left (hfree u hu)
  apart u hu := by
    cases hu
    exact hs

theorem behind (h : g.SeesGroup tokens levels k (before ++ s :: rest) back) :
    g.SeesGroup tokens levels (k + before.length + 1) rest back where
  sees := by
    have hsees := h.sees
    rw [List.append_assoc, List.cons_append] at hsees
    exact hsees.behind
  within u hu := h.within u (List.mem_append_right _ (List.mem_cons_of_mem _ hu))
  apart := h.apart

end SeesGroup

theorem Sees.operator {p : Nat} {sight : Sight} (h : g.Sees tokens p sight)
    (hspells : ∀ s ∈ level.symbols, g.Spells s) (r : Rule) :
    ∃ log, Derives g tokens r (.expr level.operator) p
      (if level.symbols.any fun s => sight.passes (.text s) then .matched (p + 1) [.leaf p]
        else .failed) log := by
  obtain ⟨t, ht, hshows⟩ := h
  have haccepts : ∀ s, g.Spells s → (Terminal.text s).accepts t = sight.passes (.text s) :=
    fun s hs => hshows.accepts_eq _ (List.forall_mem_singleton.2 hs)
  have hone : ∀ s, g.Spells s → ∃ log, Derives g tokens r (.expr (.token (.text s))) p
      (if sight.passes (.text s) then .matched (p + 1) [.leaf p] else .failed) log := by
    intro s hs
    have ha := haccepts s hs
    split_ifs with hp
    · exact ⟨_, .tokenPass ht (ha.trans hp)⟩
    · exact ⟨_, .tokenFail ht (ha.trans (Bool.eq_false_iff.2 hp))⟩
  have hall : ∀ symbols : List String, (∀ s ∈ symbols, g.Spells s) → ∃ log,
      Derives g tokens r (.alternatives (symbols.map fun s => .token (.text s))) p
        (if symbols.any fun s => sight.passes (.text s) then .matched (p + 1) [.leaf p]
          else .failed) log := by
    intro symbols hsymbols
    induction symbols with
    | nil => exact ⟨_, .alternativesDone⟩
    | cons s symbols ih =>
      obtain ⟨hs, hrest⟩ := List.forall_mem_cons.1 hsymbols
      obtain ⟨log, hd⟩ := hone s hs
      obtain ⟨log', hd'⟩ := ih hrest
      rw [List.any_cons]
      cases hp : sight.passes (.text s) with
      | true =>
        rw [hp] at hd
        exact ⟨_, .alternativesMatch hd⟩
      | false =>
        rw [hp] at hd
        exact ⟨_, .alternativesNext hd hd'⟩
  unfold OperatorLevel.operator
  split
  · next s hs =>
    rw [hs] at hspells ⊢
    simpa using hone s (hspells s (List.mem_singleton_self s))
  · obtain ⟨log, hd⟩ := hall level.symbols hspells
    exact ⟨log, .choice hd⟩

/-! ## Levels -/

namespace ReadsLevels

/-- The first operand of a level, and its further turns, if operands are read.  The induction is on the
number of operators. -/
theorem exists_turns (hlevels : g.ReadsLevels tokens levels)
    (hspells : ∀ s ∈ level.symbols, g.Spells s) (hdisjoint : ∀ s ∈ level.symbols, s ∉ symbolsOf levels)
    (h : g.SeesGroup tokens (level :: levels) k ops back) :
    ∃ q t us, 2 * k < q ∧ g.Gives tokens (ruleOf levels) (2 * k) (.matched q [t]) ∧
      (∃ log, Derives g tokens level.rule (.turns (level.turn (ruleOf levels))) q
        (.matched (2 * (k + ops.length) + 1) us) log) ∧
      joined (groupTree levels) k (level.parts ops) = t :: us := by
  induction hn : ops.length using Nat.strong_induction_on generalizing k ops with
  | _ n ih =>
    subst hn
    obtain hfree | ⟨before, s, rest, rfl, hfree, hs⟩ := level.exists_first ops
    · obtain ⟨sight, hsight, hpasses⟩ := h.exists_sight
      have hnone : level.symbols.any (fun s => sight.passes (.text s)) = false := by
        refine List.any_eq_false.2 fun s hs => ?_
        rw [hpasses s (List.mem_append_left _ hs)]
        exact Bool.false_ne_true
      obtain ⟨log, hoperator⟩ := hsight.operator hspells level.rule
      rw [hnone] at hoperator
      refine ⟨_, _, [], by omega, hlevels k ops back (h.tighter hfree), ?_,
        OperatorLevel.joined_of_free hfree⟩
      exact ⟨log, .turnsStop (.seq (.itemsStop hoperator))⟩
    · have hlen : (before ++ s :: rest).length = before.length + 1 + rest.length := by
        simp only [List.length_append, List.length_cons]
        omega
      obtain ⟨q, t, us, hq, ht, ⟨log, hturns⟩, hjoined⟩ := ih rest.length (by omega) h.behind rfl
      have hsight := h.sees.operator before.length s (by simp)
      have hsome : level.symbols.any (fun u => (Sight.symbol s).passes (.text u)) = true :=
        List.any_eq_true.2 ⟨s, hs, beq_self_eq_true s⟩
      obtain ⟨log₁, hoperator⟩ := hsight.operator hspells level.rule
      obtain ⟨log₂, hoperand⟩ := ht level.rule
      rw [hsome, if_pos rfl] at hoperator
      have hplace : 2 * (k + before.length) + 1 + 1 = 2 * (k + before.length + 1) := by omega
      have hstop : k + before.length + 1 + rest.length = k + (before ++ s :: rest).length := by omega
      rw [hplace] at hoperator
      rw [hstop] at hturns
      refine ⟨_, _, .leaf (2 * (k + before.length) + 1) :: t :: us, by omega,
        hlevels k before _ (h.first hfree (hdisjoint s hs)), ?_, ?_⟩
      · have hturn := Derives.seq (.itemsMatch hoperator (.itemsMatch hoperand .itemsDone))
        exact ⟨_, .turnsMatch hturn (by omega) hturns⟩
      · rw [OperatorLevel.joined_append hfree hs, hjoined]

/-- **A level groups its operands**, if they are read. -/
theorem cons (hlevels : g.ReadsLevels tokens levels) (hf : g.find? level.rule =
      some ⟨.seq [.rule (ruleOf levels), .star (level.turn (ruleOf levels))], true⟩)
    (hdisjoint : ∀ s ∈ level.symbols, s ∉ symbolsOf levels) :
    g.ReadsLevels tokens (level :: levels) := by
  intro k ops back h
  have hspells : ∀ s ∈ level.symbols, g.Spells s := by
    intro s hs
    rw [← level.sought_operator] at hs
    refine ⟨_, _, hf, ?_⟩
    simpa [Expr.sought, Expr.soughtAll, turn] using hs
  obtain ⟨q, t, us, hq, ht, ⟨log, hturns⟩, hjoined⟩ := hlevels.exists_turns hspells hdisjoint h
  have htree : (Production.tree? ⟨.seq [.rule (ruleOf levels), .star (level.turn (ruleOf levels))], true⟩
        level.rule (2 * k) (2 * (k + ops.length) + 1) (t :: us)).toList =
      [groupTree (level :: levels) k ops] := by
    rw [Production.tree?, if_neg (by omega), groupTree, hjoined]
    cases us <;> rfl
  intro r
  obtain ⟨log', hoperand⟩ := ht level.rule
  have hbody := Derives.seq (.itemsMatch hoperand (.itemsMatch (.star hturns) .itemsDone))
  rw [List.append_nil] at hbody
  have hrule := Derives.ruleMatch (r := r) hf hbody
  rw [List.singleton_append, htree] at hrule
  exact ⟨_, hrule⟩

end ReadsLevels

/-- **Each level groups its operands**, in every dialect.  The induction is on the levels, from the
tightest one on. -/
theorem readsLevels (d : Dialect) (tokens : TokenStream) (levels : List OperatorLevel)
    (hsteps : ∀ step ∈ steps levels, step ∈ d.rules) (hnodup : (symbolsOf levels).Nodup) :
    (d.grammar []).ReadsLevels tokens levels := by
  induction levels with
  | nil =>
    intro k ops back h
    have hnil : ops = [] := List.eq_nil_iff_forall_not_mem.2 fun s hs => nomatch h.within s hs
    subst hnil
    exact h.sees.operand
  | cons level levels ih =>
    obtain ⟨hstep, hsteps⟩ := List.forall_mem_cons.1 hsteps
    obtain ⟨-, hrest, hdisjoint⟩ := List.nodup_append.1 hnodup
    refine (ih hsteps hrest).cons (Dialect.find?_grammar_of_define List.not_mem_nil hstep) ?_
    exact fun s hs hm => hdisjoint s hs s hm rfl

/-! ## Parses -/

/-- **Binary operators group by precedence**, in every dialect.  The parse of names with binary operators
between them is the tree of these operators, and reads no `<` as the beginning of template arguments. -/
theorem standard_parse_operation (d : Dialect) : ∃ g, standard? d [] = .ok g ∧
    ∀ (tokens : TokenStream) (ops : List String), g.SeesOperation tokens 0 ops →
      ∃ r, g.parse tokens .expression none = .ok r ∧
        r.tree = .node .expression 0 (2 * ops.length + 1) [groupTree OperatorLevel.all 0 ops] ∧
        ∀ u ∈ r.tree.preorder, u.isTemplate = false := by
  refine ⟨_, standard?_eq d [], fun tokens ops h => ?_⟩
  have hreads := readsLevels d tokens OperatorLevel.all (fun _ => Dialect.mem_rules_of_steps)
    OperatorLevel.symbols_nodup
  have hor := hreads 0 ops [] ⟨by simpa using h, h.binary, fun _ hs => nomatch hs⟩
  have hstop : tokens.eofIndex = 2 * ops.length + 1 := by rw [h.eofIndex_eq, Nat.zero_add]
  rw [Nat.zero_add, ← hstop] at hor
  obtain ⟨r, hr, htree⟩ := (h.expression hor).parse (Or.inl rfl)
  rw [← hstop]
  refine ⟨r, hr, htree, ?_⟩
  rw [htree, Tree.preorder, Tree.preorderAll, Tree.preorderAll, List.append_nil]
  exact List.forall_mem_cons.2 ⟨rfl, isTemplate_groupTree not_isTemplate 0 ops⟩

/-- Two comparisons. -/
def twoComparisons : TokenStream :=
  .terminated [⟨.identifier, "outer", 1, 1, 0⟩, ⟨.punctuator, "<", 1, 7, 6⟩,
    ⟨.identifier, "middle", 1, 9, 8⟩, ⟨.punctuator, ">", 1, 16, 15⟩, ⟨.identifier, "leaf", 1, 18, 17⟩]
    ⟨.eof, "", 1, 22, 21⟩

theorem twoComparisons_unspelled : ["outer", "middle", "leaf"].all (fun s =>
    Dialect.standard.rules.all fun step => step.avoids s) = true := by
  decide +kernel

/-- They are no template arguments. -/
theorem parse_twoComparisons_operation : ∃ g, standard? .standard [] = .ok g ∧
    g.SeesOperation twoComparisons 0 ["<", ">"] ∧
    ∃ r, g.parse twoComparisons .expression none = .ok r ∧
      r.tree = .node .expression 0 5 [.node .relationalExpression 0 5
        [operandTree 0, .leaf 1, operandTree 1, .leaf 3, operandTree 2]] := by
  obtain ⟨g, hg, hparse⟩ := standard_parse_operation .standard
  cases (standard?_eq _ _).symm.trans hg
  have hsees : (Dialect.standard.grammar []).SeesOperation twoComparisons 0 ["<", ">"] := by
    constructor
    case binary => decide
    case name =>
      intro i hi
      change i ≤ 2 at hi
      interval_cases i <;> exact Dialect.sees_name rfl twoComparisons_unspelled ⟨rfl, by decide⟩
    case operator =>
      intro i s hs
      have hi : i < 2 := (List.getElem?_eq_some_iff.1 hs).1
      interval_cases i <;> cases hs <;> exact sees_symbol rfl ⟨rfl, rfl⟩
    case eofIndex_eq => rfl
  obtain ⟨r, hr, htree, -⟩ := hparse twoComparisons ["<", ">"] hsees
  exact ⟨_, hg, hsees, r, hr, htree⟩

end Grammar

end PackratCpp
