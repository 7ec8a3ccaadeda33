/-
  Lists of template arguments inside of each other close one by one.

  * `Grammar.SeesNest`: a stream is `t < t < … < x >> …`, with as many lists as are closed.
  * `ListEnd`: the ways in which a list ends: with `>`, with a `>>` that ends the list inside of it too, or
    without a token, since the list around it takes the `>>`.  `Tree.list`: a list that ends in one of them.
  * `Nesting.foreseen`: what the rules for lists come to, if it is known what they come to one list further
    in.  Where an odd number of lists is left, `simpleTemplateId` misreads them.
  * `nestTree`: the tree of the innermost lists of a nest.
  * `Grammar.SeesNest.reads`: what the rules for lists come to, by induction on the number of lists.
    `Grammar.SeesNest.gives`: all of them are read by `simpleTemplateId`.
-/
import PackratCpp.Proofs.Foresight

namespace PackratCpp

/-! ## Lists -/

/-- The ways in which a list of template arguments ends. -/
inductive ListEnd where
  /-- With `>`. -/
  | single
  /-- With a `>>` that ends the list inside of it as well. -/
  | double
  /-- Before the `>>` that ends the list around it. -/
  | inner
  deriving DecidableEq

namespace ListEnd

/-- The rule of a list. -/
def rule : ListEnd → Rule
  | .single | .double => .simpleTemplateId
  | .inner => .innerSimpleTemplateId

/-- The rules between a type and the name that it is. -/
def typeRules : List Rule :=
  [.typeId, .typeSpecifierSeq, .typeSpecifier, .trailingTypeSpecifier, .simpleTypeSpecifier, .typeName,
    .className]

/-- The rules between a list and its argument. -/
def inside : ListEnd → List Rule
  | .single => .templateArgumentList :: .templateArgument :: typeRules
  | .double => [.innerTemplateId, .innerTypeId, .innerTrailingTypeSpecifier]
  | .inner => .innerTemplateArgumentList :: .innerTemplateArgument :: typeRules

/-- How many tokens there are behind the argument. -/
def closers : ListEnd → Nat
  | .single | .double => 1
  | .inner => 0

end ListEnd

namespace Tree

/-- A tree inside some rules that span no more. -/
def wrap (rules : List Rule) (start stop : Nat) (t : Tree) : Tree :=
  rules.foldr (fun r t => .node r start stop [t]) t

/-- A template name at `start` with one argument up to `stop`. -/
def list (ending : ListEnd) (start stop : Nat) (argument : Tree) : Tree :=
  .node ending.rule start (stop + ending.closers) ([
    .node .templateName start (start + 1) [.leaf start],
    .leaf (start + 1),
    wrap ending.inside (start + 2) stop argument] ++ (List.range' stop ending.closers).map .leaf)

end Tree

namespace Sketch

/-- A sketch inside some rules that span no more. -/
def wrap (rules : List Rule) (start stop : Nat) (s : Sketch) : Sketch :=
  rules.foldr (fun r s => .node r start stop [s]) s

/-- A template name at the first spot with one argument up to `stop`. -/
def list (ending : ListEnd) (stop : Nat) (argument : Sketch) : Sketch :=
  .node ending.rule 0 (stop + ending.closers) ([
    .node .templateName 0 1 [.leaf 0],
    .leaf 1,
    wrap ending.inside 2 stop argument] ++ (List.range' stop ending.closers).map .leaf)

variable {place : Nat → Nat} {given : Nat → Tree}

theorem tree_wrap (rules : List Rule) (start stop : Nat) (s : Sketch) :
    (wrap rules start stop s).tree place given =
      Tree.wrap rules (place start) (place stop) (s.tree place given) := by
  induction rules with
  | nil => rfl
  | cons r rules ih =>
    show Tree.node r _ _ [(wrap rules start stop s).tree place given] = _
    rw [ih]
    rfl

theorem tree_list (ending : ListEnd) (stop : Nat) (argument : Sketch) (h₁ : place 1 = place 0 + 1)
    (h₂ : place 2 = place 0 + 2) (hstop : place (stop + 1) = place stop + 1) :
    (list ending stop argument).tree place given =
      Tree.list ending (place 0) (place stop) (argument.tree place given) := by
  cases ending <;>
    simp [list, Tree.list, ListEnd.closers, ListEnd.rule, tree, trees, tree_wrap, h₁, h₂, hstop]

end Sketch

theorem Outlook.verdict_list {place : Nat → Nat} {given : Nat → Tree} {ending : ListEnd}
    {stop stop' : Nat} {argument : Sketch} (h₁ : place 1 = place 0 + 1) (h₂ : place 2 = place 0 + 2)
    (hstop : place (stop + 1) = place stop + 1) :
    (matched stop' [.list ending stop argument]).verdict place given =
      .matched (place stop') [.list ending (place 0) (place stop) (argument.tree place given)] := by
  rw [verdict, Sketch.trees, Sketch.trees, Sketch.tree_list _ _ _ h₁ h₂ hstop]

/-! ## What is foreseen -/

namespace Nesting

/-- What may stand behind the closers that are looked at. -/
def behind : List Sight := [.symbol ">>", .symbol ">", .eof]

/-- The beginning of two lists, one inside of the other. -/
def openings : List (List Sight) := [[.name], [.symbol "<"], [.name], [.symbol "<"]]

/-- The innermost list, before a `>>`. -/
def innermost : Window :=
  ⟨[[.name], [.symbol "<"], [.name], [.symbol ">>"], behind], [], []⟩

/-- The two innermost lists, of which the inner one takes the `>>` of the outer one for its end. -/
def twoInnermost : Window :=
  ⟨openings ++ [[.name], [.symbol ">>"], behind], [],
    [⟨.simpleTemplateId, 2, .failed⟩, ⟨.innerSimpleTemplateId, 2, .matched 5 [.given 1]⟩]⟩

/-- A list around an odd number of them. -/
def aroundOdd : Window :=
  ⟨openings, [[.symbol ">>"], behind],
    [⟨.simpleTemplateId, 2, .matched 4 [.given 0]⟩,
      ⟨.innerSimpleTemplateId, 2, .matched 4 [.given 1]⟩]⟩

/-- A list around an even number of them, which is not the outermost one. -/
def aroundEven : Window :=
  ⟨openings, [[.symbol ">>"], [.symbol ">>"], behind],
    [⟨.simpleTemplateId, 2, .matched 5 [.given 0]⟩,
      ⟨.innerSimpleTemplateId, 2, .matched 4 [.given 1]⟩]⟩

/-- The outermost list around an even number of them. -/
def aroundAll : Window :=
  ⟨openings, [[.symbol ">>"], [.symbol ">"], [.eof]],
    [⟨.simpleTemplateId, 2, .matched 5 [.given 0]⟩,
      ⟨.innerSimpleTemplateId, 2, .matched 4 [.given 1]⟩]⟩

/-- A list that is alone. -/
def alone : Window :=
  ⟨[[.name], [.symbol "<"], [.name], [.symbol ">"], [.eof]], [], []⟩

/-- A name as an operand. -/
def operand (k : Nat) : Sketch :=
  .wrap [.idExpression, .unqualifiedId] k (k + 1) (.leaf k)

/-- Two lists are misread where the outer one is to leave the `>>` alone: the inner one is taken for a
comparison. -/
def comparison : Sketch :=
  .node .innerSimpleTemplateId 0 5 [
    .node .templateName 0 1 [.leaf 0],
    .leaf 1,
    .wrap [.innerTemplateArgumentList, .innerTemplateArgument, .constantExpression] 2 5
      (.node .relationalExpression 2 5 [operand 2, .leaf 3, operand 4])]

/-- What the rules for lists come to in each window.  Where an odd number of lists is left,
`simpleTemplateId` ends with a `>>` that is not its own. -/
def prospects : List Prospect := [
  ⟨innermost, [
    ⟨.simpleTemplateId, 0, .failed⟩,
    ⟨.innerSimpleTemplateId, 0, .matched 3 [.list .inner 3 (.leaf 2)]⟩]⟩,
  ⟨twoInnermost, [
    ⟨.simpleTemplateId, 0, .matched 6 [.list .double 5 (.given 1)]⟩,
    ⟨.innerSimpleTemplateId, 0, .matched 5 [comparison]⟩]⟩,
  ⟨aroundOdd, [
    ⟨.simpleTemplateId, 0, .matched 5 [.list .double 4 (.given 1)]⟩,
    ⟨.innerSimpleTemplateId, 0, .matched 4 [.list .inner 4 (.given 0)]⟩]⟩,
  ⟨aroundEven, [
    ⟨.simpleTemplateId, 0, .matched 5 [.list .double 4 (.given 1)]⟩,
    ⟨.innerSimpleTemplateId, 0, .matched 5 [.list .inner 5 (.given 0)]⟩]⟩,
  ⟨aroundAll, [
    ⟨.simpleTemplateId, 0, .matched 6 [.list .single 5 (.given 0)]⟩]⟩,
  ⟨alone, [
    ⟨.simpleTemplateId, 0, .matched 4 [.list .single 3 (.leaf 2)]⟩]⟩]

/-- **All of this is foreseen, with any extensions.** -/
theorem foreseen : ∀ gnu managed atl : Bool,
    Extensions.foresee ⟨gnu, managed, atl⟩ prospects = true := by
  decide +kernel

end Nesting

/-! ## Nests -/

/-- A stream is `t < t < … < x` with `n` lists, followed by what closes them: `>>` for every two lists, and
`>` if one is left. -/
structure Grammar.SeesNest (g : Grammar) (tokens : TokenStream) (n : Nat) : Prop where
  name : ∀ i ≤ n, g.Sees tokens (2 * i) .name
  opening : ∀ i < n, g.Sees tokens (2 * i + 1) (.symbol "<")
  double : ∀ j < n / 2, g.Sees tokens (2 * n + 1 + j) (.symbol ">>")
  single : n % 2 = 1 → g.Sees tokens (2 * n + 1 + n / 2) (.symbol ">")
  eofIndex_eq : tokens.eofIndex = 2 * n + 1 + (n + 1) / 2

/-- How the outermost of the `m` innermost lists ends, out of `n`. -/
def ListEnd.of (n m : Nat) : ListEnd :=
  if m % 2 = 0 then .double else if m = n then .single else .inner

/-- The tree of the `m` innermost lists of a nest of `n`. -/
def nestTree (n : Nat) : Nat → Tree
  | 0 => .leaf (2 * n)
  | m + 1 => .list (.of n (m + 1)) (2 * (n - (m + 1))) (2 * n + 1 + m / 2) (nestTree n m)

theorem nestTree_succ {n i m : Nat} (hn : n = i + (m + 1)) (ending : ListEnd)
    (hending : ListEnd.of n (m + 1) = ending) :
    nestTree n (m + 1) = .list ending (2 * i) (2 * n + 1 + m / 2) (nestTree n m) := by
  have hi : n - (m + 1) = i := by omega
  rw [nestTree, hending, hi]

/-- What the rules for lists come to at the innermost `m` lists of a nest of `n`, inside `i` others.  They
are read right by `simpleTemplateId` if they are of an even number, and by `innerSimpleTemplateId` if they
are of an odd one. -/
structure Grammar.ReadsNest (g : Grammar) (tokens : TokenStream) (n i m : Nat) : Prop where
  one : m = 1 → g.Gives tokens .simpleTemplateId (2 * i) .failed
  simple : 2 ≤ m → ∃ t, g.Gives tokens .simpleTemplateId (2 * i) (.matched (2 * n + 1 + m / 2) [t]) ∧
    (m % 2 = 0 → t = nestTree n m)
  inner : ∃ t, g.Gives tokens .innerSimpleTemplateId (2 * i)
    (.matched (2 * n + 1 + (m - 1) / 2) [t]) ∧ (m % 2 = 1 → t = nestTree n m)

namespace Grammar.SeesNest

theorem only {g : Grammar} {tokens : TokenStream} {i j : Nat} {sight : Sight}
    (h : g.Sees tokens j sight) (hij : i = j) : ∃ s ∈ [sight], g.Sees tokens i s :=
  ⟨sight, .head _, hij ▸ h⟩

section
variable {g : Grammar} {tokens : TokenStream} {n : Nat} (h : g.SeesNest tokens n)
include h

theorem behind {i j : Nat} (hj : j ≤ (n + 1) / 2) (hi : i = 2 * n + 1 + j) :
    ∃ sight ∈ Nesting.behind, g.Sees tokens i sight := by
  subst hi
  by_cases hdouble : j < n / 2
  · exact ⟨_, .head _, h.double j hdouble⟩
  · by_cases heof : j = (n + 1) / 2
    · subst heof
      rw [← h.eofIndex_eq]
      exact ⟨_, .tail _ (.tail _ (.head _)), g.sees_eof tokens⟩
    · have hsingle : n % 2 = 1 ∧ j = n / 2 := by omega
      rw [hsingle.2]
      exact ⟨_, .tail _ (.head _), h.single hsingle.1⟩

theorem openings {i : Nat} (hi : i + 2 ≤ n) : g.SeesRun tokens (2 * i) Nesting.openings :=
  ⟨only (h.name i (by omega)) rfl, only (h.opening i (by omega)) rfl,
    only (h.name (i + 1) (by omega)) rfl, only (h.opening (i + 1) (by omega)) rfl, trivial⟩

end

variable {d : Dialect} {tokens : TokenStream} {n i m : Nat}

/-- The trees of the two rules one list further in. -/
def pair (t u : Tree) : Nat → Tree
  | 0 => t
  | _ => u

theorem reads_one (h : (d.grammar []).SeesNest tokens n) (hn : n = i + 1) (hi : 1 ≤ i) :
    (d.grammar []).ReadsNest tokens n i 1 := by
  have hfits : Nesting.innermost.Fits (d.grammar []) tokens (2 * i) (2 * i + 5)
      (pair (.leaf 0) (.leaf 0)) := by
    refine ⟨Nat.le_refl _, ?_, trivial, fun _ hm => nomatch hm⟩
    exact ⟨only (h.name i (by omega)) rfl, only (h.opening i (by omega)) rfl,
      only (h.name n (Nat.le_refl n)) (by omega), only (h.double 0 (by omega)) (by omega),
      h.behind (j := 1) (by omega) (by omega), trivial⟩
  have hsimple := hfits.gives_of_foreseen Nesting.foreseen 0 rfl 0 rfl
  have hinner := hfits.gives_of_foreseen Nesting.foreseen 0 rfl 1 rfl
  rw [Outlook.verdict_list rfl rfl rfl] at hinner
  have hend : ListEnd.of n 1 = .inner := by
    rw [ListEnd.of, if_neg (by decide), if_neg (by omega)]
  constructor
  case one => exact fun _ => hsimple
  case simple => exact fun h2 => absurd h2 (by decide)
  case inner =>
    refine ⟨nestTree n 1, ?_, fun _ => rfl⟩
    rw [nestTree_succ hn .inner hend]
    subst hn
    exact hinner

theorem reads_two (h : (d.grammar []).SeesNest tokens n) (hn : n = i + 2)
    (hreads : (d.grammar []).ReadsNest tokens n (i + 1) 1) :
    (d.grammar []).ReadsNest tokens n i 2 := by
  obtain ⟨t, hknown, ht⟩ := hreads.inner
  have hfits : Nesting.twoInnermost.Fits (d.grammar []) tokens (2 * i) (2 * i + 7)
      (pair (.leaf 0) t) := by
    refine ⟨Nat.le_refl _, ?_, trivial, ?_⟩
    · exact ⟨only (h.name i (by omega)) rfl, only (h.opening i (by omega)) rfl,
        only (h.name (i + 1) (by omega)) rfl, only (h.opening (i + 1) (by omega)) rfl,
        only (h.name n (Nat.le_refl n)) (by omega), only (h.double 0 (by omega)) (by omega),
        h.behind (j := 1) (by omega) (by omega), trivial⟩
    · subst hn
      exact List.forall_mem_cons.2 ⟨hreads.one rfl, List.forall_mem_singleton.2 hknown⟩
  have hsimple := hfits.gives_of_foreseen Nesting.foreseen 1 rfl 0 rfl
  have hinner := hfits.gives_of_foreseen Nesting.foreseen 1 rfl 1 rfl
  rw [Outlook.verdict_list rfl rfl rfl] at hsimple
  constructor
  case one => exact fun h1 => absurd h1 (by decide)
  case simple =>
    refine fun _ => ⟨nestTree n 2, ?_, fun _ => rfl⟩
    rw [nestTree_succ hn .double rfl, ← ht rfl]
    subst hn
    exact hsimple
  case inner =>
    subst hn
    exact ⟨_, hinner, fun hodd => absurd hodd (by decide)⟩

theorem reads_aroundOdd (h : (d.grammar []).SeesNest tokens n) (hn : n = i + (m + 1)) (hm : m % 2 = 1)
    (hm3 : 3 ≤ m) (hreads : (d.grammar []).ReadsNest tokens n (i + 1) m) :
    (d.grammar []).ReadsNest tokens n i (m + 1) := by
  obtain ⟨t, hsimple, -⟩ := hreads.simple (by omega)
  obtain ⟨u, hinner, hu⟩ := hreads.inner
  have hstop : (m - 1) / 2 = m / 2 := by omega
  have hfits : Nesting.aroundOdd.Fits (d.grammar []) tokens (2 * i) (2 * n + 1 + m / 2)
      (pair t u) := by
    refine ⟨?_, h.openings (by omega), ?_, ?_⟩
    · show 2 * i + 4 ≤ _
      omega
    · exact ⟨only (h.double (m / 2) (by omega)) rfl, h.behind (j := m / 2 + 1) (by omega) rfl, trivial⟩
    · rw [hstop] at hinner
      exact List.forall_mem_cons.2 ⟨hsimple, List.forall_mem_singleton.2 hinner⟩
  have hsimple := hfits.gives_of_foreseen Nesting.foreseen 2 rfl 0 rfl
  have hinner := hfits.gives_of_foreseen Nesting.foreseen 2 rfl 1 rfl
  rw [Outlook.verdict_list rfl rfl rfl] at hsimple hinner
  have hend : ListEnd.of n (m + 1) = .double := if_pos (by omega)
  have hnext : (m + 1) / 2 = m / 2 + 1 := by omega
  constructor
  case one => omega
  case simple =>
    refine fun _ => ⟨nestTree n (m + 1), ?_, fun _ => rfl⟩
    rw [nestTree_succ hn .double hend, ← hu hm, hnext]
    exact hsimple
  case inner => exact ⟨_, hinner, fun hodd => by omega⟩

theorem reads_aroundEven (h : (d.grammar []).SeesNest tokens n) (hn : n = i + (m + 1))
    (hm : m % 2 = 0) (hm2 : 2 ≤ m) (hi : 1 ≤ i) (hreads : (d.grammar []).ReadsNest tokens n (i + 1) m) :
    (d.grammar []).ReadsNest tokens n i (m + 1) := by
  obtain ⟨t, hsimple, ht⟩ := hreads.simple hm2
  obtain ⟨u, hinner, -⟩ := hreads.inner
  obtain ⟨k, rfl⟩ : ∃ k, m = 2 * (k + 1) := ⟨m / 2 - 1, by omega⟩
  have hstop : 2 * (k + 1) / 2 = k + 1 := by omega
  have hstop' : (2 * (k + 1) - 1) / 2 = k := by omega
  have hfits : Nesting.aroundEven.Fits (d.grammar []) tokens (2 * i) (2 * n + 1 + k) (pair t u) := by
    refine ⟨?_, h.openings (by omega), ?_, ?_⟩
    · show 2 * i + 4 ≤ _
      omega
    · exact ⟨only (h.double k (by omega)) rfl, only (h.double (k + 1) (by omega)) rfl,
        h.behind (j := k + 2) (by omega) rfl, trivial⟩
    · rw [hstop] at hsimple
      rw [hstop'] at hinner
      exact List.forall_mem_cons.2 ⟨hsimple, List.forall_mem_singleton.2 hinner⟩
  have hsimple := hfits.gives_of_foreseen Nesting.foreseen 3 rfl 0 rfl
  have hinner := hfits.gives_of_foreseen Nesting.foreseen 3 rfl 1 rfl
  rw [Outlook.verdict_list rfl rfl rfl] at hsimple hinner
  have hend : ListEnd.of n (2 * (k + 1) + 1) = .inner := by
    rw [ListEnd.of, if_neg (by omega), if_neg (by omega)]
  have hnext : (2 * (k + 1) + 1) / 2 = k + 1 := by omega
  constructor
  case one => omega
  case simple =>
    rw [hnext]
    exact fun _ => ⟨_, hsimple, fun heven => by omega⟩
  case inner =>
    refine ⟨nestTree n (2 * (k + 1) + 1), ?_, fun _ => rfl⟩
    rw [nestTree_succ hn .inner hend, ← ht hm, Nat.add_sub_cancel, hstop]
    exact hinner

/-- **What the rules for lists come to**, by induction on the number of lists: those that are not all of an
odd number. -/
theorem reads (h : (d.grammar []).SeesNest tokens n) (hn : n = i + (m + 1))
    (hall : 1 ≤ i ∨ (m + 1) % 2 = 0) : (d.grammar []).ReadsNest tokens n i (m + 1) := by
  induction m generalizing i with
  | zero => exact h.reads_one hn (by omega)
  | succ m ih =>
    have hreads := ih (i := i + 1) (by omega) (Or.inl (Nat.le_add_left 1 i))
    by_cases hone : m = 0
    · subst hone
      exact h.reads_two hn hreads
    · rcases Nat.mod_two_eq_zero_or_one (m + 1) with heven | hodd
      · exact h.reads_aroundEven hn heven (by omega) (by omega) hreads
      · exact h.reads_aroundOdd hn hodd (by omega) hreads

theorem gives_alone (h : (d.grammar []).SeesNest tokens 1) :
    (d.grammar []).Gives tokens .simpleTemplateId 0 (.matched 4 [nestTree 1 1]) := by
  have hfits : Nesting.alone.Fits (d.grammar []) tokens 0 5 (pair (.leaf 0) (.leaf 0)) := by
    refine ⟨Nat.le_refl _, ?_, trivial, fun _ hm => nomatch hm⟩
    exact ⟨only (h.name 0 (by omega)) rfl, only (h.opening 0 (by omega)) rfl,
      only (h.name 1 (by omega)) rfl, only (h.single rfl) rfl,
      only (sees_eof _ tokens) h.eofIndex_eq.symm, trivial⟩
  have hsimple := hfits.gives_of_foreseen Nesting.foreseen 5 rfl 0 rfl
  rw [Outlook.verdict_list rfl rfl rfl] at hsimple
  exact hsimple

theorem gives_aroundAll {k : Nat} (hn : n = 2 * (k + 1) + 1) (h : (d.grammar []).SeesNest tokens n) :
    (d.grammar []).Gives tokens .simpleTemplateId 0 (.matched (2 * n + 1 + (k + 2)) [nestTree n n]) := by
  have hreads : (d.grammar []).ReadsNest tokens n 1 (2 * (k + 1)) :=
    h.reads (m := 2 * k + 1) (by omega) (Or.inl (Nat.le_refl 1))
  have hstop : 2 * (k + 1) / 2 = k + 1 := by omega
  have hstop' : (2 * (k + 1) - 1) / 2 = k := by omega
  obtain ⟨t, hsimple, ht⟩ := hreads.simple (by omega)
  obtain ⟨u, hinner, -⟩ := hreads.inner
  rw [hstop] at hsimple
  rw [hstop'] at hinner
  have hfits : Nesting.aroundAll.Fits (d.grammar []) tokens 0 (2 * n + 1 + k) (pair t u) := by
    refine ⟨?_, h.openings (i := 0) (by omega), ?_, ?_⟩
    · show 0 + 4 ≤ _
      omega
    · have heof := h.eofIndex_eq
      exact ⟨only (h.double k (by omega)) rfl, only (h.single (by omega)) (by omega),
        only (sees_eof _ tokens) (by omega), trivial⟩
    · exact List.forall_mem_cons.2 ⟨hsimple, List.forall_mem_singleton.2 hinner⟩
  have hsimple := hfits.gives_of_foreseen Nesting.foreseen 4 rfl 0 rfl
  rw [Outlook.verdict_list rfl rfl rfl] at hsimple
  have hend : ListEnd.of n (2 * (k + 1) + 1) = .single := by
    rw [ListEnd.of, if_neg (by omega), if_pos hn.symm]
  have htree := nestTree_succ (hn.trans (Nat.zero_add _).symm) .single hend
  rw [← hn, hstop, ← ht (by omega)] at htree
  rw [htree]
  exact hsimple

/-- **All lists of a nest are read by `simpleTemplateId`.** -/
theorem gives (h : (d.grammar []).SeesNest tokens n) (hn : 1 ≤ n) :
    (d.grammar []).Gives tokens .simpleTemplateId 0 (.matched tokens.eofIndex [nestTree n n]) := by
  rw [h.eofIndex_eq]
  rcases Nat.mod_two_eq_zero_or_one n with heven | hodd
  · obtain ⟨m, rfl⟩ := Nat.exists_eq_add_of_le' hn
    obtain ⟨t, hsimple, ht⟩ := (h.reads (Nat.zero_add _).symm (Or.inr heven)).simple (by omega)
    have hstop : (m + 1 + 1) / 2 = (m + 1) / 2 := by omega
    rw [hstop, ← ht heven]
    exact hsimple
  · by_cases hone : n = 1
    · subst hone
      exact h.gives_alone
    · obtain ⟨k, hk⟩ : ∃ k, n = 2 * (k + 1) + 1 := ⟨n / 2 - 1, by omega⟩
      have hstop : (n + 1) / 2 = k + 2 := by omega
      rw [hstop]
      exact h.gives_aroundAll hk

end Grammar.SeesNest

end PackratCpp
