/-
  The trees of lists of template arguments inside of each other.

  * `Tree.Nests`: a tree that has a number of lists, one inside of the other, and no operators.
    `nests_nestTree`: so has the tree of a nest.
  * `Grammar.standard_parse_nest`: the parse of a nest, in every dialect.
-/
import Mathlib.Tactic.IntervalCases
import PackratCpp.Proofs.Nesting
import PackratCpp.Proofs.Nodes

namespace PackratCpp

/-! ## Trees of nests -/

namespace Tree

/-- A list of template arguments, with the name before it. -/
def isList (t : Tree) : Bool :=
  t.rule? = some .simpleTemplateId || t.rule? = some .innerSimpleTemplateId

/-- A comparison or a shift, or the choice between a list and its name. -/
def isOperation (t : Tree) : Bool :=
  t.rule? = some .relationalExpression || t.rule? = some .shiftExpression ||
    t.rule? = some .templateId

variable {p : Tree → Bool}

theorem filter_preorder_wrap {start stop : Nat} {t : Tree} (rules : List Rule)
    (h : ∀ r ∈ rules, ∀ s e cs, p (.node r s e cs) = false) :
    (wrap rules start stop t).preorder.filter p = t.preorder.filter p := by
  induction rules with
  | nil => rfl
  | cons r rules ih =>
    have hr := h r (List.mem_cons_self ..)
    show ((Tree.node r start stop [wrap rules start stop t]).preorder).filter p = _
    rw [preorder, List.filter_cons_of_neg (by rw [hr]; decide), preorderAll, preorderAll,
      List.append_nil, ih fun r hr => h r (List.mem_cons_of_mem _ hr)]

theorem filter_preorder_list {ending : ListEnd} {start stop : Nat} {t : Tree}
    (hname : ∀ s e cs, p (.node .templateName s e cs) = false) (hleaf : ∀ i, p (.leaf i) = false)
    (h : ∀ r ∈ ending.inside, ∀ s e cs, p (.node r s e cs) = false) :
    (list ending start stop t).preorder.filter p =
      [list ending start stop t].filter p ++ t.preorder.filter p := by
  have hclosers : (preorderAll ((List.range' stop ending.closers).map .leaf)).filter p = [] := by
    cases ending <;> simp [ListEnd.closers, preorderAll, preorder, hleaf]
  have hself : list ending start stop t = .node ending.rule start (stop + ending.closers) ([
      .node .templateName start (start + 1) [.leaf start],
      .leaf (start + 1),
      wrap ending.inside (start + 2) stop t] ++ (List.range' stop ending.closers).map .leaf) := rfl
  rw [hself, preorder, ← hself, List.filter_cons, List.filter_cons, preorderAll_append,
    List.filter_append, hclosers, List.append_nil]
  simp only [preorderAll, preorder, List.append_nil, List.filter_append,
    filter_preorder_wrap _ h, List.filter_cons, hname, hleaf]
  split <;> simp

theorem mem_preorder_wrap (rules : List Rule) (start stop : Nat) (t : Tree) :
    t ∈ (wrap rules start stop t).preorder := by
  induction rules with
  | nil => exact t.mem_preorder_self
  | cons r rules ih =>
    exact List.mem_cons_of_mem _ (List.mem_append_left _ ih)

theorem mem_children_list {ending : ListEnd} {start stop : Nat} {t : Tree} :
    t ∈ preorderAll (list ending start stop t).children := by
  have hwrap := mem_preorder_wrap ending.inside (start + 2) stop t
  have hchildren : preorderAll (list ending start stop t).children = _ := preorderAll_append ..
  rw [hchildren]
  refine List.mem_append_left _ ?_
  simp [preorderAll, hwrap]

end Tree

theorem ListEnd.inside_isList (ending : ListEnd) : ∀ r ∈ ending.inside, ∀ s e cs,
    (Tree.node r s e cs).isList = false ∧ (Tree.node r s e cs).isOperation = false := by
  have hall : ∀ ending : ListEnd, ∀ r ∈ ending.inside, r ≠ .simpleTemplateId ∧
      r ≠ .innerSimpleTemplateId ∧ r ≠ .relationalExpression ∧ r ≠ .shiftExpression ∧
      r ≠ .templateId := by
    intro ending
    cases ending <;> decide
  intro r hr s e cs
  obtain ⟨h₁, h₂, h₃, h₄, h₅⟩ := hall ending r hr
  simp [Tree.isList, Tree.isOperation, Tree.rule?, h₁, h₂, h₃, h₄, h₅]

variable {n m : Nat}

theorem filter_isList_nestTree (n m : Nat) : (nestTree n m).preorder.filter Tree.isList =
    (List.range m).map fun i => nestTree n (m - i) := by
  induction m with
  | zero => rfl
  | succ m ih =>
    have hlist : ∀ ending start stop t, (Tree.list ending start stop t).isList = true := by
      intro ending start stop t
      cases ending <;> rfl
    rw [List.range_succ_eq_map, List.map_cons, List.map_map]
    rw [nestTree, Tree.filter_preorder_list (fun _ _ _ => rfl) (fun _ => rfl)
      fun r hr s e cs => (ListEnd.inside_isList _ r hr s e cs).1, ih,
      List.filter_cons_of_pos (hlist ..), List.filter_nil, ← nestTree]
    simp [Function.comp_def]

theorem isOperation_nestTree (n m : Nat) : ∀ u ∈ (nestTree n m).preorder, u.isOperation = false := by
  have hnone : (nestTree n m).preorder.filter Tree.isOperation = [] := by
    induction m with
    | zero => rfl
    | succ m ih =>
      have hlist : ∀ ending start stop t, (Tree.list ending start stop t).isOperation = false := by
        intro ending start stop t
        cases ending <;> rfl
      rw [nestTree, Tree.filter_preorder_list (fun _ _ _ => rfl) (fun _ => rfl)
        fun r hr s e cs => (ListEnd.inside_isList _ r hr s e cs).2, ih, List.append_nil,
        List.filter_cons_of_neg (by rw [hlist]; decide), List.filter_nil]
  intro u hu
  exact Bool.eq_false_iff.2 (List.filter_eq_nil_iff.1 hnone u hu)

theorem nestTree_mem {k : Nat} (h : k < m) : nestTree n k ∈ Tree.preorderAll (nestTree n m).children := by
  induction m with
  | zero => omega
  | succ m ih =>
    have hself : nestTree n m ∈ Tree.preorderAll (nestTree n (m + 1)).children :=
      Tree.mem_children_list
    rcases Nat.lt_or_eq_of_le (Nat.le_of_lt_succ h) with hlt | rfl
    · exact (Tree.preorderAll_sublist _ hself).subset (Tree.mem_preorder_of_children (ih hlt))
    · exact hself

/-- **A tree is a nest of lists**: there are so many, each inside of the one before it, and the one number
`i` starts at the token `2 * i`.  It ends before a `>>` if it is not the first one and an even number of
lists is inside of it.  There is no operation in the tree. -/
structure Tree.Nests (t : Tree) (n : Nat) : Prop where
  length : (t.preorder.filter isList).length = n
  inside : (t.preorder.filter isList).Pairwise fun u v => v ∈ preorderAll u.children
  list : ∀ i u, (t.preorder.filter isList)[i]? = some u → u.start = 2 * i ∧
    u.rule? = some (if 1 ≤ i ∧ (n - (i + 1)) % 2 = 0 then .innerSimpleTemplateId
      else .simpleTemplateId)
  operation : ∀ u ∈ t.preorder, u.isOperation = false

theorem nests_nestTree (n : Nat) : (nestTree n n).Nests n := by
  constructor
  case length => rw [filter_isList_nestTree, List.length_map, List.length_range]
  case inside =>
    rw [filter_isList_nestTree, List.pairwise_map]
    refine List.pairwise_lt_range.imp_of_mem ?_
    intro i j hi hj hlt
    have hj := List.mem_range.1 hj
    exact nestTree_mem (by omega)
  case list =>
    intro i u hu
    rw [filter_isList_nestTree, List.getElem?_map] at hu
    obtain ⟨j, hj, rfl⟩ := Option.map_eq_some_iff.1 hu
    obtain ⟨hi, hrange⟩ := List.getElem?_eq_some_iff.1 hj
    rw [List.length_range] at hi
    rw [List.getElem_range] at hrange
    subst hrange
    obtain ⟨m, hm⟩ : ∃ m, n - i = m + 1 := ⟨n - i - 1, by omega⟩
    rw [hm]
    refine ⟨?_, ?_⟩
    · show 2 * (n - (m + 1)) = 2 * i
      omega
    · show some (ListEnd.of n (m + 1)).rule = _
      unfold ListEnd.of
      split_ifs <;> first | rfl | omega
  case operation => exact isOperation_nestTree n n

/-! ## Parses of nests -/

namespace Grammar

/-- **Lists of template arguments inside of each other close one by one**, in every dialect and however
many there are.  The parse of `t < t < … < x`, followed by what closes the lists, has a nest of so many
lists, and reads none of the tokens as an operator. -/
theorem standard_parse_nest (d : Dialect) : ∃ g, standard? d [] = .ok g ∧
    ∀ (tokens : TokenStream) (n : Nat), 1 ≤ n → g.SeesNest tokens n →
      ∃ r, g.parse tokens .simpleTemplateId none = .ok r ∧ r.tree = nestTree n n ∧
        r.tree.Nests n := by
  refine ⟨_, standard?_eq d [], fun tokens n hn h => ?_⟩
  obtain ⟨r, hr, htree⟩ := (h.gives hn).parse (Or.inl rfl)
  exact ⟨r, hr, htree, htree ▸ nests_nestTree n⟩

/-- Three lists. -/
def threeLists : TokenStream :=
  .terminated [⟨.identifier, "outer", 1, 1, 0⟩, ⟨.punctuator, "<", 1, 6, 5⟩,
    ⟨.identifier, "middle", 1, 7, 6⟩, ⟨.punctuator, "<", 1, 13, 12⟩, ⟨.identifier, "innermost", 1, 14, 13⟩,
    ⟨.punctuator, "<", 1, 20, 19⟩, ⟨.identifier, "leaf", 1, 21, 20⟩, ⟨.punctuator, ">>", 1, 26, 25⟩,
    ⟨.punctuator, ">", 1, 28, 27⟩] ⟨.eof, "", 1, 29, 28⟩

theorem threeLists_unspelled : ["outer", "middle", "innermost", "leaf"].all (fun s =>
    Dialect.standard.rules.all fun step => step.avoids s) = true := by
  decide +kernel

/-- The one in the middle ends with the `>>` of the innermost one, and the outermost one with `>`. -/
theorem parse_threeLists_nest : ∃ g, standard? .standard [] = .ok g ∧ g.SeesNest threeLists 3 ∧
    ∃ r, g.parse threeLists .simpleTemplateId none = .ok r ∧ r.tree.Nests 3 := by
  obtain ⟨g, hg, hparse⟩ := standard_parse_nest .standard
  cases (standard?_eq _ _).symm.trans hg
  have hnest : (Dialect.standard.grammar []).SeesNest threeLists 3 := by
    constructor
    case name =>
      intro i hi
      interval_cases i <;> exact Dialect.sees_name rfl threeLists_unspelled ⟨rfl, by decide⟩
    case opening =>
      intro i hi
      interval_cases i <;> exact sees_symbol rfl ⟨rfl, rfl⟩
    case double =>
      intro j hj
      interval_cases j
      exact sees_symbol rfl ⟨rfl, rfl⟩
    case single => exact fun _ => sees_symbol rfl ⟨rfl, rfl⟩
    case eofIndex_eq => rfl
  obtain ⟨r, hr, -, hnests⟩ := hparse threeLists 3 (by decide) hnest
  exact ⟨_, hg, hnest, r, hr, hnests⟩

end Grammar

end PackratCpp
