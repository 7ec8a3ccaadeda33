/-
  The nodes of a finished parse.

  * `Tree.preorder_sublist`: what is inside a tree inside is inside.  `Tree.Tiled.bounds`: it spans a part
    of what the tree spans.  `Tree.Tiling.nodup`: no tree occurs twice if all nodes span something.
  * `Judgment.AtNodes`: what is said of matches holds of every node in some trees, that is, of the body
    of its rule, its span and its children.
  * `Judgment.Closed.atNodes`: it does in the trees of every match.
  * `Grammar.root_of_parse`, `Grammar.node_of_parse`: it does in the tree of a finished parse, for any
    limit on depth and whatever was refused on the way.
-/
import PackratCpp.Proofs.Engine
import PackratCpp.Proofs.Scope

namespace PackratCpp

/-! ## Trees inside a tree -/

namespace Tree

variable {t u : Tree} {ts : List Tree} {p q : Nat}

theorem exists_node {r : Rule} (h : t.rule? = some r) :
    ∃ cs, t = .node r t.start t.stop cs := by
  cases t with
  | leaf => cases h
  | node r' s e cs =>
    cases h
    exact ⟨cs, rfl⟩

theorem mem_preorder_self : ∀ t : Tree, t ∈ t.preorder := by
  intro t
  cases t with
  | leaf => exact List.mem_singleton_self _
  | node => exact List.mem_cons_self ..

theorem mem_preorder_of_children (h : u ∈ preorderAll t.children) : u ∈ t.preorder := by
  cases t with
  | leaf => cases h
  | node => exact List.mem_cons_of_mem _ h

mutual

theorem preorder_sublist {u : Tree} : ∀ t : Tree, u ∈ t.preorder → u.preorder.Sublist t.preorder
  | .leaf i, h => by rw [List.mem_singleton.1 h]
  | .node r s e cs, h => by
    rcases List.mem_cons.1 h with rfl | h
    · exact List.Sublist.refl _
    · exact (preorderAll_sublist cs h).cons _

theorem preorderAll_sublist {u : Tree} : ∀ ts : List Tree, u ∈ preorderAll ts →
    u.preorder.Sublist (preorderAll ts)
  | [], h => nomatch h
  | t :: ts, h => by
    rcases List.mem_append.1 h with h | h
    · exact (preorder_sublist t h).trans (List.sublist_append_left ..)
    · exact (preorderAll_sublist ts h).trans (List.sublist_append_right ..)

end

theorem node_notMem (r : Rule) (s e : Nat) (cs : List Tree) : .node r s e cs ∉ preorderAll cs := by
  intro h
  have hlen := (preorderAll_sublist cs h).length_le
  rw [preorder, List.length_cons] at hlen
  omega

mutual

theorem Tiled.bounds {t : Tree} (h : Tiled t) : ∀ u ∈ t.preorder,
    Tiled u ∧ t.start ≤ u.start ∧ u.stop ≤ t.stop := by
  intro u hu
  cases h with
  | leaf =>
    rw [List.mem_singleton.1 hu]
    exact ⟨.leaf, Nat.le_refl _, Nat.le_refl _⟩
  | node h =>
    rcases List.mem_cons.1 hu with rfl | hu
    · exact ⟨.node h, Nat.le_refl _, Nat.le_refl _⟩
    · exact h.bounds u hu

theorem Tiling.bounds {ts : List Tree} {p q : Nat} (h : Tiling ts p q) : ∀ u ∈ preorderAll ts,
    Tiled u ∧ p ≤ u.start ∧ u.stop ≤ q := by
  intro u hu
  cases h with
  | nil => cases hu
  | @cons t ts _ ht hts =>
    have hle := hts.leavesAll_eq.2
    have hle' := ht.leaves_eq.2
    rcases List.mem_append.1 hu with hu | hu
    · obtain ⟨htiled, hstart, hstop⟩ := ht.bounds u hu
      exact ⟨htiled, hstart, Nat.le_trans hstop hle⟩
    · obtain ⟨htiled, hstart, hstop⟩ := hts.bounds u hu
      exact ⟨htiled, Nat.le_trans hle' hstart, hstop⟩

end

theorem Tiling.single (h : Tiling [t] p q) : Tiled t ∧ t.start = p ∧ t.stop = q := by
  cases h with
  | cons ht hnil =>
    cases hnil
    exact ⟨ht, rfl, rfl⟩

/-- Every node spans some tokens. -/
def Solid (ts : List Tree) : Prop :=
  ∀ u ∈ preorderAll ts, u.start < u.stop

mutual

/-- **No tree occurs twice** among adjacent trees, if every node spans some tokens. -/
theorem Tiling.nodup {ts : List Tree} {p q : Nat} (h : Tiling ts p q) (hts : Solid ts) :
    (preorderAll ts).Nodup := by
  cases h with
  | nil => exact List.nodup_nil
  | @cons t ts _ ht hrest =>
    have hinside : Solid t.children := fun u hu =>
      hts u (List.mem_append_left _ (mem_preorder_of_children hu))
    have hbehind : Solid ts := fun u hu => hts u (List.mem_append_right _ hu)
    refine List.nodup_append.2 ⟨ht.nodup hinside, hrest.nodup hbehind, ?_⟩
    rintro u hu v hv rfl
    have hbefore := (ht.bounds u hu).2.2
    have hafter := (hrest.bounds u hv).2.1
    have hlt := hts u (List.mem_append_left _ hu)
    omega

theorem Tiled.nodup {t : Tree} (h : Tiled t) (ht : Solid t.children) : t.preorder.Nodup := by
  cases h with
  | leaf => exact List.pairwise_singleton _ _
  | @node r s e cs h => exact List.nodup_cons.2 ⟨node_notMem r s e cs, h.nodup ht⟩

end

end Tree

/-! ## What holds of every node -/

theorem Production.node_cases (production : Production) (q : Rule) (start stop : Nat)
    (trees : List Tree) :
    trees = [production.node q start stop trees] ∨
      production.node q start stop trees = .node q start stop trees := by
  by_cases h : production.collapse = true ∧ trees.length = 1
  · obtain ⟨t, rfl⟩ := List.length_eq_one_iff.1 h.2
    exact Or.inl (by rw [node_of_collapse h.1])
  · exact Or.inr (node_of_not_collapse h)

variable {g : Grammar} {tokens : TokenStream} {J : Judgment}

namespace Judgment

/-- Every node spans some tokens, and what is said of matches holds of the body of its rule, between
the bounds of its span and with its children. -/
def AtNodes (g : Grammar) (J : Judgment) (trees : List Tree) : Prop :=
  ∀ q start stop children, .node q start stop children ∈ Tree.preorderAll trees →
    start < stop ∧ ∃ production, g.find? q = some production ∧
      J (.expr production.body) start stop children

theorem AtNodes.nil : AtNodes g J [] := by
  intro _ _ _ _ h
  cases h

theorem AtNodes.leaf (i : Nat) : AtNodes g J [.leaf i] := by
  intro q start stop children h
  simp only [Tree.preorderAll, Tree.preorder, List.append_nil, List.mem_singleton] at h
  cases h

theorem AtNodes.solid {ts : List Tree} (h : AtNodes g J ts) : Tree.Solid ts := by
  intro u hu
  cases u with
  | leaf i => exact Nat.lt_succ_self i
  | node q s e cs => exact (h q s e cs hu).1

theorem AtNodes.append {ts us : List Tree} (h : AtNodes g J ts) (h' : AtNodes g J us) :
    AtNodes g J (ts ++ us) := by
  intro q start stop children hm
  rw [Tree.preorderAll_append, List.mem_append] at hm
  exact hm.elim (h q start stop children) (h' q start stop children)

theorem AtNodes.tree? {production : Production} {q : Rule} {p stop : Nat} {trees : List Tree}
    (h : AtNodes g J trees) (hf : g.find? q = some production)
    (hbody : J (.expr production.body) p stop trees) (hle : p ≤ stop) :
    AtNodes g J (production.tree? q p stop trees).toList := by
  unfold Production.tree?
  split
  · exact .nil
  · next hne =>
    rw [Option.toList_some]
    rcases production.node_cases q p stop trees with heq | heq
    · rwa [← heq]
    · rw [heq]
      intro q' start stop' children hm
      simp only [Tree.preorderAll, Tree.preorder, List.append_nil, List.mem_cons] at hm
      rcases hm with hm | hm
      · cases hm
        exact ⟨by omega, production, hf, hbody⟩
      · exact h q' start stop' children hm

/-- **What is said of matches holds of every node in their trees.** -/
theorem Closed.atNodes (hJ : J.Closed g tokens) : Judgment.Closed g tokens fun t p stop trees =>
    J t p stop trees ∧ Yields g tokens t p stop trees ∧ AtNodes g J trees where
  token ht ha := ⟨hJ.token ht ha, .token ht ha, .leaf _⟩
  anyToken ht he := ⟨hJ.anyToken ht he, .anyToken ht he, .leaf _⟩
  rule hf h := ⟨hJ.rule hf h.1, .rule hf h.2.1, h.2.2.tree? hf h.1 h.2.1.le⟩
  seq h := ⟨hJ.seq h.1, .seq h.2.1, h.2.2⟩
  itemsDone := ⟨hJ.itemsDone, .itemsDone, .nil⟩
  itemsNext h h' := ⟨hJ.itemsNext h.1 h'.1, .itemsNext h.2.1 h'.2.1, h.2.2.append h'.2.2⟩
  choice h := ⟨hJ.choice h.1, .choice h.2.1, h.2.2⟩
  alternativesTake h :=
    ⟨hJ.alternativesTake h.1, (Yields.closed g tokens).alternativesTake h.2.1, h.2.2⟩
  alternativesNext h :=
    ⟨hJ.alternativesNext h.1, (Yields.closed g tokens).alternativesNext h.2.1, h.2.2⟩
  option h := ⟨hJ.option h.1, .option h.2.1, h.2.2⟩
  optionSkip := ⟨hJ.optionSkip, .optionSkip, .nil⟩
  star h := ⟨hJ.star h.1, .star h.2.1, h.2.2⟩
  plusEmpty h := ⟨hJ.plusEmpty h.1, .plusEmpty h.2.1, .nil⟩
  plus h h' := ⟨hJ.plus h.1 h'.1, .plus h.2.1 h'.2.1, h.2.2.append h'.2.2⟩
  turnsDone := ⟨hJ.turnsDone, .turnsDone, .nil⟩
  turnsNext h h' := ⟨hJ.turnsNext h.1 h'.1, .turnsNext h.2.1 h'.2.1, h.2.2.append h'.2.2⟩
  followedBy h := ⟨hJ.followedBy h.1, .followedBy h.2.1, .nil⟩
  notFollowedBy h := ⟨hJ.notFollowedBy h, .notFollowedBy, .nil⟩
  epsilon := ⟨hJ.epsilon, .epsilon, .nil⟩

end Judgment

namespace Grammar

variable {root : Rule} {maxDepth? : Option Nat} {r : Parse}

/-- **A finished parse is a match of the body of its root rule**, up to the end of input or behind
it, and what is said of matches holds of this one and of every node in it. -/
theorem root_of_parse (hJ : J.Closed g tokens) (hr : g.parse tokens root maxDepth? = .ok r) :
    ∃ production stop trees, g.find? root = some production ∧
      (stop = tokens.eofIndex ∨ stop = tokens.length) ∧
      r.tree = production.node root 0 stop trees ∧ J (.expr production.body) 0 stop trees ∧
      Yields g tokens (.expr production.body) 0 stop trees ∧ J.AtNodes g trees := by
  obtain ⟨production, hroot⟩ : ∃ production, g.find? root = some production := by
    cases hf : g.find? root with
    | none =>
      unfold parse at hr
      simp only [hf] at hr
      cases hr
    | some production => exact ⟨production, rfl⟩
  obtain ⟨hfatal, stop, trees, ho, hstop, htree⟩ := outcome_of_parse hroot hr
  have hnone : Findings.initial.enter.Judged fun t p stop trees =>
      J t p stop trees ∧ Yields g tokens t p stop trees ∧ J.AtNodes g trees := by
    intro q p stop tree? ha
    cases ha
  obtain ⟨hbody, hy, hnodes⟩ := ((evaluateRoot_runs hfatal).judged hJ.atNodes hnone).2 _ _ ho
  exact ⟨production, stop, trees, hroot, hstop, htree, hbody, hy, hnodes⟩

/-- **What is said of matches holds of every node of a finished parse.**  Every node but the root
spans some tokens. -/
theorem node_of_parse (hJ : J.Closed g tokens) (hr : g.parse tokens root maxDepth? = .ok r)
    {q : Rule} {start stop : Nat} {children : List Tree}
    (hm : .node q start stop children ∈ r.tree.preorder) :
    (start < stop ∨ .node q start stop children = r.tree) ∧
      ∃ production, g.find? q = some production ∧ J (.expr production.body) start stop children := by
  obtain ⟨production, stop', trees, hroot, -, htree, hbody, -, hnodes⟩ := root_of_parse hJ hr
  have hinside : .node q start stop children ∈ Tree.preorderAll trees →
      (start < stop ∨ .node q start stop children = r.tree) ∧ ∃ production,
        g.find? q = some production ∧ J (.expr production.body) start stop children := by
    intro h
    obtain ⟨hlt, hnode⟩ := hnodes _ _ _ _ h
    exact ⟨Or.inl hlt, hnode⟩
  rcases production.node_cases root 0 stop' trees with heq | heq
  · refine hinside ?_
    rw [heq, ← htree]
    simpa [Tree.preorderAll] using hm
  · rw [htree, heq, Tree.preorder] at hm
    rcases List.mem_cons.1 hm with hroot' | hm
    · rw [htree, heq, hroot']
      cases hroot'
      exact ⟨Or.inr rfl, production, hroot, hbody⟩
    · exact hinside hm

/-- **The tree of a finished parse is tiled** and spans every token, with or without the end of input.
Every node but the root spans some tokens. -/
theorem tiled_of_parse (hr : g.parse tokens root maxDepth? = .ok r) :
    r.tree.Tiled ∧ Tree.Solid r.tree.children ∧ r.tree.start = 0 ∧
      (r.tree.stop = tokens.eofIndex ∨ r.tree.stop = tokens.length) := by
  obtain ⟨production, stop, trees, -, hstop, htree, -, hy, hnodes⟩ :=
    root_of_parse (Yields.closed g tokens) hr
  have htiling := hy.tiling
  rcases production.node_cases root 0 stop trees with heq | heq
  · rw [← htree] at heq
    rw [heq] at htiling hnodes
    obtain ⟨ht, hstart, rfl⟩ := htiling.single
    exact ⟨ht, fun u hu => hnodes.solid u
      (List.mem_append_left _ (Tree.mem_preorder_of_children hu)), hstart, hstop⟩
  · rw [htree, heq]
    exact ⟨.node htiling, hnodes.solid, rfl, hstop⟩

end Grammar

end PackratCpp
