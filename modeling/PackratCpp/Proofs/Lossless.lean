/-
  Trees lose nothing of what was read.

  * `Layout.Lossless`: in a layout, the children of every node lie side by side and make up its span,
    nothing occurs twice, and what navigation gives for a node is what lies between the bounds of its
    span: its leaves, its outermost tokens, its line and its text.
  * `Layout.lossless_ofTree`: so it is for every tiled tree that spans a stream.
  * `Grammar.parse_lossless`: so it is for every finished parse, and no part of its tree is shared.
-/
import PackratCpp.Proofs.Agreement
import PackratCpp.Proofs.Layout
import PackratCpp.Proofs.Nodes

namespace PackratCpp

namespace Layout

/-- Some elements span adjacent pieces, from `start` up to `stop`. -/
def Adjacent (l : Layout) : List Element → Nat → Nat → Prop
  | [], start, stop => start = stop
  | e :: es, start, stop => l.start e = start ∧ l.Adjacent es (l.stop e) stop

/-- The indices of the tokens below an element, from left to right. -/
def leavesBelow (l : Layout) (e : Element) : List Nat :=
  (l.below e).filterMap Element.token?

/-- A layout over a stream loses nothing. -/
structure Lossless (l : Layout) (tokens : TokenStream) : Prop where
  /-- The root spans every token, with or without the end of input. -/
  root : l.start l.root = 0 ∧
    (l.stop l.root = tokens.eofIndex ∨ l.stop l.root = tokens.eofIndex + 1)
  /-- No node and no token occurs twice, -/
  nodup : l.descendants.Nodup
  /-- and each node occurs. -/
  mem_descendants : ∀ id < l.size, .node id ∈ l.descendants
  /-- The children of a node are adjacent, and their pieces make up its span. -/
  adjacent : ∀ id < l.size,
    l.Adjacent (l.children (.node id)) (l.start (.node id)) (l.stop (.node id))
  /-- Every node but the root spans some tokens. -/
  start_lt_stop : ∀ id < l.size, .node id ≠ l.root → l.start (.node id) < l.stop (.node id)
  /-- No text goes beyond the stream, -/
  stop_le : ∀ id < l.size, l.stop (.node id) ≤ tokens.length
  /-- and no line is looked for beyond it. -/
  line : ∀ id < l.size, ∃ t, tokens.get? (l.start (.node id)) = some t ∧
    l.line tokens (.node id) = t.line
  /-- The leaves below a node are the tokens of its span. -/
  leaves : ∀ id < l.size, l.leavesBelow (.node id) =
    List.range' (l.start (.node id)) (l.stop (.node id) - l.start (.node id))
  /-- The first token is the first leaf, -/
  first : ∀ id < l.size, tokens.firstBetween? (l.start (.node id)) (l.stop (.node id)) =
    (l.leavesBelow (.node id)).head?.bind tokens.get?
  /-- and the last token is the last one. -/
  last : ∀ id < l.size, tokens.lastBetween? (l.start (.node id)) (l.stop (.node id)) =
    (l.leavesBelow (.node id)).getLast?.bind tokens.get?
  /-- The text is that of the leaves, without the end of input. -/
  text : ∀ id < l.size, l.text tokens (.node id) = " ".intercalate
    (((l.leavesBelow (.node id)).filter fun i => !(tokens.getClamped i).isEof).map
      fun i => l.text tokens (.token i))

/-! ## Nodes of a layout and the trees that they stand for -/

section
variable {l : Layout} {n : Nat} {t : Tree}

theorem start_element (h : l.Shows n t) : l.start (t.element n) = t.start := by
  cases t with
  | leaf => rfl
  | node r s e cs =>
    obtain ⟨⟨first, hrecord⟩, -⟩ := h
    simp only [Tree.element, start, hrecord, Option.map_some, Option.getD_some, Tree.start]

theorem stop_element (h : l.Shows n t) : l.stop (t.element n) = t.stop := by
  cases t with
  | leaf => rfl
  | node r s e cs =>
    obtain ⟨⟨first, hrecord⟩, -⟩ := h
    simp only [Tree.element, stop, hrecord, Option.map_some, Option.getD_some, Tree.stop]

theorem adjacent_elements {ts : List Tree} {p q : Nat} (h : Tree.Tiling ts p q)
    (hshows : l.ShowsAll n ts) : l.Adjacent (Tree.elements n ts) p q := by
  induction ts generalizing n p with
  | nil =>
    cases h
    exact rfl
  | cons t ts ih =>
    cases h with
    | cons _ hts =>
      refine ⟨start_element hshows.1, ?_⟩
      rw [stop_element hshows.1]
      exact ih hts hshows.2

theorem node_mem_walk {t : Tree} {id : Nat} (h : id < t.size) : .node id ∈ t.walk 0 := by
  have hid : id ∈ (t.walk 0).filterMap Element.id? := by
    rw [Tree.walk_ids]
    exact List.mem_range'_1.2 ⟨Nat.zero_le _, by omega⟩
  obtain ⟨e, he, hid⟩ := List.mem_filterMap.1 hid
  cases e <;> cases hid
  exact he

theorem exists_node {id : Nat} (h : id < (ofTree t).size) : ∃ q s e cs,
    (ofTree t).Shows id (.node q s e cs) ∧
      (ofTree t).leavesBelow (.node id) = Tree.leavesAll cs ∧
      (.node id = (ofTree t).root ∧ Tree.node q s e cs = t ∨
        .node q s e cs ∈ Tree.preorderAll t.children) := by
  obtain ⟨hshows, hroot, hsize, hslots⟩ := shows_ofTree t
  have hleaves : ∀ {q s e cs}, (ofTree t).Shows id (.node q s e cs) →
      (Tree.node q s e cs).inner ≤ (ofTree t).slots.size →
      (ofTree t).leavesBelow (.node id) = Tree.leavesAll cs := by
    intro q s e cs hshown hinner
    have hbelow : (ofTree t).below (.node id) = (Tree.node q s e cs).walk id :=
      below_eq hshown hinner
    rw [leavesBelow, hbelow, Tree.walk_tokens, Tree.leaves]
  have hmem : .node id ∈ t.walk 0 := node_mem_walk (hsize ▸ h)
  cases t with
  | leaf i =>
    rw [Tree.walk, List.mem_singleton] at hmem
    cases hmem
  | node q s e cs =>
    rcases List.mem_cons.1 hmem with hid | hmem
    · cases hid
      exact ⟨q, s, e, cs, hshows, hleaves hshows (Nat.le_of_eq hslots.symm),
        Or.inl ⟨hroot.symm, rfl⟩⟩
    · obtain ⟨u, hu, m, hid, hshown, hinner⟩ := exists_shown_of_mem cs 1 hshows.2.2 hmem
      cases u with
      | leaf => cases hid
      | node q' s' e' cs' =>
        cases hid
        have hle : (Tree.node q' s' e' cs').inner ≤ (ofTree (.node q s e cs)).slots.size := by
          rw [hslots]
          exact Nat.le_trans hinner (Nat.le_add_left ..)
        exact ⟨q', s', e', cs', hshown, hleaves hshown hle, Or.inr hu⟩

end

/-! ## Layouts that lose nothing -/

/-- The node number `id` of a layout spans the tokens from `s` up to `e` and has the children `cs`. -/
structure Spans (l : Layout) (tokens : TokenStream) (id s e : Nat) (cs : List Tree) : Prop where
  start : l.start (.node id) = s
  stop : l.stop (.node id) = e
  children : l.children (.node id) = Tree.elements (id + 1) cs
  shows : l.ShowsAll (id + 1) cs
  tiling : Tree.Tiling cs s e
  start_lt : s < tokens.length
  stop_le : e ≤ tokens.length
  leaves : l.leavesBelow (.node id) = List.range' s (e - s)
  solid : .node id ≠ l.root → s < e

section
variable {t : Tree} {tokens : TokenStream}

theorem exists_spans (ht : t.Tiled) (hsolid : Tree.Solid t.children) (hstart : t.start = 0)
    (hstop : t.stop = tokens.eofIndex ∨ t.stop = tokens.length) {id : Nat}
    (h : id < (ofTree t).size) : ∃ s e cs, (ofTree t).Spans tokens id s e cs := by
  obtain ⟨q, s, e, cs, hshows, hleaves, hwhere⟩ := exists_node h
  have hmem : .node q s e cs ∈ t.preorder := by
    rcases hwhere with ⟨-, heq⟩ | hm
    · rw [heq]
      exact t.mem_preorder_self
    · exact Tree.mem_preorder_of_children hm
  obtain ⟨htiled, -, hle⟩ := ht.bounds _ hmem
  have hlength := tokens.length_eq
  have hend : e ≤ tokens.length := by
    simp only [Tree.stop] at hle hstop
    omega
  have hbegin : s < tokens.length := by
    rcases hwhere with ⟨-, heq⟩ | hm
    · rw [← heq, Tree.start] at hstart
      omega
    · have hlt : s < e := hsolid _ hm
      omega
  cases htiled with
  | node htiling =>
    refine ⟨s, e, cs, start_element hshows, stop_element hshows, hshows.2.1, hshows.2.2, htiling,
      hbegin, hend, hleaves.trans htiling.leavesAll_eq.1, fun hroot => ?_⟩
    rcases hwhere with ⟨heq, -⟩ | hm
    · exact absurd heq hroot
    · exact hsolid _ hm

/-- **The layout of a tiled tree that spans a stream loses nothing.** -/
theorem lossless_ofTree (ht : t.Tiled) (hsolid : Tree.Solid t.children) (hstart : t.start = 0)
    (hstop : t.stop = tokens.eofIndex ∨ t.stop = tokens.length) : (ofTree t).Lossless tokens := by
  obtain ⟨hshows, hroot, hsize, -⟩ := shows_ofTree t
  have hnode := fun id (hid : id < (ofTree t).size) => exists_spans ht hsolid hstart hstop hid
  constructor
  case root =>
    rw [hroot, start_element hshows, stop_element hshows, ← tokens.length_eq]
    exact ⟨hstart, hstop⟩
  case nodup =>
    rw [descendants_ofTree]
    refine Tree.nodup_walk 0 ?_
    rw [ht.leaves_eq.1]
    exact List.nodup_range'
  case mem_descendants =>
    intro id hid
    rw [descendants_ofTree]
    exact node_mem_walk (hsize ▸ hid)
  case adjacent =>
    intro id hid
    obtain ⟨s, e, cs, h⟩ := hnode id hid
    rw [h.start, h.stop, h.children]
    exact adjacent_elements h.tiling h.shows
  case start_lt_stop =>
    intro id hid hne
    obtain ⟨s, e, cs, h⟩ := hnode id hid
    rw [h.start, h.stop]
    exact h.solid hne
  case stop_le =>
    intro id hid
    obtain ⟨s, e, cs, h⟩ := hnode id hid
    rw [h.stop]
    exact h.stop_le
  case line =>
    intro id hid
    obtain ⟨s, e, cs, h⟩ := hnode id hid
    obtain ⟨u, hu⟩ := TokenStream.exists_get? h.start_lt
    exact ⟨u, by rw [h.start, hu], by rw [line, h.start, TokenStream.getClamped_eq hu]⟩
  case leaves =>
    intro id hid
    obtain ⟨s, e, cs, h⟩ := hnode id hid
    rw [h.start, h.stop]
    exact h.leaves
  case first =>
    intro id hid
    obtain ⟨s, e, cs, h⟩ := hnode id hid
    rw [h.start, h.stop, h.leaves, TokenStream.firstBetween?, List.head?_range']
    by_cases hlt : s < e
    · rw [if_pos hlt, if_neg (by omega), Option.bind_some]
    · rw [if_neg hlt, if_pos (by omega), Option.bind_none]
  case last =>
    intro id hid
    obtain ⟨s, e, cs, h⟩ := hnode id hid
    rw [h.start, h.stop, h.leaves, TokenStream.lastBetween?, List.getLast?_range']
    by_cases hlt : s < e
    · have hindex : s + (e - s) - 1 = e - 1 := by omega
      rw [if_pos hlt, if_neg (by omega), Option.bind_some, hindex]
    · rw [if_neg hlt, if_pos (by omega), Option.bind_none]
  case text =>
    intro id hid
    obtain ⟨s, e, cs, h⟩ := hnode id hid
    rw [text, h.start, h.stop, h.leaves, TokenStream.textBetween,
      TokenStream.between_eq_map h.stop_le, List.filter_map, List.map_map]
    rfl

end

end Layout

namespace Grammar

/-- **A finished parse loses nothing.**  For every grammar, stream, root rule and limit on depth, the
layout of its tree loses nothing, and no two places in the tree hold the same part, so that no node is
met twice even where trees are shared. -/
theorem parse_lossless {g : Grammar} {tokens : TokenStream} {root : Rule} {maxDepth? : Option Nat}
    {r : Parse} (hr : g.parse tokens root maxDepth? = .ok r) :
    (Layout.ofTree r.tree).Lossless tokens ∧ r.tree.preorder.Nodup := by
  obtain ⟨htiled, hsolid, hstart, hstop⟩ := tiled_of_parse hr
  exact ⟨Layout.lossless_ofTree htiled hsolid hstart hstop, htiled.nodup hsolid⟩

/-- Any token, with or without a semicolon behind it.  In between it is read for a comma, in vain. -/
def separatorOptional : Production :=
  ⟨.choice [.seq [.rule .pointerLiteral, .token (.text ";")],
    .seq [.rule .primaryExpression, .token (.text ",")], .rule .pointerLiteral], false⟩

/-- A grammar that has lists of these as `booleanLiteral`. -/
def listOfTokens : Grammar :=
  ⟨.standard, #[some ⟨.star (.rule .literal), false⟩, some ⟨.anyToken, false⟩, some separatorOptional,
    none, some ⟨.anyToken, false⟩]⟩

/-- `x; y; z`. -/
def threeTokens : TokenStream :=
  .terminated [⟨.identifier, "x", 1, 1, 0⟩, ⟨.punctuator, ";", 1, 2, 1⟩, ⟨.identifier, "y", 1, 4, 3⟩,
    ⟨.punctuator, ";", 1, 5, 4⟩, ⟨.identifier, "z", 1, 7, 6⟩] ⟨.eof, "", 1, 8, 7⟩

/-- So does that of a list whose last token is read by a rule, by another one, and then found remembered. -/
theorem parse_lossless_threeTokens :
    ∃ r, listOfTokens.parse threeTokens .booleanLiteral (some 3) = .ok r ∧
      r.hits = 2 ∧ r.tree.size = 7 ∧ r.tree.leaves = [0, 1, 2, 3, 4] ∧
      (Layout.ofTree r.tree).Lossless threeTokens ∧ r.tree.preorder.Nodup := by
  have hread : (listOfTokens.parse threeTokens .booleanLiteral (some 3)).toOption.map
      (fun r => (r.hits, r.tree.size, r.tree.leaves)) = some (2, 7, [0, 1, 2, 3, 4]) := by
    decide +kernel
  obtain ⟨r, hr, hread⟩ := exists_of_toOption hread
  simp only [Prod.mk.injEq] at hread
  obtain ⟨hhits, hsize, hleaves⟩ := hread
  exact ⟨r, hr, hhits, hsize, hleaves, parse_lossless hr⟩

end Grammar

end PackratCpp
