/-
  The tree of a finished parse is what its root reaches in the arena, in preorder.

  * `Layout.Arena.compact`: copies what an element reaches into another arena.  The slots of a node
    are reserved with the children as they were, and are set to their copies one by one.
    `Layout.Arena.compact_eq`: the copy is the layout of the tree that the element stands for.
  * `Layout.Walks`: the elements below, and with, an element in preorder, by recursion on the children.
  * `Layout.Same`: elements of two layouts that are the same but for the numbers of nodes.
  * `Layout.Preordered`: a layout whose nodes are numbered in preorder and share no slot.
    `Layout.preordered_ofTree`: so is that of every tree.
  * `Grammar.parse_compacted`: the tree of a finished parse is the compacted arena, of which no node
    that is reached from the root is shared.
-/
import Mathlib.Data.List.Nodup
import PackratCpp.Proofs.Lossless

namespace PackratCpp

/-- A bound on the ages of the nodes inside: a node is younger than its children. -/
def Element.age : Element → Nat
  | .token _ => 0
  | .node id => id + 1

theorem Element.Below.age_le {e : Element} {size : Nat} (h : e.Below size) : e.age ≤ size := by
  cases e with
  | token => exact Nat.zero_le _
  | node => exact h

/-- The measure of the recursions below: the children of a node are older than the node, and a list of
them gets shorter. -/
theorem Element.Below.lt_lex {e : Element} {id : Nat} (h : e.Below id) (rest : Nat) :
    Prod.Lex (· < ·) (· < ·) (e.age, 0) (id, rest + 1) := by
  rcases Nat.lt_or_eq_of_le h.age_le with hlt | heq
  · exact Prod.Lex.left _ _ hlt
  · rw [heq]
    exact Prod.Lex.right _ (Nat.succ_pos _)

namespace Layout

/-- The arrays of a layout. -/
def arena (l : Layout) : Arena :=
  ⟨l.nodes, l.slots⟩

/-! ## Copying what is reached -/

namespace Arena

mutual

/-- Copies an element of one arena, with everything below it, into another one.  A node comes before
its children; its slots are reserved with the children as they were. -/
def compact (a : Arena) (ha : a.Valid) (e : Element) (b : Arena) : Element × Arena :=
  match e with
  | .token i => (.token i, b)
  | .node id =>
    match hn : a.nodes[id]? with
    | none => (.node id, b)
    | some n =>
      (.node b.nodes.size, compactAll a ha id (a.childrenOf n) (ha.older id n hn) b.slots.size {
        nodes := b.nodes.push ⟨n.rule, n.start, n.stop, b.slots.size, n.childCount⟩
        slots := b.slots ++ (a.childrenOf n).toArray })
termination_by (e.age, 0)
decreasing_by exact Prod.Lex.left _ _ (Nat.lt_succ_self id)

/-- Copies the children of a node, and sets the slots from `slot` on to the copies. -/
def compactAll (a : Arena) (ha : a.Valid) (id : Nat) (es : List Element) (hes : ∀ e ∈ es, e.Below id)
    (slot : Nat) (b : Arena) : Arena :=
  match es, hes with
  | [], _ => b
  | e :: es, hes =>
    let (copy, b) := compact a ha e b
    compactAll a ha id es (fun e he => hes e (List.mem_cons_of_mem _ he)) (slot + 1)
      { b with slots := b.slots.setIfInBounds slot copy }
termination_by (id, es.length)
decreasing_by
  · exact (hes e (List.mem_cons_self ..)).lt_lex _
  · exact Prod.Lex.right _ (Nat.lt_succ_self _)

end

variable {a : Arena}

theorem Valid.length_childrenOf (ha : a.Valid) {id : Nat} {n : NodeRecord}
    (hn : a.nodes[id]? = some n) : (a.childrenOf n).length = n.childCount := by
  have howned := ha.owned n (Array.mem_toList_iff.2 (Array.mem_of_getElem? hn))
  simp only [childrenOf, Array.length_toList, Array.size_extract]
  omega

mutual

/-- **Copying an element lays out the tree that it stands for.** -/
theorem compact_eq (ha : a.Valid) (e : Element) (he : a.Holds e) (b : Arena) :
    a.compact ha e b = place b (a.tree e) := by
  match e with
  | .token i => rw [compact, tree, treeOf, place]
  | .node id =>
    have hlt : id < a.nodes.size := he
    obtain ⟨n, hn⟩ : ∃ n, a.nodes[id]? = some n := ⟨_, Array.getElem?_eq_getElem hlt⟩
    have hcs := compactAll_eq ha id (a.childrenOf n) (ha.older id n hn) (Nat.le_of_lt hlt)
      { nodes := b.nodes.push ⟨n.rule, n.start, n.stop, b.slots.size, n.childCount⟩
        slots := b.slots ++ (a.childrenOf n).toArray }
      b.slots.toList (a.childrenOf n) [] rfl (by simp)
    rw [Array.length_toList] at hcs
    rw [tree_node ha hn, place_eq, compact]
    split
    · next hnone => rw [hn] at hnone; cases hnone
    · next n' hn' =>
      obtain rfl : n = n' := Option.some.inj (hn.symm.trans hn')
      simp only [hcs, Tree.element, Tree.records, Tree.childSlots, Prod.mk.injEq, true_and,
        Arena.mk.injEq, List.length_map, ha.length_childrenOf hn]
      constructor <;> apply Array.toList_inj.1 <;> simp [ha.length_childrenOf hn]
termination_by (e.age, 0)
decreasing_by exact Prod.Lex.left _ _ (Nat.lt_succ_self id)

/-- Whatever is in the slots of a row of children, between `before` and `behind`, gives way to the
copies. -/
theorem compactAll_eq (ha : a.Valid) (id : Nat) (es : List Element) (hes : ∀ e ∈ es, e.Below id)
    (hid : id ≤ a.nodes.size) (b : Arena) (before reserved behind : List Element)
    (hreserved : reserved.length = es.length)
    (hslots : b.slots.toList = before ++ reserved ++ behind) :
    a.compactAll ha id es hes before.length b =
      ⟨b.nodes ++ (Tree.recordsAll b.slots.size (es.map a.tree)).toArray,
        (before ++ Tree.elements b.nodes.size (es.map a.tree) ++ behind ++
          Tree.childSlotsAll b.nodes.size (es.map a.tree)).toArray⟩ := by
  match es, hes with
  | [], hes =>
    obtain rfl := List.length_eq_zero_iff.1 hreserved
    have hb : b.slots = (before ++ behind).toArray := Array.toList_inj.1 (by simpa using hslots)
    simp [compactAll, Tree.recordsAll, Tree.elements, Tree.childSlotsAll, ← hb]
  | e :: es, hes =>
    obtain ⟨old, reserved, rfl⟩ := List.exists_cons_of_length_eq_add_one hreserved
    rw [List.length_cons, List.length_cons, Nat.add_right_cancel_iff] at hreserved
    have he := hes e (List.mem_cons_self ..)
    have hset : ((b.slots ++ ((a.tree e).childSlots b.nodes.size).toArray).setIfInBounds
          before.length ((a.tree e).element b.nodes.size)).toList =
        before ++ [(a.tree e).element b.nodes.size] ++ reserved ++
          (behind ++ (a.tree e).childSlots b.nodes.size) := by
      simp [hslots]
    have hrest := compactAll_eq ha id es (fun e he => hes e (List.mem_cons_of_mem _ he)) hid
      ⟨b.nodes ++ ((a.tree e).records b.slots.size).toArray,
        (b.slots ++ ((a.tree e).childSlots b.nodes.size).toArray).setIfInBounds before.length
          ((a.tree e).element b.nodes.size)⟩
      (before ++ [(a.tree e).element b.nodes.size]) reserved
      (behind ++ (a.tree e).childSlots b.nodes.size) hreserved hset
    rw [List.length_append, List.length_singleton] at hrest
    rw [compactAll, compact_eq ha e (he.mono hid) b, place_eq]
    simp only [hrest]
    simp [Tree.recordsAll, Tree.elements, Tree.childSlotsAll, Tree.length_records,
      Tree.length_childSlots]
termination_by (id, es.length)
decreasing_by
  · exact Prod.Lex.right _ (Nat.lt_succ_self _)
  · exact he.lt_lex _

end

end Arena

/-! ## Walking by recursion -/

mutual

/-- The elements below, and with, an element in preorder. -/
inductive Walks (l : Layout) : Element → List Element → Prop
  | token {i} : Walks l (.token i) [.token i]
  | node {id es} : WalksAll l (l.children (.node id)) es → Walks l (.node id) (.node id :: es)

/-- The elements below, and with, some elements. -/
inductive WalksAll (l : Layout) : List Element → List Element → Prop
  | nil : WalksAll l [] []
  | cons {e es fs gs} : Walks l e fs → WalksAll l es gs → WalksAll l (e :: es) (fs ++ gs)

end

mutual

theorem walks_element {l : Layout} : ∀ (t : Tree) (n : Nat), l.Shows n t →
    l.Walks (t.element n) (t.walk n)
  | .leaf _, _, _ => .token
  | .node _ _ _ cs, n, h => .node (h.2.1 ▸ walksAll_elements cs (n + 1) h.2.2)

theorem walksAll_elements {l : Layout} : ∀ (ts : List Tree) (n : Nat), l.ShowsAll n ts →
    l.WalksAll (Tree.elements n ts) (Tree.walkAll n ts)
  | [], _, _ => .nil
  | t :: ts, n, h => .cons (walks_element t n h.1) (walksAll_elements ts (n + t.size) h.2)

end

/-! ## The same tree in two layouts -/

mutual

/-- An element of one layout and one of another are the same but for the numbers of nodes. -/
inductive Same (l l' : Layout) : Element → Element → Prop
  | token {i} : Same l l' (.token i) (.token i)
  | node {id id' n n'} : l.nodes[id]? = some n → l'.nodes[id']? = some n' →
      (n.rule, n.start, n.stop, n.childCount) = (n'.rule, n'.start, n'.stop, n'.childCount) →
      SameAll l l' (l.children (.node id)) (l'.children (.node id')) →
      Same l l' (.node id) (.node id')

/-- The same for some elements each, one after the other. -/
inductive SameAll (l l' : Layout) : List Element → List Element → Prop
  | nil : SameAll l l' [] []
  | cons {e e' es es'} : Same l l' e e' → SameAll l l' es es' → SameAll l l' (e :: es) (e' :: es')

end

section
variable {l l' : Layout}

theorem children_eq_childrenOf {id : Nat} {n : NodeRecord} (hn : l.nodes[id]? = some n) :
    l.children (.node id) = l.arena.childrenOf n := by
  rw [children, hn]
  rfl

mutual

/-- **What shows the tree of an element is the same as the element.**  The induction is on the age of
the element and on the list of children. -/
theorem same_of_shows (hl : l.arena.Valid) (e : Element) (he : l.arena.Holds e) (m : Nat)
    (h : l'.Shows m (l.arena.tree e)) : Same l l' e ((l.arena.tree e).element m) := by
  match e with
  | .token i => exact .token
  | .node id =>
    have hlt : id < l.arena.nodes.size := he
    obtain ⟨n, hn⟩ : ∃ n, l.arena.nodes[id]? = some n := ⟨_, Array.getElem?_eq_getElem hlt⟩
    have htree := Arena.tree_node hl hn
    rw [htree] at h ⊢
    obtain ⟨⟨first, hrecord⟩, hchildren, hshows⟩ := h
    have hsame := sameAll_of_shows hl id (l.arena.childrenOf n) (hl.older id n hn)
      (Nat.le_of_lt hlt) (m + 1) hshows
    rw [← hchildren, ← children_eq_childrenOf hn] at hsame
    exact .node hn hrecord (by rw [List.length_map, hl.length_childrenOf hn]) hsame
termination_by (e.age, 0)
decreasing_by exact Prod.Lex.left _ _ (Nat.lt_succ_self id)

theorem sameAll_of_shows (hl : l.arena.Valid) (id : Nat) (es : List Element)
    (hes : ∀ e ∈ es, e.Below id) (hid : id ≤ l.arena.nodes.size) (m : Nat)
    (h : l'.ShowsAll m (es.map l.arena.tree)) :
    SameAll l l' es (Tree.elements m (es.map l.arena.tree)) := by
  match es, hes with
  | [], _ => exact .nil
  | e :: es, hes =>
    have he := hes e (List.mem_cons_self ..)
    exact .cons (same_of_shows hl e (he.mono hid) m h.1)
      (sameAll_of_shows hl id es (fun e he => hes e (List.mem_cons_of_mem _ he)) hid _ h.2)
termination_by (id, es.length)
decreasing_by
  · exact he.lt_lex _
  · exact Prod.Lex.right _ (Nat.lt_succ_self _)

end

mutual

theorem exists_walks (hl : l.arena.Valid) (e : Element) (he : l.arena.Holds e) :
    ∃ es, l.Walks e es ∧ es.map l.arena.tree = (l.arena.tree e).preorder := by
  match e with
  | .token i => exact ⟨[.token i], .token, rfl⟩
  | .node id =>
    have hlt : id < l.arena.nodes.size := he
    obtain ⟨n, hn⟩ : ∃ n, l.arena.nodes[id]? = some n := ⟨_, Array.getElem?_eq_getElem hlt⟩
    obtain ⟨es, hes, hmap⟩ := exists_walksAll hl id (l.arena.childrenOf n) (hl.older id n hn)
      (Nat.le_of_lt hlt)
    rw [← children_eq_childrenOf hn] at hes
    refine ⟨_, .node hes, ?_⟩
    rw [List.map_cons, hmap, Arena.tree_node hl hn, Tree.preorder]
termination_by (e.age, 0)
decreasing_by exact Prod.Lex.left _ _ (Nat.lt_succ_self id)

theorem exists_walksAll (hl : l.arena.Valid) (id : Nat) (es : List Element)
    (hes : ∀ e ∈ es, e.Below id) (hid : id ≤ l.arena.nodes.size) :
    ∃ fs, l.WalksAll es fs ∧ fs.map l.arena.tree = Tree.preorderAll (es.map l.arena.tree) := by
  match es, hes with
  | [], _ => exact ⟨[], .nil, rfl⟩
  | e :: es, hes =>
    have he := hes e (List.mem_cons_self ..)
    obtain ⟨fs, hfs, hmap⟩ := exists_walks hl e (he.mono hid)
    obtain ⟨gs, hgs, hmap'⟩ :=
      exists_walksAll hl id es (fun e he => hes e (List.mem_cons_of_mem _ he)) hid
    refine ⟨fs ++ gs, .cons hfs hgs, ?_⟩
    rw [List.map_append, hmap, hmap', List.map_cons, Tree.preorderAll]
termination_by (id, es.length)
decreasing_by
  · exact he.lt_lex _
  · exact Prod.Lex.right _ (Nat.lt_succ_self _)

end

end

/-! ## Layouts in preorder -/

/-- The rule of an element, if it is a node. -/
def rule? (l : Layout) (e : Element) : Option Rule :=
  (l.record? e).map (·.rule)

/-- A layout of a tree in strict preorder. -/
structure Preordered (l : Layout) : Prop where
  /-- The walk with a stack is the recursive one. -/
  walks : l.Walks l.root l.descendants
  /-- It meets the nodes in the order of their numbers, every one of them, and each once. -/
  ids : l.descendants.filterMap Element.id? = List.range l.size
  /-- The children of a node are in the array, -/
  owned : ∀ n ∈ l.nodes, n.firstChild + n.childCount ≤ l.slots.size
  /-- and each slot belongs to exactly one node. -/
  slots : ∀ slot < l.slots.size, ∃! id : Nat, ∃ n : NodeRecord, l.nodes[id]? = some n ∧
    n.firstChild ≤ slot ∧ slot < n.firstChild + n.childCount
  /-- The nodes of a rule are found in the order in which the walk meets them. -/
  findAll : ∀ rule, (l.findAll rule).map .node =
    l.descendants.filter fun e => l.rule? e == some rule

end Layout

namespace Tree

/-- The slots of the children of a node. -/
def ownSlots (n : NodeRecord) : List Nat :=
  List.range' n.firstChild n.childCount

mutual

theorem flatMap_ownSlots (m : Nat) : ∀ t : Tree,
    (t.records m).flatMap ownSlots = List.range' m t.inner
  | .leaf _ => rfl
  | .node r s e cs => by
    rw [records, List.flatMap_cons, flatMap_ownSlots_all, inner, ownSlots, List.range'_append_1]

theorem flatMap_ownSlots_all (m : Nat) : ∀ ts : List Tree,
    (recordsAll m ts).flatMap ownSlots = List.range' m (innerAll ts)
  | [] => rfl
  | t :: ts => by
    rw [recordsAll, List.flatMap_append, flatMap_ownSlots, flatMap_ownSlots_all, innerAll,
      List.range'_append_1]

end

mutual

theorem stop_ownSlots_le (m : Nat) : ∀ t : Tree, ∀ n ∈ t.records m,
    n.firstChild + n.childCount ≤ m + t.inner
  | .leaf _, _, h => nomatch h
  | .node _ _ _ cs, n, h => by
    rw [inner]
    rcases List.mem_cons.1 h with rfl | h
    · exact Nat.add_le_add_left (Nat.le_add_right ..) _
    · exact Nat.le_trans (stop_ownSlots_le_all (m + cs.length) cs n h) (Nat.le_of_eq (Nat.add_assoc ..))

theorem stop_ownSlots_le_all (m : Nat) : ∀ ts : List Tree, ∀ n ∈ recordsAll m ts,
    n.firstChild + n.childCount ≤ m + innerAll ts
  | [], _, h => nomatch h
  | t :: ts, n, h => by
    rw [innerAll]
    rcases List.mem_append.1 h with h | h
    · have hle := stop_ownSlots_le m t n h
      omega
    · have hle := stop_ownSlots_le_all (m + t.inner) ts n h
      omega

end

end Tree

namespace Layout

theorem existsUnique_row {rows : List (List Nat)} {size : Nat} (h : rows.flatten = List.range size)
    {slot : Nat} (hslot : slot < size) : ∃! i : Nat, ∃ row, rows[i]? = some row ∧ slot ∈ row := by
  have hmem : slot ∈ rows.flatten := by rw [h]; exact List.mem_range.2 hslot
  obtain ⟨row, hrow, hs⟩ := List.mem_flatten.1 hmem
  obtain ⟨i, hi⟩ := List.mem_iff_getElem?.1 hrow
  have hdisjoint := (List.nodup_flatten.1 (h ▸ List.nodup_range)).2
  refine ⟨i, ⟨row, hi, hs⟩, ?_⟩
  rintro j ⟨row', hj, hs'⟩
  obtain ⟨hi', rfl⟩ := List.getElem?_eq_some_iff.1 hi
  obtain ⟨hj', rfl⟩ := List.getElem?_eq_some_iff.1 hj
  rcases Nat.lt_trichotomy i j with hlt | rfl | hlt
  · exact (List.pairwise_iff_getElem.1 hdisjoint i j hi' hj' hlt hs hs').elim
  · rfl
  · exact (List.pairwise_iff_getElem.1 hdisjoint j i hj' hi' hlt hs' hs).elim

theorem filter_nodes {p : Element → Bool} (hp : ∀ i, p (.token i) = false) (es : List Element) :
    es.filter p = ((es.filterMap Element.id?).filter fun id => p (.node id)).map .node := by
  induction es with
  | nil => rfl
  | cons e es ih =>
    cases e with
    | token i => simp [hp, List.filterMap_cons, Element.id?, ih]
    | node id =>
      by_cases h : p (.node id) = true
      · simp [Element.id?, h, ih]
      · simp [Element.id?, h, ih]

/-- **The layout of a tree is in strict preorder.** -/
theorem preordered_ofTree (t : Tree) : (ofTree t).Preordered := by
  obtain ⟨hshows, hroot, hsize, hslots⟩ := shows_ofTree t
  have hnodes : (ofTree t).nodes.toList = t.records 0 := by
    have hplace := place_eq ⟨#[], #[]⟩ t
    simp [ofTree, hplace]
  have hids : (ofTree t).descendants.filterMap Element.id? = List.range (ofTree t).size := by
    rw [descendants_ofTree, Tree.walk_ids, Layout.size, hsize, List.range_eq_range']
  have hrows : ((ofTree t).nodes.toList.map Tree.ownSlots).flatten =
      List.range (ofTree t).slots.size := by
    rw [hnodes, ← List.flatMap_def, Tree.flatMap_ownSlots, hslots, List.range_eq_range']
  constructor
  case walks =>
    rw [descendants_ofTree, hroot]
    exact walks_element t 0 hshows
  case ids => exact hids
  case owned =>
    intro n hn
    rw [← Array.mem_toList_iff, hnodes] at hn
    rw [hslots]
    simpa using Tree.stop_ownSlots_le 0 t n hn
  case slots =>
    intro slot hslot
    have hunique := existsUnique_row hrows hslot
    simpa only [List.getElem?_map, Array.getElem?_toList, Option.map_eq_some_iff, Tree.ownSlots,
      exists_exists_and_eq_and, List.mem_range'_1] using hunique
  case findAll =>
    intro rule
    rw [filter_nodes (fun _ => rfl), hids]
    rfl

end Layout

/-! ## Finished parses -/

/-- What a parse leaves behind when the root rule has matched up to a place: its arena, with the
element of the root. -/
def State.finished (st : State) (tokens : TokenStream) (production : Production) (root : Rule)
    (stop : Nat) : Layout :=
  match st.leave.finishNode production root 0 stop 0 true with
  | (element?, st) => ⟨st.arena.nodes, st.arena.slots, element?.getD (.token tokens.eofIndex)⟩

/-- **The tree of a finished parse is what its root reaches in the arena, in strict preorder.**  For
every grammar, stream, root rule and limit on depth: copying the element of the root out of the arena
that the parse leaves behind gives the layout of the tree, which is the same tree.  No node of the
arena is reached twice, and the layout is in preorder. -/
theorem Grammar.parse_compacted {g : Grammar} {tokens : TokenStream} {root : Rule}
    {maxDepth? : Option Nat} {r : Parse} (hr : g.parse tokens root maxDepth? = .ok r) :
    ∃ production stop, g.find? root = some production ∧
      (g.evaluateRoot tokens root production maxDepth?).1 = some stop ∧
      ∃ left, left = (g.evaluateRoot tokens root production maxDepth?).2.finished tokens production
          root stop ∧
        (∃ hvalid : left.arena.Valid, left.arena.compact hvalid left.root .empty =
          ((Layout.ofTree r.tree).root, (Layout.ofTree r.tree).arena)) ∧
        Layout.Same left (Layout.ofTree r.tree) left.root (Layout.ofTree r.tree).root ∧
        (∃ reached, left.Walks left.root reached ∧ reached.Nodup) ∧
        (Layout.ofTree r.tree).Preordered := by
  obtain ⟨production, -, -, hroot, -⟩ := root_of_parse (Yields.closed g tokens) hr
  have hk := g.evaluateRoot_keeps tokens root production maxDepth?
  have htree := hr
  unfold parse at htree
  rcases he : g.evaluateRoot tokens root production maxDepth? with ⟨_ | stop, st⟩
  · simp only [hroot, he] at htree
    split_ifs at htree
  rw [he] at hk
  have hsound : st.leave.Sound g tokens := hk.sound.congr rfl rfl rfl
  obtain ⟨element?, arena, hnode, -, hvalid, hholds, hmap⟩ :=
    hsound.finishNode production root 0 stop 0 true
  simp only [hroot, he] at htree
  split_ifs at htree
  cases element? with
  | none => cases hmap
  | some e =>
    simp only [hnode, Option.getD_some, Except.ok.injEq] at htree
    have hleft : st.finished tokens production root stop = ⟨arena.nodes, arena.slots, e⟩ := by
      simp only [State.finished, hnode, Option.getD_some]
    have htree : arena.tree e = r.tree := by rw [← htree]
    obtain ⟨htiled, hsolid, -⟩ := tiled_of_parse hr
    refine ⟨production, stop, hroot, by rw [he], _, rfl, ?_⟩
    rw [he, hleft]
    refine ⟨⟨hvalid, ?_⟩, ?_, ?_, Layout.preordered_ofTree r.tree⟩
    · show arena.compact hvalid e .empty = _
      rw [Layout.Arena.compact_eq hvalid e (hholds e rfl), htree]
      rfl
    · obtain ⟨hshows, hroot', -⟩ := Layout.shows_ofTree r.tree
      have hsame := Layout.same_of_shows (l := ⟨arena.nodes, arena.slots, e⟩) hvalid e
        (hholds e rfl) 0 (htree ▸ hshows)
      rw [hroot', ← htree]
      exact hsame
    · obtain ⟨reached, hreached, hpreorder⟩ := Layout.exists_walks
        (l := ⟨arena.nodes, arena.slots, e⟩) hvalid e (hholds e rfl)
      refine ⟨reached, hreached, List.Nodup.of_map arena.tree ?_⟩
      rw [show reached.map arena.tree = (arena.tree e).preorder from hpreorder, htree]
      exact htiled.nodup hsolid

/-- So is that of a list whose last token is read twice in alternatives that are abandoned, and then found
remembered: the arena has a node for each of the two readings, and one of them is not reached. -/
theorem Grammar.parse_threeTokens_compacted :
    ∃ r, listOfTokens.parse threeTokens .booleanLiteral (some 3) = .ok r ∧ ∃ left : Layout,
      left.nodes.size = 8 ∧ (Layout.ofTree r.tree).nodes.size = 7 ∧
      (∃ hvalid : left.arena.Valid, left.arena.compact hvalid left.root .empty =
        ((Layout.ofTree r.tree).root, (Layout.ofTree r.tree).arena)) ∧
      Layout.Same left (Layout.ofTree r.tree) left.root (Layout.ofTree r.tree).root ∧
      (∃ reached, left.Walks left.root reached ∧ reached.Nodup) ∧
      (Layout.ofTree r.tree).Preordered := by
  have hsize : (listOfTokens.parse threeTokens .booleanLiteral (some 3)).toOption.map
      (fun r => (Layout.ofTree r.tree).nodes.size) = some 7 := by decide +kernel
  obtain ⟨r, hr, hsize⟩ := exists_of_toOption hsize
  obtain ⟨production, stop, hroot, hstop, left, hleft, hcompact, hsame, hreached, hpre⟩ :=
    parse_compacted hr
  cases hroot
  have hfive : (listOfTokens.evaluateRoot threeTokens .booleanLiteral
      ⟨.star (.rule .literal), false⟩ (some 3)).1 = some 5 := by decide +kernel
  cases hfive.symm.trans hstop
  have hnodes : ((listOfTokens.evaluateRoot threeTokens .booleanLiteral
      ⟨.star (.rule .literal), false⟩ (some 3)).2.finished threeTokens
      ⟨.star (.rule .literal), false⟩ .booleanLiteral 5).nodes.size = 8 := by decide +kernel
  exact ⟨r, hr, left, by rw [hleft]; exact hnodes, hsize, hcompact, hsame, hreached, hpre⟩

end PackratCpp
