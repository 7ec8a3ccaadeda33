/-
  What the elements of an arena stand for.

  * `Layout.Arena.Valid`: the children of each node are in the arena, and older than the node.
    `Layout.Arena.Holds`: an element is in the arena.
  * `Layout.Arena.Grows`: nodes and slots are only added.  What an element stands for stays the
    same (`Grows.tree_eq`).
  * `Layout.Arena.tree_node`: one pass over the nodes reads each of them with the trees of its
    children.  `Layout.Arena.tree_finish`: what a new node stands for.
-/
import Mathlib.Data.List.Basic
import PackratCpp.Tree.Arena

namespace PackratCpp

/-- A token, or one of the first `size` nodes. -/
def Element.Below (size : Nat) : Element → Prop
  | .token _ => True
  | .node id => id < size

theorem Element.Below.mono {e : Element} {m n : Nat} (h : e.Below m) (hmn : m ≤ n) :
    e.Below n := by
  cases e with
  | token => trivial
  | node => exact Nat.lt_of_lt_of_le h hmn

namespace Layout.Arena

/-- An element is in the arena. -/
def Holds (a : Arena) (e : Element) : Prop :=
  e.Below a.nodes.size

/-- The children of each node are in the arena, and older than the node. -/
structure Valid (a : Arena) : Prop where
  owned : ∀ n ∈ a.nodes.toList, n.firstChild + n.childCount ≤ a.slots.size
  older : ∀ id n, a.nodes[id]? = some n → ∀ e ∈ a.childrenOf n, e.Below id

/-- Nodes and slots are only added. -/
structure Grows (a b : Arena) : Prop where
  nodes : a.nodes.toList <+: b.nodes.toList
  slots : a.slots.toList <+: b.slots.toList

variable {a b c : Arena} {e : Element} {n : NodeRecord}

theorem valid_empty : Valid empty := by
  constructor <;> simp [empty]

namespace Grows

theorem refl (a : Arena) : a.Grows a :=
  ⟨List.prefix_rfl, List.prefix_rfl⟩

theorem trans (h : a.Grows b) (h' : b.Grows c) : a.Grows c :=
  ⟨h.nodes.trans h'.nodes, h.slots.trans h'.slots⟩

theorem holds (h : a.Grows b) (he : a.Holds e) : b.Holds e :=
  Element.Below.mono he (by simpa using h.nodes.length_le)

theorem childrenOf_eq (h : a.Grows b) (hn : n.firstChild + n.childCount ≤ a.slots.size) :
    b.childrenOf n = a.childrenOf n := by
  obtain ⟨rest, hrest⟩ := h.slots
  have hlen : n.firstChild ≤ a.slots.toList.length := by
    rw [Array.length_toList]
    omega
  simp only [childrenOf, Array.toList_extract, ← hrest, List.extract_eq_take_drop]
  rw [List.drop_append_of_le_length hlen, List.take_append_of_le_length]
  rw [List.length_drop, Array.length_toList]
  omega

end Grows

/-! ## Reading all nodes in one pass -/

/-- Reads one more node. -/
def step (a : Arena) (trees : Array Tree) (n : NodeRecord) : Array Tree :=
  trees.push (.node n.rule n.start n.stop ((a.childrenOf n).map (treeOf trees)))

theorem trees_eq (a : Arena) : a.trees = a.nodes.toList.foldl a.step #[] := by
  rw [Array.foldl_toList]
  rfl

theorem size_foldl_step (ns : List NodeRecord) (trees : Array Tree) :
    (ns.foldl a.step trees).size = trees.size + ns.length := by
  induction ns generalizing trees with
  | nil => rfl
  | cons n ns ih =>
    rw [List.foldl_cons, ih, step, Array.size_push, List.length_cons]
    omega

theorem treeOf_foldl_step (ns : List NodeRecord) {trees : Array Tree} (he : e.Below trees.size) :
    treeOf (ns.foldl a.step trees) e = treeOf trees e := by
  induction ns generalizing trees with
  | nil => rfl
  | cons n ns ih =>
    have hstep : treeOf (a.step trees n) e = treeOf trees e := by
      cases e with
      | token => rfl
      | node id => simp only [treeOf, step, Array.getElem?_push_lt he, Array.getElem?_eq_getElem he]
    rw [List.foldl_cons, ih, hstep]
    exact he.mono (by simp [step])

theorem foldl_step_congr {ns : List NodeRecord} (h : ∀ n ∈ ns, b.childrenOf n = a.childrenOf n)
    (trees : Array Tree) : ns.foldl b.step trees = ns.foldl a.step trees :=
  List.foldl_ext _ _ _ fun trees n hn => by rw [step, step, h n hn]

/-- **What an element stands for stays the same** while the arena grows. -/
theorem Grows.tree_eq (h : a.Grows b) (ha : a.Valid) (he : a.Holds e) : b.tree e = a.tree e := by
  obtain ⟨rest, hrest⟩ := h.nodes
  have hsame : a.nodes.toList.foldl b.step #[] = a.trees := by
    rw [trees_eq]
    exact foldl_step_congr (fun n hn => h.childrenOf_eq (ha.owned n hn)) #[]
  have hsize : a.trees.size = a.nodes.size := by
    rw [trees_eq, size_foldl_step]
    simp
  rw [tree, tree, trees_eq b, ← hrest, List.foldl_append, hsame]
  exact treeOf_foldl_step rest (hsize ▸ he)

theorem Grows.map_tree_eq (h : a.Grows b) (ha : a.Valid) {es : List Element}
    (hes : ∀ e ∈ es, a.Holds e) : es.map b.tree = es.map a.tree :=
  List.map_congr_left fun e he => h.tree_eq ha (hes e he)

/-- **A node stands for its rule and span with what its children stand for.** -/
theorem tree_node (ha : a.Valid) {id : Nat} (hn : a.nodes[id]? = some n) :
    a.tree (.node id) = .node n.rule n.start n.stop ((a.childrenOf n).map a.tree) := by
  have hlt : id < a.nodes.toList.length := by simpa using (Array.getElem?_eq_some_iff.1 hn).1
  have hget : a.nodes.toList[id] = n := by simpa using (Array.getElem?_eq_some_iff.1 hn).2
  -- the nodes before, this one, and those after
  have hsplit : a.nodes.toList = a.nodes.toList.take id ++ n :: a.nodes.toList.drop (id + 1) := by
    rw [← hget, ← List.drop_eq_getElem_cons hlt, List.take_append_drop]
  obtain ⟨before, hbefore⟩ : ∃ trees, trees = (a.nodes.toList.take id).foldl a.step #[] := ⟨_, rfl⟩
  have hsize : before.size = id := by
    rw [hbefore, size_foldl_step, List.length_take, Nat.min_eq_left (Nat.le_of_lt hlt)]
    simp
  have htrees : a.trees = (a.nodes.toList.drop (id + 1)).foldl a.step (a.step before n) := by
    rw [trees_eq, hsplit, List.foldl_append, ← hbefore, List.foldl_cons]
    simp only [← hsplit]
  have hchildren : (a.childrenOf n).map a.tree = (a.childrenOf n).map (treeOf before) := by
    refine List.map_congr_left fun e he => ?_
    have hbelow := ha.older id n hn e he
    rw [tree, htrees, ← List.foldl_cons]
    exact treeOf_foldl_step _ (hsize.symm ▸ hbelow)
  rw [hchildren, tree, htrees, treeOf_foldl_step]
  · simp only [treeOf, step, ← hsize, Array.getElem?_push_size, Option.getD_some]
  · simp [Element.Below, step, hsize]

/-! ## Finishing a node -/

section
variable {rule : Rule} {start stop : Nat} {children : Array Element}

theorem grows_finish : a.Grows (a.finish rule start stop children).2 := by
  constructor <;> simp [finish]

theorem holds_finish :
    (a.finish rule start stop children).2.Holds (a.finish rule start stop children).1 := by
  simp [finish, Holds, Element.Below]

theorem childrenOf_finish :
    (a.finish rule start stop children).2.childrenOf
      ⟨rule, start, stop, a.slots.size, children.size⟩ = children.toList := by
  simp [finish, childrenOf]

theorem Valid.finish (ha : a.Valid) (hc : ∀ e ∈ children.toList, a.Holds e) :
    (a.finish rule start stop children).2.Valid := by
  constructor
  · intro n hn
    simp only [Arena.finish, Array.toList_push, List.mem_append, List.mem_singleton] at hn
    rcases hn with hn | rfl
    · have := ha.owned n hn
      simp only [Arena.finish, Array.size_append]
      omega
    · simp [Arena.finish]
  · intro id n hn e he
    by_cases hid : id < a.nodes.size
    · have hn' : a.nodes[id]? = some n := by
        rwa [Arena.finish, Array.getElem?_push_lt hid, ← Array.getElem?_eq_getElem hid] at hn
      rw [grows_finish.childrenOf_eq (ha.owned n (by simpa using Array.mem_of_getElem? hn'))] at he
      exact ha.older id n hn' e he
    · have hlt := (Array.getElem?_eq_some_iff.1 hn).1
      simp only [Arena.finish, Array.size_push] at hlt
      obtain rfl : id = a.nodes.size := by omega
      simp only [Arena.finish, Array.getElem?_push_size, Option.some.injEq] at hn
      rw [← hn, childrenOf_finish] at he
      exact hc e he

/-- **A new node stands for its rule and span with what its children stand for.** -/
theorem tree_finish (ha : a.Valid) (hc : ∀ e ∈ children.toList, a.Holds e) :
    (a.finish rule start stop children).2.tree (a.finish rule start stop children).1 =
      .node rule start stop (children.toList.map a.tree) := by
  have hget : (a.finish rule start stop children).2.nodes[a.nodes.size]? =
      some ⟨rule, start, stop, a.slots.size, children.size⟩ := by
    simp [finish]
  have hnode := tree_node (ha.finish hc) hget
  rw [childrenOf_finish, grows_finish.map_tree_eq ha hc] at hnode
  exact hnode

end

end Layout.Arena

end PackratCpp
