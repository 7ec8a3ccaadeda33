/-
  Arenas: nodes in the order in which they were finished.

  * `Layout.Arena.finish`: adds a node whose children are there already.
  * `Layout.Arena.trees`, `Layout.Arena.tree`: the trees that the elements of an arena stand for.
    A node refers to older ones only, so that one pass over the arena is enough.
-/
import PackratCpp.Tree.Layout

namespace PackratCpp.Layout.Arena

/-- Nothing. -/
def empty : Arena := ⟨#[], #[]⟩

/-- Adds a node above some elements. -/
def finish (a : Arena) (rule : Rule) (start stop : Nat) (children : Array Element) :
    Element × Arena :=
  (.node a.nodes.size,
    { nodes := a.nodes.push ⟨rule, start, stop, a.slots.size, children.size⟩
      slots := a.slots ++ children })

/-- The children of a node. -/
def childrenOf (a : Arena) (n : NodeRecord) : List Element :=
  (a.slots.extract n.firstChild (n.firstChild + n.childCount)).toList

/-- The tree of an element, given those of the nodes. -/
def treeOf (trees : Array Tree) : Element → Tree
  | .token i => .leaf i
  | .node id => trees[id]?.getD (.leaf 0)

/-- The trees of all nodes, in order. -/
def trees (a : Arena) : Array Tree :=
  a.nodes.foldl (fun trees n =>
    trees.push (.node n.rule n.start n.stop ((a.childrenOf n).map (treeOf trees)))) #[]

/-- The tree of an element. -/
def tree (a : Arena) (e : Element) : Tree :=
  treeOf a.trees e

end PackratCpp.Layout.Arena
