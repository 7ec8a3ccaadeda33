/-
  Trees laid out flat, for navigation.

  * `Element`: an inner node, by its number, or a token, by its index.
  * `Layout`: the inner nodes in one array, numbered in preorder, and the children of all
    of them in another, where each node owns a range.
  * `Layout.ofTree`: lays out a tree.
  * `Layout.descendants`: preorder with an explicit stack; `Layout.findAll`: the nodes of a
    rule; `Layout.child?`, `Layout.follow?`: the way down.
-/
import PackratCpp.Tree.Basic

namespace PackratCpp

/-- An inner node or a token. -/
inductive Element where
  | node (id : Nat)
  | token (index : Nat)
  deriving DecidableEq, Inhabited

/-- An inner node of a layout. -/
structure NodeRecord where
  rule : Rule
  start : Nat
  stop : Nat
  /-- Where the children of the node start. -/
  firstChild : Nat
  childCount : Nat
  deriving DecidableEq, Inhabited

/-- A tree in two arrays. -/
structure Layout where
  nodes : Array NodeRecord
  slots : Array Element
  root : Element

namespace Layout

/-! ## Laying out a tree -/

/-- The arrays of a layout under construction. -/
structure Arena where
  nodes : Array NodeRecord
  slots : Array Element

mutual

/-- Adds a tree.  A node comes before its children, and its range of children before
theirs. -/
def place (a : Arena) : Tree → Element × Arena
  | .leaf i => (.token i, a)
  | .node r s e cs =>
    let id := a.nodes.size
    let first := a.slots.size
    let count := cs.length
    let a : Arena := {
      nodes := a.nodes.push ⟨r, s, e, first, count⟩
      slots := a.slots ++ Array.replicate count (.token 0) }
    (.node id, placeAll a first cs)

/-- Adds some trees as the children from a slot on. -/
def placeAll (a : Arena) (slot : Nat) : List Tree → Arena
  | [] => a
  | t :: ts =>
    let (element, a) := place a t
    placeAll { a with slots := a.slots.setIfInBounds slot element } (slot + 1) ts

end

/-- Lays out a tree. -/
def ofTree (t : Tree) : Layout :=
  let (root, a) := place ⟨#[], #[]⟩ t
  ⟨a.nodes, a.slots, root⟩

/-! ## Navigation -/

/-- Number of inner nodes. -/
def size (l : Layout) : Nat :=
  l.nodes.size

/-- The children of an element in order. -/
def children (l : Layout) : Element → List Element
  | .token _ => []
  | .node id =>
    match l.nodes[id]? with
    | some n => (l.slots.extract n.firstChild (n.firstChild + n.childCount)).toList
    | none => []

/-- One of the children of an element. -/
def child? (l : Layout) (e : Element) (i : Nat) : Option Element :=
  (l.children e)[i]?

/-- The way down from an element along some child numbers. -/
def follow? (l : Layout) (e : Element) : List Nat → Option Element
  | [] => some e
  | i :: path => (l.child? e i).bind fun c => l.follow? c path

/-- Takes elements off a stack, putting the children of each in its place. -/
def visit (l : Layout) : (turns : Nat) → (stack : List Element) → List Element
  | 0, _ => []
  | _ + 1, [] => []
  | turns + 1, e :: stack => e :: visit l turns (l.children e ++ stack)

/-- The elements below, and with, the root in preorder.  Each slot is visited once. -/
def descendants (l : Layout) : List Element :=
  l.visit (l.slots.size + 1) [l.root]

/-- The nodes of a rule, in the order of their numbers. -/
def findAll (l : Layout) (rule : Rule) : List Nat :=
  (List.range l.nodes.size).filter fun id => (l.nodes[id]?.map (·.rule)) == some rule

end Layout

end PackratCpp
