/-
  Parse trees.

  * `Tree`: a leaf is a token, named by its index; an inner node is a rule with the
    tokens that it spans and its children in order.
  * `Tree.Covers`: the tokens that a tree spans.  In the trees of a parse the children of
    a node span adjacent pieces that make up the span of the node (`Tree.Tiled`).
  * `Tree.leaves`, `Tree.size`: the tokens of a tree in order, and how many nodes it has.
  * `Tree.preorder`: the trees inside a tree, each before those inside it.
-/
import PackratCpp.Rule

namespace PackratCpp

/-- A tree over the tokens of a stream. -/
inductive Tree where
  | leaf (index : Nat)
  /-- A rule that matched the tokens from `start` up to, but not including, `stop`. -/
  | node (rule : Rule) (start stop : Nat) (children : List Tree)
  deriving Inhabited

namespace Tree

mutual

/-- Decides whether two trees are the same. -/
def decEq : (t u : Tree) → Decidable (t = u)
  | .leaf i, .leaf j => decidable_of_iff (i = j) (by rw [Tree.leaf.injEq])
  | .node r s e cs, .node r' s' e' cs' =>
    have := decEqAll cs cs'
    decidable_of_iff (r = r' ∧ s = s' ∧ e = e' ∧ cs = cs') (by rw [Tree.node.injEq])
  | .leaf _, .node .. | .node .., .leaf _ => isFalse nofun

/-- Decides whether two lists of trees are the same. -/
def decEqAll : (ts us : List Tree) → Decidable (ts = us)
  | [], [] => isTrue rfl
  | t :: ts, u :: us =>
    have := decEq t u
    have := decEqAll ts us
    decidable_of_iff (t = u ∧ ts = us) (by rw [List.cons.injEq])
  | [], _ :: _ | _ :: _, [] => isFalse nofun

end

instance : DecidableEq Tree :=
  decEq

/-- Index of the first token that a tree spans. -/
def start : Tree → Nat
  | .leaf i => i
  | .node _ s _ _ => s

/-- Index behind the last token that a tree spans. -/
def stop : Tree → Nat
  | .leaf i => i + 1
  | .node _ _ e _ => e

/-- The rule of an inner node. -/
def rule? : Tree → Option Rule
  | .leaf _ => none
  | .node r _ _ _ => some r

/-- The children of a tree. -/
def children : Tree → List Tree
  | .leaf _ => []
  | .node _ _ _ cs => cs

mutual

/-- The tokens at the leaves, from left to right. -/
def leaves : Tree → List Nat
  | .leaf i => [i]
  | .node _ _ _ cs => leavesAll cs

/-- The tokens at the leaves of some trees. -/
def leavesAll : List Tree → List Nat
  | [] => []
  | t :: ts => leaves t ++ leavesAll ts

end

mutual

/-- Number of inner nodes. -/
def size : Tree → Nat
  | .leaf _ => 0
  | .node _ _ _ cs => sizeAll cs + 1

/-- Number of inner nodes of some trees. -/
def sizeAll : List Tree → Nat
  | [] => 0
  | t :: ts => size t + sizeAll ts

end

mutual

/-- A tree and all the trees inside it, each before those inside it. -/
def preorder : Tree → List Tree
  | .leaf i => [.leaf i]
  | .node r s e cs => .node r s e cs :: preorderAll cs

/-- Some trees and all the trees inside them. -/
def preorderAll : List Tree → List Tree
  | [] => []
  | t :: ts => preorder t ++ preorderAll ts

end

/-! ## Spans -/

mutual

/-- Every node spans exactly what its children span, one after the other. -/
inductive Tiled : Tree → Prop
  | leaf {i} : Tiled (.leaf i)
  | node {r s e cs} : Tiling cs s e → Tiled (.node r s e cs)

/-- Some trees span adjacent pieces, from `start` up to `stop`. -/
inductive Tiling : List Tree → Nat → Nat → Prop
  | nil {p} : Tiling [] p p
  | cons {t ts e} : Tiled t → Tiling ts t.stop e → Tiling (t :: ts) t.start e

end

end Tree

end PackratCpp
