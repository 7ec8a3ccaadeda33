/-
  Which rules a grammar can get to from a root.

  * `Grammar.successors`: the rules that the body of a rule mentions.
  * `Grammar.Reaches`: the chains of such mentions, as a relation.
  * `Grammar.reachableFrom`: the rules at the end of a chain from the root, in registry
    order.
-/
import PackratCpp.Grammar.Basic

namespace PackratCpp.Grammar

/-- The rules that the body of a rule mentions; none if it has no body. -/
def successors (g : Grammar) (rule : Rule) : List Rule :=
  match g.find? rule with
  | some p => p.body.references
  | none => []

/-- There is a chain of mentions from one rule to another. -/
inductive Reaches (g : Grammar) (root : Rule) : Rule → Prop
  | refl : Reaches g root root
  | tail {r s} : Reaches g root r → s ∈ g.successors r → Reaches g root s

/-- Depth-first search.  `pending` holds rules in `seen` whose mentions are still to be
followed; each turn either adds a rule to `seen` or takes one off `pending`, so the fuel
of `reachableFrom` is never used up. -/
def explore (g : Grammar) : Nat → List Rule → List Rule → List Rule
  | 0, _, seen => seen
  | _ + 1, [], seen => seen
  | fuel + 1, r :: pending, seen =>
    let fresh := (g.successors r).filter fun s => !seen.contains s
    explore g fuel (fresh ++ pending) (fresh ++ seen)

/-- The rules that can be reached from `root`, itself included, in registry order. -/
def reachableFrom (g : Grammar) (root : Rule) : List Rule :=
  let seen := explore g (Rule.count + 1) [root] [root]
  Rule.all.filter fun rule => seen.contains rule

end PackratCpp.Grammar
