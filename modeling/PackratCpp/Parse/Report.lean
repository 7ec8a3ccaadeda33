/-
  What a finished parse has to report.

  * `Recovered`, `Parse.recovered`: the pieces of input that were skipped.
  * `ParseEvent`, `Parse.events`: what happened, in order, and its wording.
-/
import PackratCpp.Parse.Basic

namespace PackratCpp

/-- A piece of input that was skipped. -/
structure Recovered where
  /-- Line of the first skipped token. -/
  line : Nat
  start : Nat
  stop : Nat
  deriving DecidableEq

namespace Parse

/-- The skipped piece that a tree stands for. -/
def recovered? (tokens : TokenStream) : Tree → Option Recovered
  | .node .recoveredDeclaration s e _ => some ⟨(tokens.getClamped s).line, s, e⟩
  | _ => none

/-- The skipped pieces in order. -/
def recovered (p : Parse) : List Recovered :=
  p.tree.preorder.filterMap (recovered? p.tokens)

end Parse

/-- Something that happened during a parse. -/
inductive ParseEvent where
  | tooDeep (times : Nat)
  | parsed (tokens : Nat) (root : Rule) (evaluations hits entries : Nat)
  | skipped (line tokens : Nat)

/-- The wording of an event. -/
def ParseEvent.message : ParseEvent → String
  | .tooDeep times =>
    "recursion limit reached " ++ toString times ++ " times, nested declarations were skipped"
  | .parsed tokens root evaluations hits entries =>
    "parsed " ++ toString tokens ++ " tokens from `" ++ root.name ++ "`: " ++
      toString evaluations ++ " rule evaluations, " ++ toString hits ++ " memo hits, " ++
      toString entries ++ " memo entries"
  | .skipped line tokens =>
    "skipped unreadable declaration at line " ++ toString line ++ " (" ++ toString tokens ++
      " tokens)"

/-- What happened during a parse: refused rules if there were any, the counts, and each
skipped piece. -/
def Parse.events (p : Parse) : List ParseEvent :=
  (if 0 < p.refusals then [.tooDeep p.refusals] else []) ++
  [.parsed p.tokens.length p.rootRule p.evaluations p.hits p.entries] ++
  p.recovered.map fun r => .skipped r.line (r.stop - r.start)

end PackratCpp
