/-
  What a parse asks of its grammar.

  * `Grammar.parse_congr`: a parse depends on the dialect and on what is found for each rule, not on
    how the table came about.
  * `Dialect.lookup`: the grammar of a dialect as one look-up for each rule, without the steps that
    put its table together.  `Dialect.parse_of_lookup`: a parse from it is one from the grammar.
-/
import PackratCpp.Proofs.Agreement
import PackratCpp.Proofs.Dependence
import PackratCpp.Proofs.Standard

namespace PackratCpp

variable {g g' : Grammar}

/-- **A parse depends on the dialect and on what is found for each rule.** -/
theorem Grammar.parse_congr (h : ∀ r, g.find? r = g'.find? r) (hd : g.dialect = g'.dialect)
    (tokens : TokenStream) (root : Rule) (maxDepth? : Option Nat) :
    g.parse tokens root maxDepth? = g'.parse tokens root maxDepth? :=
  parse_of_agree g.closed_true (fun r _ => h r) (by rw [hd]) rfl tokens maxDepth?

/-- The grammar of a dialect, each rule with the body that is registered for it. -/
def Dialect.lookup (d : Dialect) : Grammar :=
  ⟨d, (Rule.all.map (body? d.errorRecovery d.extensions)).toArray⟩

theorem Dialect.parse_lookup (d : Dialect) (tokens : TokenStream) (root : Rule)
    (maxDepth? : Option Nat) :
    (d.grammar []).parse tokens root maxDepth? = d.lookup.parse tokens root maxDepth? := by
  have hgrammar : (d.grammar []).dialect = d := rfl
  have hlookup : d.lookup.dialect = d := rfl
  refine Grammar.parse_congr (fun r => ?_) (hgrammar.trans hlookup.symm) tokens root maxDepth?
  rw [find?_grammar_of_not_mem List.not_mem_nil, findSome?_rules]
  simp only [Grammar.find?, lookup, List.getElem?_toArray, List.getElem?_map,
    Rule.all_getElem?_index, Option.map_some, Option.join_some]

theorem Dialect.parse_of_lookup (d : Dialect) {tokens : TokenStream} {root : Rule}
    {maxDepth? : Option Nat} {α : Type} {f : Parse → α} {a : α}
    (h : (d.lookup.parse tokens root maxDepth?).toOption.map f = some a) :
    ∃ r, (d.grammar []).parse tokens root maxDepth? = .ok r ∧ f r = a := by
  rw [← parse_lookup] at h
  exact Grammar.exists_of_toOption h

end PackratCpp
