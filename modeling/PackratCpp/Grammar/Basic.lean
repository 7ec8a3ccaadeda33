/-
  Grammars: tables from rules to their bodies.

  * `Production`: a rule body and whether its node gives way to an only child.
  * `GrammarStep`, `RuleTable`: how a table is put together.  Rules are registered in
    order; a second body for a registered rule is noted as a duplicate and ignored; a
    stand-in (`GrammarStep.mock`) replaces the body and keeps the place.
  * `RuleTable.finish?`: checks that no rule has two bodies and that every rule mentioned
    has one; `GrammarError` is what it finds otherwise.
  * `Grammar`: a checked table and the dialect that it was made for.
-/
import PackratCpp.Expr.Basic
import PackratCpp.Grammar.Dialect

namespace PackratCpp

/-- The body of a rule. -/
structure Production where
  body : Expr
  /-- Whether a node with exactly one child gives way to that child. -/
  collapse : Bool
  deriving Inhabited

/-- What is wrong with a table of rules. -/
inductive GrammarError where
  | undefinedRule (rule referencedBy : Rule)
  | duplicateRule (rule : Rule)
  deriving DecidableEq

/-- The wording of a fault. -/
def GrammarError.message : GrammarError → String
  | .undefinedRule rule referencedBy =>
    "rule `" ++ rule.name ++ "` is referenced by `" ++ referencedBy.name ++
      "` but never defined"
  | .duplicateRule rule => "rule `" ++ rule.name ++ "` is defined more than once"

/-! ## Putting a table together -/

/-- One step of putting a table together. -/
inductive GrammarStep where
  | define (rule : Rule) (body : Expr) (collapse : Bool)
  /-- Reads a rule as one token spelled like its name, to look at other rules alone. -/
  | mock (rule : Rule)

/-- A body for a rule. -/
def define (rule : Rule) (body : Expr) : GrammarStep :=
  .define rule body false

/-- A body for a rule whose node gives way to an only child. -/
def collapsing (rule : Rule) (body : Expr) : GrammarStep :=
  .define rule body true

/-- The stand-in for a rule. -/
def Production.standIn (rule : Rule) : Production :=
  ⟨.token (.text rule.name), false⟩

/-- A table under construction: rules in the order of registration, and the rules that
met a second body. -/
structure RuleTable where
  entries : List (Rule × Production)
  duplicates : List Rule

namespace RuleTable

/-- No rules. -/
def empty : RuleTable := ⟨[], []⟩

/-- The body of a rule. -/
def find? (t : RuleTable) (rule : Rule) : Option Production :=
  t.entries.lookup rule

/-- Whether a rule is registered. -/
def contains (t : RuleTable) (rule : Rule) : Bool :=
  (t.find? rule).isSome

/-- Sets the body of a rule: in its place if it is registered, else at the end. -/
def insert (t : RuleTable) (rule : Rule) (p : Production) : RuleTable :=
  if t.contains rule then
    { t with entries := t.entries.map fun entry => if entry.1 = rule then (rule, p) else entry }
  else
    { t with entries := t.entries ++ [(rule, p)] }

/-- Takes one step. -/
def apply (t : RuleTable) : GrammarStep → RuleTable
  | .define rule body collapse =>
    if t.contains rule then
      { t with duplicates := t.duplicates ++ [rule] }
    else
      t.insert rule ⟨body, collapse⟩
  | .mock rule => t.insert rule (.standIn rule)

/-- Takes some steps in order. -/
def ofSteps (steps : List GrammarStep) : RuleTable :=
  steps.foldl apply empty

/-- The first rule that is mentioned but not registered, going through the entries in
order. -/
def firstUndefined? (t : RuleTable) : Option GrammarError :=
  t.entries.findSome? fun (referencedBy, p) =>
    (p.body.references.find? fun rule => !t.contains rule).map fun rule =>
      .undefinedRule rule referencedBy

/-- The productions in registry order. -/
def toArray (t : RuleTable) : Array (Option Production) :=
  (Rule.all.map t.find?).toArray

/-- Checks a table.  A rule with two bodies is reported before one with none. -/
def finish? (t : RuleTable) : Except GrammarError (Array (Option Production)) :=
  match t.duplicates with
  | rule :: _ => .error (.duplicateRule rule)
  | [] =>
    match t.firstUndefined? with
    | some fault => .error fault
    | none => .ok t.toArray

end RuleTable

/-! ## Grammars -/

/-- A table of rules, in registry order, for one dialect. -/
structure Grammar where
  dialect : Dialect
  table : Array (Option Production)

namespace Grammar

/-- The grammar that some steps give. -/
def ofSteps? (dialect : Dialect) (steps : List GrammarStep) : Except GrammarError Grammar :=
  (RuleTable.ofSteps steps).finish?.map (⟨dialect, ·⟩)

/-- The body of a rule. -/
def find? (g : Grammar) (rule : Rule) : Option Production :=
  (g.table[rule.index]?).join

/-- The defined rules in registry order. -/
def rules (g : Grammar) : List (Rule × Production) :=
  Rule.all.filterMap fun rule => (g.find? rule).map (rule, ·)

end Grammar

end PackratCpp
