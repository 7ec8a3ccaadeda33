/-
  What a parse finds out, whatever it keeps it in.

  * `Outcome`: what a task comes to at a place.  Giving up a parse that nests too deep is kept
    apart from an ordinary failure.  `Outcome.orSkip`, `Outcome.asAhead`, `Outcome.asNotAhead`,
    `Outcome.after`: what an option, a lookahead and the second part of a sequence make of an
    outcome.
  * `Answer`: what a rule does at a place.
  * `Findings`: the answers found so far, the furthest failure and the counts.
    `Findings.Sound`: every match among the answers can be spanned (`Yields`).
-/
import PackratCpp.Proofs.Yield

namespace PackratCpp

/-- What a task comes to at a place. -/
inductive Outcome where
  /-- It matches up to `stop` and yields some trees. -/
  | matched (stop : Nat) (trees : List Tree)
  | failed
  /-- The parse is given up. -/
  | aborted

/-- What a rule does at a place, as far as it is remembered. -/
inductive Answer where
  /-- It matches up to `stop`, and yields no tree if it consumes nothing. -/
  | matched (stop : Nat) (tree? : Option Tree)
  | failed

/-- An answer as an outcome. -/
def Answer.outcome : Answer → Outcome
  | .matched stop tree? => .matched stop tree?.toList
  | .failed => .failed

theorem Answer.outcome_ne_aborted (a : Answer) : a.outcome ≠ .aborted := by
  cases a <;> simp [outcome]

namespace Outcome

/-- Whether an expression matched. -/
def isMatched : Outcome → Bool
  | .matched _ _ => true
  | _ => false

/-- An option, or the end of a repetition: a failure matches nothing. -/
def orSkip (p : Nat) : Outcome → Outcome
  | .failed => .matched p []
  | o => o

/-- A lookahead: a match consumes nothing. -/
def asAhead (p : Nat) : Outcome → Outcome
  | .matched _ _ => .matched p []
  | o => o

/-- A lookahead for the contrary. -/
def asNotAhead (p : Nat) : Outcome → Outcome
  | .matched _ _ => .failed
  | .failed => .matched p []
  | .aborted => .aborted

/-- The outcome of the rest of a sequence, where the part before it has yielded `trees`. -/
def after (trees : List Tree) : Outcome → Outcome
  | .matched stop trees' => .matched stop (trees ++ trees')
  | o => o

/-! ### Giving up goes through -/

@[simp] theorem after_eq_aborted {ts : List Tree} {o : Outcome} :
    o.after ts = .aborted ↔ o = .aborted := by
  cases o <;> simp [after]

@[simp] theorem orSkip_eq_aborted {p : Nat} {o : Outcome} :
    o.orSkip p = .aborted ↔ o = .aborted := by
  cases o <;> simp [orSkip]

@[simp] theorem asAhead_eq_aborted {p : Nat} {o : Outcome} :
    o.asAhead p = .aborted ↔ o = .aborted := by
  cases o <;> simp [asAhead]

@[simp] theorem asNotAhead_eq_aborted {p : Nat} {o : Outcome} :
    o.asNotAhead p = .aborted ↔ o = .aborted := by
  cases o <;> simp [asNotAhead]

end Outcome

/-! ## Findings -/

/-- What a parse has found out so far. -/
structure Findings where
  /-- The answer of a rule at a place, if it is known. -/
  answer? : Rule → Nat → Option Answer
  furthest : Furthest
  /-- Number of rule bodies looked at. -/
  evaluations : Nat
  /-- Number of answers looked up. -/
  hits : Nat
  /-- Number of rules refused for nesting too deep. -/
  refusals : Nat

namespace Findings

/-- Nothing is known. -/
def initial : Findings := ⟨fun _ _ => none, .none, 0, 0, 0⟩

/-- Keeps the answer of a rule at a place. -/
def remember (f : Findings) (rule : Rule) (position : Nat) (answer : Answer) : Findings :=
  { f with
    answer? := fun q i => if q = rule ∧ i = position then some answer else f.answer? q i }

/-- Notes what was expected in vain. -/
def expect (f : Findings) (position : Nat) (rule? : Option Rule) (e : Expectation) : Findings :=
  { f with furthest := f.furthest.record position rule? e }

/-- Counts an answer that was looked up. -/
def hit (f : Findings) : Findings :=
  { f with hits := f.hits + 1 }

/-- Counts a rule that was refused. -/
def refuse (f : Findings) : Findings :=
  { f with refusals := f.refusals + 1 }

/-- Counts a rule body. -/
def enter (f : Findings) : Findings :=
  { f with evaluations := f.evaluations + 1 }

@[simp] theorem answer?_initial (rule : Rule) (position : Nat) :
    initial.answer? rule position = none := rfl

theorem answer?_remember (f : Findings) (r s : Rule) (p q : Nat) (a : Answer) :
    (f.remember r p a).answer? s q = if s = r ∧ q = p then some a else f.answer? s q := rfl

@[simp] theorem answer?_enter (f : Findings) (s : Rule) (q : Nat) :
    f.enter.answer? s q = f.answer? s q := rfl

/-! ### What is remembered can be spanned -/

/-- Every match that is remembered is one that the rule can span at its place. -/
def Sound (g : Grammar) (tokens : TokenStream) (f : Findings) : Prop :=
  ∀ r p stop tree?, f.answer? r p = some (.matched stop tree?) →
    Yields g tokens (.expr (.rule r)) p stop tree?.toList

theorem sound_initial (g : Grammar) (tokens : TokenStream) : initial.Sound g tokens := by
  intro r p stop tree? h
  simp at h

end Findings

end PackratCpp
