/-
  What a parser expects at the place where it fails.

  * `Expectation`: something that was tried there.
  * `Furthest`: the furthest place at which anything was tried in vain, what was tried
    there, and the rule at work when the place was first reached.  The expectations are
    listed once each, in the order of the first attempt.
-/
import PackratCpp.Expr.Text

namespace PackratCpp

/-- Something that a parser tries to match. -/
inductive Expectation where
  | token (test : Terminal)
  | anyToken
  | endOfInput
  deriving DecidableEq

/-- An expectation in words. -/
def Expectation.describe : Expectation → String
  | .token test => test.describe
  | .anyToken => "any token"
  | .endOfInput => "end of input"

/-- The furthest place of failure. -/
structure Furthest where
  position : Nat
  expected : Array Expectation
  rule? : Option Rule

namespace Furthest

/-- Nothing has failed yet. -/
def none : Furthest := ⟨0, #[], .none⟩

/-- Whether nothing has failed yet. -/
def isNone (f : Furthest) : Bool :=
  f.expected.isEmpty && f.rule?.isNone

/-- Takes a failure into account.  A place further on than all before it starts the list
afresh, and one that falls short of the furthest changes nothing. -/
def record (f : Furthest) (position : Nat) (rule? : Option Rule) (e : Expectation) : Furthest :=
  if f.position < position || f.isNone then
    ⟨position, #[e], rule?⟩
  else if position = f.position && !f.expected.contains e then
    { f with expected := f.expected.push e }
  else
    f

end Furthest

end PackratCpp
