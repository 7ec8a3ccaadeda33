/-
  Normal forms of parsing expressions.

  * `Expr.sequence`, `Expr.firstOf`, `Expr.optional`, `Expr.zeroOrMore`, `Expr.oneOrMore`,
    `Expr.next`, `Expr.nextNot`: the operators of `Expr`, except that `epsilon` and
    `never` are worked out at once.  Expressions that they build mention `never` only
    when they are `never`, and `epsilon` only where it can be seen.
  * `Expr.gate`: an expression that a dialect may lack.
  * `Expr.normalize`: an expression with each of its operators replaced.
-/
import PackratCpp.Expr.Basic

namespace PackratCpp.Expr

/-- Whether an expression is `never` itself. -/
def isNever : Expr → Bool
  | .never => true
  | _ => false

/-- Whether an expression is `epsilon` itself. -/
def isEpsilon : Expr → Bool
  | .epsilon => true
  | _ => false

/-- One after the other.  A part that never matches spoils the whole, parts that consume
nothing by nature are dropped, and a single part needs no sequence. -/
def sequence (items : List Expr) : Expr :=
  if items.any isNever then
    .never
  else
    match items.filter (fun e => !e.isEpsilon) with
    | [] => .epsilon
    | [e] => e
    | es => .seq es

/-- The first that matches.  Alternatives that never match are dropped, and a single one
needs no choice. -/
def firstOf (alternatives : List Expr) : Expr :=
  match alternatives.filter (fun e => !e.isNever) with
  | [] => .never
  | [e] => e
  | es => .choice es

/-- Possibly absent. -/
def optional : Expr → Expr
  | .never => .epsilon
  | .epsilon => .epsilon
  | e => .option e

/-- Any number of times. -/
def zeroOrMore : Expr → Expr
  | .never => .epsilon
  | .epsilon => .epsilon
  | e => .star e

/-- At least once. -/
def oneOrMore : Expr → Expr
  | .never => .never
  | .epsilon => .epsilon
  | e => .plus e

/-- Only where it would match. -/
def next : Expr → Expr
  | .never => .never
  | .epsilon => .epsilon
  | e => .followedBy e

/-- Only where it would not match. -/
def nextNot : Expr → Expr
  | .never => .epsilon
  | .epsilon => .never
  | e => .notFollowedBy e

/-- An expression of a dialect that may be off. -/
def gate (enabled : Bool) (e : Expr) : Expr :=
  if enabled then e else .never

/-! ## The normal form of an expression -/

mutual

/-- The expression with each operator in normal form, from the leaves up. -/
def normalize : Expr → Expr
  | .seq items => sequence (normalizeAll items)
  | .choice alternatives => firstOf (normalizeAll alternatives)
  | .option body => optional (normalize body)
  | .star body => zeroOrMore (normalize body)
  | .plus body => oneOrMore (normalize body)
  | .followedBy body => next (normalize body)
  | .notFollowedBy body => nextNot (normalize body)
  | .token test => .token test
  | .anyToken => .anyToken
  | .rule r => .rule r
  | .epsilon => .epsilon
  | .never => .never

/-- Each expression of a list in normal form. -/
def normalizeAll : List Expr → List Expr
  | [] => []
  | e :: es => normalize e :: normalizeAll es

end

end PackratCpp.Expr
