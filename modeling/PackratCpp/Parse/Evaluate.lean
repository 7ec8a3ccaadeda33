/-
  Evaluation of parsing expressions, with every answer of a rule remembered.

  * `Expr.evaluate`: where an expression matches up to at a place, given what rules do
    (`RuleCall`).  What it matches is left on the stack of the state, and a failure leaves the stack
    as it was.  Sequences go from left to right, a choice commits to its first alternative that
    matches, repetitions are greedy, lookaheads leave nothing.
  * `Setup.invoke`: what a rule does at a place: the remembered answer, or else that of its
    body.  It goes no deeper than a given number of rules inside each other.

  Once the parse is given up, nothing matches any more.
-/
import PackratCpp.Parse.State
import PackratCpp.Token.Stream

namespace PackratCpp

/-- What rules do at places: where they match up to, and the element that they yield. -/
abbrev RuleCall := Rule → Nat → State → Option (Nat × Option Element) × State

/-! ## Expressions -/

/-- One token that passes a test.  Behind the end of input nothing is tried. -/
def Terminal.evaluate (tokens : TokenStream) (test : Terminal) (pos : Nat) (st : State) :
    Option Nat × State :=
  match tokens.get? pos with
  | none => (none, st)
  | some t =>
    if test.accepts t then
      (some (pos + 1), st.yield (some (.token pos)))
    else
      (none, st.expect pos (.token test))

/-- Any one token but the end of input. -/
def evaluateAnyToken (tokens : TokenStream) (pos : Nat) (st : State) : Option Nat × State :=
  match tokens.get? pos with
  | some t =>
    if t.isEof then
      (none, st.expect pos .anyToken)
    else
      (some (pos + 1), st.yield (some (.token pos)))
  | none => (none, st.expect pos .anyToken)

/-- Goes on with `step` for as long as it consumes something.  Every turn but the last one gets
further, so that there are no more turns than `turns` if it starts as the number of places
from `pos` on. -/
def repeatStep (step : Nat → State → Option Nat × State) :
    (turns pos : Nat) → State → Nat × State
  | 0, pos, st => (pos, st)
  | turns + 1, pos, st =>
    match step pos st with
    | (some stop, st) =>
      if stop = pos then
        (pos, st)
      else
        repeatStep step turns stop st
    | (none, st) => (pos, st)

namespace Expr

mutual

/-- Where an expression matches up to at a place. -/
def evaluate (tokens : TokenStream) (call : RuleCall) (e : Expr) (pos : Nat) (st : State) :
    Option Nat × State :=
  if st.fatal then
    (none, st)
  else
    match e with
    | .token test => test.evaluate tokens pos st
    | .anyToken => evaluateAnyToken tokens pos st
    | .rule r =>
      match call r pos st with
      | (some (stop, element?), st) => (some stop, st.yield element?)
      | (none, st) => (none, st)
    | .seq items =>
      let height := st.scratch.size
      match evaluateSeq tokens call items pos st with
      | (some stop, st) => (some stop, st)
      | (none, st) => (none, st.truncate height)
    | .choice alternatives => evaluateChoice tokens call alternatives pos st
    | .option body =>
      match evaluate tokens call body pos st with
      | (some stop, st) => (some stop, st)
      | (none, st) => (some pos, st)
    | .star body =>
      match repeatStep (evaluate tokens call body) (tokens.length + 1 - pos) pos st with
      | (stop, st) => (some stop, st)
    | .plus body =>
      match evaluate tokens call body pos st with
      | (some stop, st) =>
        if stop = pos then
          (some pos, st)
        else
          match repeatStep (evaluate tokens call body) (tokens.length + 1 - stop) stop st with
          | (stop, st) => (some stop, st)
      | (none, st) => (none, st)
    | .followedBy body =>
      let height := st.scratch.size
      match evaluate tokens call body pos st with
      | (some _, st) => (some pos, st.truncate height)
      | (none, st) => (none, st.truncate height)
    | .notFollowedBy body =>
      let height := st.scratch.size
      match evaluate tokens call body pos st with
      | (some _, st) => (none, st.truncate height)
      | (none, st) => (some pos, st.truncate height)
    | .epsilon => (some pos, st)
    | .never => (none, st)

/-- One expression after the other. -/
def evaluateSeq (tokens : TokenStream) (call : RuleCall) (es : List Expr) (pos : Nat)
    (st : State) : Option Nat × State :=
  match es with
  | [] => (some pos, st)
  | e :: es =>
    match evaluate tokens call e pos st with
    | (some stop, st) => evaluateSeq tokens call es stop st
    | (none, st) => (none, st)

/-- The first expression that matches. -/
def evaluateChoice (tokens : TokenStream) (call : RuleCall) (es : List Expr) (pos : Nat)
    (st : State) : Option Nat × State :=
  match es with
  | [] => (none, st)
  | e :: es =>
    match evaluate tokens call e pos st with
    | (some stop, st) => (some stop, st)
    | (none, st) => evaluateChoice tokens call es pos st

end

end Expr

/-! ## Rules -/

/-- What stays the same throughout a parse. -/
structure Setup where
  grammar : Grammar
  tokens : TokenStream
  /-- Whether a rule that nests too deep just fails there, instead of ending the parse. -/
  skipping : Bool

namespace Setup

/-- What a rule does at a place, with room for `room` rules inside those at work. -/
def invoke (s : Setup) (room : Nat) : RuleCall := fun rule pos st =>
  match st.memo? rule pos with
  | some memo => (memo.result, st.hit)
  | none =>
    match room with
    | 0 => (none, if s.skipping then st.refuse else st.giveUp)
    | room + 1 =>
      match s.grammar.find? rule with
      | none => (none, st)
      | some p =>
        let height := st.scratch.size
        match p.body.evaluate s.tokens (invoke s room) pos (st.enter rule pos) with
        | (some stop, st) =>
          match st.leave.finishNode p rule pos stop height false with
          | (element?, st) => (some (stop, element?), st.remember rule pos (.matched stop element?))
        | (none, st) => (none, st.leave.remember rule pos .failed)

end Setup

end PackratCpp
