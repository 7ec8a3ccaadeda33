/-
  Evaluation one step at a time.

  * `Frame`: an expression, a repetition or a rule that waits for a part of it.
  * `Moment`: a moment of a parse: what is done next, all that waits, innermost first, and the
    state.
  * `Setup.next?`: the moment after a moment.  There is none once the whole has its answer.
    Repetitions go on for as long as they consume something, and a rule is refused if as many rules
    are at work as the limit allows; nothing else bounds the run, and without a limit it may go on
    forever.
  * `Setup.after`: the moment some steps later.
-/
import PackratCpp.Parse.Evaluate

namespace PackratCpp

/-- What waits for the answer of a part. -/
inductive Frame where
  /-- A sequence with the items behind the part; a failure takes back what is above `height`. -/
  | items (rest : List Expr) (height : Nat)
  /-- A choice with the alternatives behind the part. -/
  | alternatives (rest : List Expr) (place : Nat)
  | option (place : Nat)
  /-- A repetition that has got to `place`. -/
  | turn (body : Expr) (place : Nat)
  /-- A repetition in its first turn, which it needs. -/
  | firstTurn (body : Expr) (place : Nat)
  | followedBy (place height : Nat)
  | notFollowedBy (place height : Nat)
  /-- A rule whose body is evaluated. -/
  | rule (rule : Rule) (production : Production) (place height : Nat)

/-- What is done next. -/
inductive Control where
  | evaluate (e : Expr) (place : Nat)
  /-- Hands an answer to what waits for it. -/
  | answer (stop? : Option Nat)

/-- A moment of a parse. -/
structure Moment where
  control : Control
  frames : List Frame
  state : State

namespace Moment

/-- The body of the root rule is evaluated at the first token. -/
def initial (root : Rule) (p : Production) : Moment :=
  ⟨.evaluate p.body 0, [], State.initial.enter root 0⟩

/-- An answer with the state in which it was found. -/
def answered (frames : List Frame) (result : Option Nat × State) : Moment :=
  ⟨.answer result.1, frames, result.2⟩

/-- One item after the other. -/
def items (es : List Expr) (place height : Nat) (frames : List Frame) (st : State) : Moment :=
  match es with
  | [] => ⟨.answer (some place), frames, st⟩
  | e :: es => ⟨.evaluate e place, .items es height :: frames, st⟩

/-- One alternative after the other. -/
def alternatives (es : List Expr) (place : Nat) (frames : List Frame) (st : State) : Moment :=
  match es with
  | [] => ⟨.answer none, frames, st⟩
  | e :: es => ⟨.evaluate e place, .alternatives es place :: frames, st⟩

/-- A further turn of a repetition. -/
def turn (body : Expr) (place : Nat) (frames : List Frame) (st : State) : Moment :=
  ⟨.evaluate body place, .turn body place :: frames, st⟩

end Moment

/-- Goes on with the answer of the part. -/
def Frame.resume (frames : List Frame) : Frame → Option Nat → State → Moment
  | .items rest height, some stop, st => .items rest stop height frames st
  | .items _ height, none, st => ⟨.answer none, frames, st.truncate height⟩
  | .alternatives _ _, some stop, st => ⟨.answer (some stop), frames, st⟩
  | .alternatives rest place, none, st => .alternatives rest place frames st
  | .option _, some stop, st => ⟨.answer (some stop), frames, st⟩
  | .option place, none, st => ⟨.answer (some place), frames, st⟩
  | .turn body place, some stop, st =>
    if stop = place then ⟨.answer (some place), frames, st⟩ else .turn body stop frames st
  | .turn _ place, none, st => ⟨.answer (some place), frames, st⟩
  | .firstTurn body place, some stop, st =>
    if stop = place then ⟨.answer (some place), frames, st⟩ else .turn body stop frames st
  | .firstTurn _ _, none, st => ⟨.answer none, frames, st⟩
  | .followedBy place height, some _, st => ⟨.answer (some place), frames, st.truncate height⟩
  | .followedBy _ height, none, st => ⟨.answer none, frames, st.truncate height⟩
  | .notFollowedBy _ height, some _, st => ⟨.answer none, frames, st.truncate height⟩
  | .notFollowedBy place height, none, st => ⟨.answer (some place), frames, st.truncate height⟩
  | .rule r p place height, some stop, st =>
    match st.leave.finishNode p r place stop height false with
    | (element?, st) =>
      ⟨.answer (some stop), frames, (st.remember r place (.matched stop element?)).yield element?⟩
  | .rule r _ place _, none, st => ⟨.answer none, frames, st.leave.remember r place .failed⟩

namespace Setup

variable (s : Setup) (maxDepth? : Option Nat)

/-- Whether as many rules are at work as the limit allows. -/
def full (maxDepth? : Option Nat) (st : State) : Bool :=
  maxDepth?.any fun limit => limit ≤ st.active.length

/-- Starts a rule: gives the remembered answer, or else evaluates its body. -/
def startRule (rule : Rule) (place : Nat) (frames : List Frame) (st : State) : Moment :=
  match st.memo? rule place with
  | some (.matched stop element?) => ⟨.answer (some stop), frames, st.hit.yield element?⟩
  | some .failed => ⟨.answer none, frames, st.hit⟩
  | none =>
    if full maxDepth? st then
      ⟨.answer none, frames, if s.skipping then st.refuse else st.giveUp⟩
    else
      match s.grammar.find? rule with
      | none => ⟨.answer none, frames, st⟩
      | some p =>
        ⟨.evaluate p.body place, .rule rule p place st.scratch.size :: frames, st.enter rule place⟩

/-- Starts an expression. -/
def start (e : Expr) (place : Nat) (frames : List Frame) (st : State) : Moment :=
  match e with
  | .token test => .answered frames (test.evaluate s.tokens place st)
  | .anyToken => .answered frames (evaluateAnyToken s.tokens place st)
  | .rule rule => s.startRule maxDepth? rule place frames st
  | .seq items => .items items place st.scratch.size frames st
  | .choice alternatives => .alternatives alternatives place frames st
  | .option body => ⟨.evaluate body place, .option place :: frames, st⟩
  | .star body => .turn body place frames st
  | .plus body => ⟨.evaluate body place, .firstTurn body place :: frames, st⟩
  | .followedBy body => ⟨.evaluate body place, .followedBy place st.scratch.size :: frames, st⟩
  | .notFollowedBy body =>
    ⟨.evaluate body place, .notFollowedBy place st.scratch.size :: frames, st⟩
  | .epsilon => ⟨.answer (some place), frames, st⟩
  | .never => ⟨.answer none, frames, st⟩

/-- The next moment.  Once the parse is given up, nothing is started any more. -/
def next? : Moment → Option Moment
  | ⟨.evaluate e place, frames, st⟩ =>
    some (if st.fatal then ⟨.answer none, frames, st⟩ else s.start maxDepth? e place frames st)
  | ⟨.answer stop?, frame :: frames, st⟩ => some (frame.resume frames stop? st)
  | ⟨.answer _, [], _⟩ => none

/-- The moment after some steps, if the run has not ended before. -/
def after : Nat → Moment → Option Moment
  | 0, m => some m
  | n + 1, m => (s.next? maxDepth? m).bind (after n)

end Setup

end PackratCpp
