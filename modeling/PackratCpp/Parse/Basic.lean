/-
  Parsing a stream of tokens.

  * `Parse`: a finished parse, its tree and what it took.
  * `ParseError`: why there is none.
  * `Grammar.parse`: evaluates the body of the root rule at the first token.  The parse is
    finished if that matches every token, with or without the end of input.

  A translation unit that is read with recovery skips declarations that nest too deep;
  any other parse ends there.  Without a limit, rules can nest as deep as there are pairs
  of a rule and a place: beyond that some rule waits for itself, and no answer exists.
-/
import PackratCpp.Diagnosis.Basic
import PackratCpp.Parse.Evaluate

namespace PackratCpp

/-- Why there is no tree. -/
inductive ParseError where
  | undefinedRoot (root : Rule)
  /-- Rules nested deeper than the limit. -/
  | recursionLimit
  /-- A rule waits for its own answer at the same place. -/
  | leftRecursion
  | recognition (diagnosis : Diagnosis)

/-- The wording of an error. -/
def ParseError.message : ParseError → String
  | .undefinedRoot root => "rule `" ++ root.name ++ "` has no definition in this grammar"
  | .recursionLimit => "recursion limit exceeded"
  | .leftRecursion => "a rule needs its own answer at the same position"
  | .recognition d => d.message

/-- A finished parse. -/
structure Parse where
  tokens : TokenStream
  /-- The rule that was parsed from. -/
  rootRule : Rule
  /-- A node of the root rule, or its only child if the rule collapses. -/
  tree : Tree
  evaluations : Nat
  hits : Nat
  /-- Number of answers that were kept. -/
  entries : Nat
  /-- Number of rules that were skipped for nesting too deep. -/
  refusals : Nat

/-- How deep rules may nest unless something else is said. -/
def defaultMaxDepth : Nat := 1000

namespace Grammar

/-- Whether a parse skips declarations that nest too deep. -/
def skipsTooDeep (g : Grammar) (root : Rule) (maxDepth? : Option Nat) : Bool :=
  g.dialect.errorRecovery && root = .translationUnit && maxDepth?.isSome

/-- How many rules fit inside the root.  A limit counts the root as well. -/
def room (tokens : TokenStream) : Option Nat → Nat
  | some limit => limit - 1
  | none => Rule.count * (tokens.length + 1)

/-- What stays the same throughout the parse of a stream from a root rule. -/
def setup (g : Grammar) (tokens : TokenStream) (root : Rule) (maxDepth? : Option Nat) : Setup :=
  ⟨g, tokens, g.skipsTooDeep root maxDepth?⟩

/-- Where the body of the root rule matches up to at the first token. -/
def evaluateRoot (g : Grammar) (tokens : TokenStream) (root : Rule) (p : Production)
    (maxDepth? : Option Nat) : Option Nat × State :=
  p.body.evaluate tokens ((g.setup tokens root maxDepth?).invoke (room tokens maxDepth?)) 0
    (State.initial.enter root 0)

/-- The diagnosis of a failed parse. -/
def diagnose (tokens : TokenStream) (f : Furthest) : Diagnosis :=
  .ofToken (min f.position tokens.eofIndex) (tokens.getClamped f.position) f

/-- Parses a stream from a rule. -/
def parse (g : Grammar) (tokens : TokenStream) (root : Rule) (maxDepth? : Option Nat) :
    Except ParseError Parse :=
  match g.find? root with
  | none => .error (.undefinedRoot root)
  | some p =>
    match g.evaluateRoot tokens root p maxDepth? with
    | (stop?, st) =>
      let st := st.leave
      if st.fatal then
        .error (if maxDepth?.isSome then .recursionLimit else .leftRecursion)
      else
        match stop? with
        | none =>
          if 0 < st.refusals then
            .error .recursionLimit
          else
            .error (.recognition (diagnose tokens st.furthest))
        | some stop =>
          if stop = tokens.eofIndex || stop = tokens.length then
            match st.finishNode p root 0 stop 0 true with
            | (element?, st) =>
              .ok {
                tokens := tokens
                rootRule := root
                tree := st.arena.tree (element?.getD (.token tokens.eofIndex))
                evaluations := st.evaluations
                hits := st.hits
                entries := st.memo.size
                refusals := st.refusals }
          else if 0 < st.refusals then
            .error .recursionLimit
          else
            .error (.recognition (diagnose tokens (st.expect stop .endOfInput).furthest))

end Grammar

end PackratCpp
