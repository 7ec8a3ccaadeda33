/-
  Parsing expressions.

  * `Terminal`: a test on one token, by spelling, by reserved word or by kind.
  * `Expr`: the body of a rule.  Sequences and ordered choices take any number of parts,
    lookaheads consume nothing, `never` stands for an alternative that a dialect lacks.
  * `Expr.references`: the rules that an expression mentions, each once, in the order of
    first mention.
-/
import PackratCpp.Rule
import PackratCpp.Token.Keyword
import PackratCpp.Token.Basic

namespace PackratCpp

/-- A test on a single token. -/
inductive Terminal where
  /-- The exact spelling, whatever the kind but the end of input. -/
  | text (text : String)
  /-- A reserved word: an identifier spelled alike does not pass. -/
  | keyword (word : Keyword)
  /-- Any token of a kind. -/
  | kind (kind : TokenKind)
  deriving DecidableEq

/-- Whether a token passes the test. -/
def Terminal.accepts : Terminal → Token → Bool
  | .text s, t => !t.isEof && t.text == s
  | .keyword w, t => t.kind == .keyword && t.text == w.text
  | .kind k, t => t.kind == k

/-- A parsing expression. -/
inductive Expr where
  | token (test : Terminal)
  /-- Any one token but the end of input. -/
  | anyToken
  | rule (rule : Rule)
  | seq (items : List Expr)
  /-- Ordered choice: the first alternative that matches wins. -/
  | choice (alternatives : List Expr)
  | option (body : Expr)
  /-- Greedy repetition; it stops at an iteration that consumes nothing. -/
  | star (body : Expr)
  /-- Greedy repetition with at least one iteration. -/
  | plus (body : Expr)
  /-- Matches where the body does, and consumes nothing. -/
  | followedBy (body : Expr)
  /-- Matches where the body does not, and consumes nothing. -/
  | notFollowedBy (body : Expr)
  /-- Matches everywhere and consumes nothing. -/
  | epsilon
  /-- Matches nowhere. -/
  | never
  deriving Inhabited

namespace Expr

/-! ## Rules mentioned -/

mutual

/-- Adds the rules that an expression mentions to `seen`, each after those before it. -/
def addReferences (seen : List Rule) : Expr → List Rule
  | .rule r => if r ∈ seen then seen else seen ++ [r]
  | .seq items => addReferencesAll seen items
  | .choice alternatives => addReferencesAll seen alternatives
  | .option body => addReferences seen body
  | .star body => addReferences seen body
  | .plus body => addReferences seen body
  | .followedBy body => addReferences seen body
  | .notFollowedBy body => addReferences seen body
  | .token _ | .anyToken | .epsilon | .never => seen

/-- Adds the rules that some expressions mention, from left to right. -/
def addReferencesAll (seen : List Rule) : List Expr → List Rule
  | [] => seen
  | e :: es => addReferencesAll (addReferences seen e) es

end

/-- The rules that an expression mentions, each once, in the order of first mention. -/
def references (e : Expr) : List Rule :=
  addReferences [] e

end Expr

end PackratCpp
