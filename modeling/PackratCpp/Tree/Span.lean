/-
  The tokens that a piece of a tree spans.

  * `TokenStream.textBetween`, `TokenStream.firstBetween?`, `TokenStream.lastBetween?`: the
    spellings between two places with single spaces between them, and the outermost tokens.
  * `Layout.start`, `Layout.stop`, `Layout.text`, …: the same for an element of a layout.
-/
import PackratCpp.Token.Stream
import PackratCpp.Tree.Layout

namespace PackratCpp

namespace TokenStream

/-- The tokens from `start` up to, but not including, `stop`. -/
def between (s : TokenStream) (start stop : Nat) : List Token :=
  (s.tokens.extract start stop).toList

/-- The spellings between two places; the end of input has none. -/
def textBetween (s : TokenStream) (start stop : Nat) : String :=
  " ".intercalate (((s.between start stop).filter fun t : Token => !t.isEof).map (·.text))

/-- The first token between two places. -/
def firstBetween? (s : TokenStream) (start stop : Nat) : Option Token :=
  if start < stop then s.get? start else none

/-- The last token between two places. -/
def lastBetween? (s : TokenStream) (start stop : Nat) : Option Token :=
  if start < stop then s.get? (stop - 1) else none

end TokenStream

namespace Layout

/-- The record of a node. -/
def record? (l : Layout) : Element → Option NodeRecord
  | .node id => l.nodes[id]?
  | .token _ => none

/-- Index of the first token that an element spans. -/
def start (l : Layout) : Element → Nat
  | .node id => (l.nodes[id]?.map (·.start)).getD 0
  | .token i => i

/-- Index behind the last token that an element spans. -/
def stop (l : Layout) : Element → Nat
  | .node id => (l.nodes[id]?.map (·.stop)).getD 0
  | .token i => i + 1

/-- The spelling of a token, or of the tokens of a node. -/
def text (l : Layout) (tokens : TokenStream) : Element → String
  | .node id => tokens.textBetween (l.start (.node id)) (l.stop (.node id))
  | .token i => (tokens.getClamped i).text

/-- The line of the first token; an empty node is on the line of the token at its place. -/
def line (l : Layout) (tokens : TokenStream) (e : Element) : Nat :=
  (tokens.getClamped (l.start e)).line

end Layout

end PackratCpp
