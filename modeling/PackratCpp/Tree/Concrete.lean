/-
  Trees over the text of their tokens.

  * `SyntaxKind.raw`: the number of a kind of nodes or leaves.  `SyntaxKind.ofRaw?_raw`: numbers
    stand for one kind at most.
  * `ConcreteTree`: a tree whose leaves carry the spelling of their token and whose nodes and
    leaves know which bytes they cover.  The bytes are those of the spellings put together,
    since blanks are no part of a stream.
  * `ConcreteTree.ofTree`: the concrete tree of a parse.
  * `ConcreteTree.outline`: one line for each node and leaf.  Long spellings are cut.
  * `ConcreteTree.tokens`: the leaves, each with the nodes around it.
-/
import PackratCpp.Text.Bytes
import PackratCpp.Text.Quoted
import PackratCpp.Token.Stream
import PackratCpp.Tree.Basic

namespace PackratCpp

/-- The kind of a node or of a leaf. -/
inductive SyntaxKind where
  | rule (rule : Rule)
  | token (kind : TokenKind)
  deriving DecidableEq

namespace SyntaxKind

/-- The number of a kind: rules come first, then the kinds of tokens. -/
def raw : SyntaxKind → Nat
  | .rule r => r.index
  | .token k => Rule.count + k.index

/-- The kind with a number. -/
def ofRaw? (raw : Nat) : Option SyntaxKind :=
  match Rule.ofIndex? raw with
  | some r => some (.rule r)
  | none => (TokenKind.all[raw - Rule.count]?).map .token

/-- Every kind is found by its number. -/
theorem ofRaw?_raw (kind : SyntaxKind) : ofRaw? kind.raw = some kind := by
  cases kind with
  | rule r => rw [ofRaw?, raw, Rule.ofIndex?, r.all_getElem?_index]
  | token k =>
    have hnone : Rule.ofIndex? (Rule.count + k.index) = none :=
      List.getElem?_eq_none (by rw [Rule.length_all]; omega)
    rw [ofRaw?, raw, hnone]
    simp only [Nat.add_sub_cancel_left, k.all_getElem?_index, Option.map_some]

/-- A number is out of range if no kind has it. -/
theorem ofRaw?_eq_none_iff {n : Nat} :
    ofRaw? n = none ↔ Rule.count + TokenKind.all.length ≤ n := by
  rcases Nat.lt_or_ge n Rule.count with hn | hn
  · obtain ⟨r, hr⟩ : ∃ r, Rule.ofIndex? n = some r :=
      ⟨_, List.getElem?_eq_getElem (by rwa [Rule.length_all])⟩
    simp only [ofRaw?, hr, reduceCtorEq, false_iff]
    omega
  · have hnone : Rule.ofIndex? n = none := List.getElem?_eq_none (by rwa [Rule.length_all])
    simp only [ofRaw?, hnone, Option.map_eq_none_iff, List.getElem?_eq_none_iff]
    omega

/-- Numbers of kinds fit into 16 bits. -/
theorem raw_lt (kind : SyntaxKind) : kind.raw < UInt16.size := by
  cases kind with
  | rule r => exact Nat.lt_trans r.index_lt_count (by decide)
  | token k => cases k <;> decide

end SyntaxKind

/-- A tree over bytes. -/
inductive ConcreteTree where
  | leaf (kind : TokenKind) (text : String) (start : Nat)
  | node (rule : Rule) (start stop : Nat) (children : List ConcreteTree)
  deriving Inhabited

namespace ConcreteTree

/-- The byte behind a tree. -/
def stop : ConcreteTree → Nat
  | .leaf _ text start => start + text.utf8ByteSize
  | .node _ _ e _ => e

mutual

/-- A tree from a byte on. -/
def build (tokens : TokenStream) (start : Nat) : Tree → ConcreteTree
  | .leaf i =>
    match tokens.get? i with
    | some t => .leaf t.kind t.text start
    | none => .leaf .eof "" start
  | .node r _ _ cs =>
    let children := buildAll tokens start cs
    .node r start (children.2) children.1

/-- Some trees from a byte on, and the byte behind them. -/
def buildAll (tokens : TokenStream) (start : Nat) : List Tree → List ConcreteTree × Nat
  | [] => ([], start)
  | t :: ts =>
    let first := build tokens start t
    let rest := buildAll tokens first.stop ts
    (first :: rest.1, rest.2)

end

/-- The concrete tree of a parse from `root`.  A root that gave way to a token gets its
node back. -/
def ofTree (tokens : TokenStream) (root : Rule) : Tree → ConcreteTree
  | .leaf i =>
    let leaf := build tokens 0 (.leaf i)
    .node root 0 leaf.stop [leaf]
  | t => build tokens 0 t

/-! ## Outline -/

/-- The name of the kind of a node. -/
def ruleKind (r : Rule) : String :=
  "Rule(" ++ r.capitalName ++ ")"

/-- The name of the kind of a leaf. -/
def tokenKind (k : TokenKind) : String :=
  "Token(" ++ k.name ++ ")"

/-- A name with a range of bytes. -/
def heading (name : String) (start stop : Nat) : String :=
  name ++ "@" ++ toString start ++ ".." ++ toString stop

/-- The beginning of a text up to the first boundary of characters among the bytes 21 to
24. -/
def cut (cs : List Char) : List Char :=
  match [21, 22, 23, 24].find? fun n => Text.byteLength (Text.takeBytes n cs) = n with
  | some n => Text.takeBytes n cs
  | none => cs

/-- A spelling as an outline shows it: one of 25 bytes or more is cut. -/
def shown (text : String) : String :=
  if text.utf8ByteSize < 25 then
    Text.quoted text
  else
    Text.quoted (String.ofList (cut text.toList) ++ " ...")

mutual

/-- The lines of a tree. -/
def outlineLines (depth : Nat) : ConcreteTree → List String
  | .leaf kind text start =>
    [String.ofList (List.replicate (2 * depth) ' ') ++
      heading (tokenKind kind) start (start + text.utf8ByteSize) ++ " " ++ shown text]
  | .node r s e cs =>
    (String.ofList (List.replicate (2 * depth) ' ') ++ heading (ruleKind r) s e) ::
      outlineLinesAll (depth + 1) cs

/-- The lines of some trees. -/
def outlineLinesAll (depth : Nat) : List ConcreteTree → List String
  | [] => []
  | t :: ts => outlineLines depth t ++ outlineLinesAll depth ts

end

/-- A tree as indented text. -/
def outline (t : ConcreteTree) : String :=
  String.join ((outlineLines 0 t).map (· ++ "\n"))

/-! ## Tokens -/

/-- A leaf, and the rules around it from the inside out. -/
structure Occurrence where
  kind : TokenKind
  text : String
  start : Nat
  ancestors : List Rule

mutual

/-- The leaves of a tree inside some rules. -/
def occurrencesIn (around : List Rule) : ConcreteTree → List Occurrence
  | .leaf kind text start => [⟨kind, text, start, around⟩]
  | .node r _ _ cs => occurrencesInAll (r :: around) cs

/-- The leaves of some trees inside some rules. -/
def occurrencesInAll (around : List Rule) : List ConcreteTree → List Occurrence
  | [] => []
  | t :: ts => occurrencesIn around t ++ occurrencesInAll around ts

end

/-- The leaves from left to right. -/
def tokens (t : ConcreteTree) : List Occurrence :=
  occurrencesIn [] t

/-- The spellings put together. -/
def text (t : ConcreteTree) : String :=
  String.join (t.tokens.map (·.text))

/-! ## Numbers of kinds -/

/-- What a raw number of a kind stands for. -/
def kindOfRaw? (raw : Nat) : Option String :=
  (SyntaxKind.ofRaw? raw).map fun
    | .rule r => ruleKind r
    | .token k => tokenKind k

/-- What is said about a number of no kind. -/
def rawOutOfRange (raw : Nat) : String :=
  "raw syntax kind " ++ toString raw ++ " out of range"

end ConcreteTree

end PackratCpp
