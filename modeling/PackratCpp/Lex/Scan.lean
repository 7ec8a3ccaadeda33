/-
  Cutting a source text into stretches.

  * `longestMatch`: the longest beginning of a text that fits the lexicon, and how far the
    text could be read before it was hopeless.
  * `Stretch`: a class and a range of bytes.
  * `stretches`: a text cut up, the longest match first.  Blanks are left out.
-/
import PackratCpp.Lex.Lexicon
import PackratCpp.Text.Bytes

namespace PackratCpp

/-! ## The longest match -/

/-- What the patterns describe behind a first character, without those that are hopeless
then. -/
def readChar (live : List (PieceClass × Pattern)) (c : Char) : List (PieceClass × Pattern) :=
  (live.map fun entry => (entry.1, entry.2.after c)).filter fun entry => !entry.2.isHopeless

/-- The first class whose pattern is done. -/
def finished? (live : List (PieceClass × Pattern)) : Option PieceClass :=
  (live.find? fun entry => entry.2.matchesEmpty).map (·.1)

/-- A class and the length of a match. -/
abbrev MatchLength := PieceClass × Nat

/-- Reads on along some patterns.  `read` characters have been read, and `best` is the
longest match among them.  Says as well where nothing could go on. -/
def readLongest (live : List (PieceClass × Pattern)) (read : Nat) (best : Option MatchLength) :
    List Char → Option MatchLength × Nat
  | [] => (best, read)
  | c :: cs =>
    match readChar live c with
    | [] => (best, read)
    | live =>
      let best := ((finished? live).map fun kind => (kind, read + 1)).or best
      readLongest live (read + 1) best cs

/-- The class and the length of the first piece of a text.  Where nothing matches, the
piece ends where no pattern could go on, and has at least one character. -/
def longestMatch (cs : List Char) : MatchLength :=
  match readLongest lexicon 0 none cs with
  | (some found, _) => found
  | (none, read) => (.invalid, max 1 read)

/-! ## Stretches -/

/-- A range of bytes. -/
structure Span where
  start : Nat
  stop : Nat

/-- A stretch of a source text that fits a pattern, or none if it is `invalid`. -/
structure Stretch where
  kind : PieceClass
  span : Span

/-- Cuts a text from some offset on into at most `fuel` stretches; none is empty, so that the length
of the text is enough. -/
def stretchesFrom : (fuel offset : Nat) → List Char → List Stretch
  | 0, _, _ => []
  | _ + 1, _, [] => []
  | fuel + 1, offset, c :: cs =>
    let found := longestMatch (c :: cs)
    let stop := offset + Text.byteLength ((c :: cs).take found.2)
    ⟨found.1, offset, stop⟩ :: stretchesFrom fuel stop ((c :: cs).drop found.2)

/-- The stretches of a text without the blanks, which are passed over. -/
def stretches (source : List Char) : List Stretch :=
  (stretchesFrom source.length 0 source).filter (·.kind ≠ .blank)

end PackratCpp
