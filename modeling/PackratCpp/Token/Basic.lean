/-
  Tokens: the alphabet of the grammar.

  * `TokenKind`: the eight lexical classes, in registry order, with the upper-case
    word (`TokenKind.describe`) that diagnostics use for a whole class.
  * `Token`: kind and spelling, plus the place it was read from.  Lines and columns
    count from one; columns and offsets count bytes.

  Only `kind` and `text` take part in parsing; the place is carried along for reports.
-/

namespace PackratCpp

/-- The lexical class of a token. -/
inductive TokenKind where
  | identifier
  | keyword
  | number
  | string
  | character
  | punctuator
  /-- Characters that belong to no other class. -/
  | unknown
  /-- The end of the input: once in every stream, as its last token. -/
  | eof
  deriving DecidableEq, Inhabited

namespace TokenKind

/-- Every kind, in registry order. -/
def all : List TokenKind :=
  [.identifier, .keyword, .number, .string, .character, .punctuator, .unknown, .eof]

/-- The place of a kind in the registry. -/
def index : TokenKind → Nat
  | .identifier => 0
  | .keyword => 1
  | .number => 2
  | .string => 3
  | .character => 4
  | .punctuator => 5
  | .unknown => 6
  | .eof => 7

/-- The word for the whole class in a diagnostic. -/
def describe : TokenKind → String
  | .identifier => "IDENTIFIER"
  | .keyword => "KEYWORD"
  | .number => "NUMBER"
  | .string => "STRING"
  | .character => "CHARACTER"
  | .punctuator => "PUNCTUATOR"
  | .unknown => "UNKNOWN"
  | .eof => "EOF"

/-- The registered name of a kind, as tree views print it. -/
def name : TokenKind → String
  | .identifier => "Identifier"
  | .keyword => "Keyword"
  | .number => "Number"
  | .string => "String"
  | .character => "Character"
  | .punctuator => "Punctuator"
  | .unknown => "Unknown"
  | .eof => "Eof"

/-- The kind with a registered name. -/
def ofName? (name : String) : Option TokenKind :=
  all.find? (·.name == name)

theorem mem_all (k : TokenKind) : k ∈ all := by
  cases k <;> decide

theorem all_getElem?_index (k : TokenKind) : all[k.index]? = some k := by
  cases k <;> rfl

theorem ofName?_name (k : TokenKind) : ofName? k.name = some k := by
  cases k <;> decide

end TokenKind

/-- One token and the place it was read from. -/
structure Token where
  kind : TokenKind
  text : String
  /-- Line of the first character, from one. -/
  line : Nat
  /-- Byte column of the first character, from one. -/
  column : Nat
  /-- Byte offset of the first character. -/
  offset : Nat
  deriving DecidableEq, Inhabited

namespace Token

/-- Whether this is an end-of-input token. -/
def isEof (t : Token) : Bool :=
  t.kind == .eof

theorem isEof_iff {t : Token} : t.isEof = true ↔ t.kind = .eof := by
  simp [isEof]

end Token

end PackratCpp
