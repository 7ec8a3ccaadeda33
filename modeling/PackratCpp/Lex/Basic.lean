/-
  From source text to tokens.

  * `TokenSink`: the tokens so far, and what their texts and places are taken from.
  * `Lexing`: the state of the loop: the sink, and a range of bytes that fits nothing and may still
    grow.  `Lexing.step`: one turn.
  * `lex`: the tokens of a source text and the end of input.  It never fails: text that
    fits nothing becomes tokens of the kind `TokenKind.unknown`.

  Words that only C++ reserves are identifiers in C.
-/
import PackratCpp.Grammar.Dialect
import PackratCpp.Lex.LineIndex
import PackratCpp.Lex.Scan
import PackratCpp.Token.Keyword
import PackratCpp.Token.Stream

namespace PackratCpp

/-- Whether a language reserves a word. -/
def Language.reserves (l : Language) (text : String) : Bool :=
  match Keyword.ofText? text with
  | some word => l = .cxx || word.isC
  | none => false

/-- The kind of the token of a stretch; a word may turn out to be reserved. -/
def PieceClass.tokenKind? : PieceClass → Option TokenKind
  | .blank => none
  | .comment => none
  | .word => some .identifier
  | .number => some .number
  | .string => some .string
  | .character => some .character
  | .punctuator => some .punctuator
  | .invalid => some .unknown

/-- Tells reserved words from identifiers. -/
def Language.classify (l : Language) (text : String) : TokenKind → TokenKind
  | .identifier => if l.reserves text then .keyword else .identifier
  | kind => kind

/-! ## The sink -/

/-- The tokens so far, and what their texts and places are taken from. -/
structure TokenSink where
  source : List Char
  lines : LineIndex
  language : Language
  tokens : Array Token

namespace TokenSink

/-- No tokens. -/
def of (l : Language) (source : List Char) : TokenSink :=
  ⟨source, .of source, l, #[]⟩

/-- Makes a token of a range of bytes. -/
def push (sink : TokenSink) (kind : TokenKind) (span : Span) : TokenSink :=
  let text := String.ofList (Text.slice sink.source span.start span.stop)
  let (line, column) := sink.lines.position span.start
  let token : Token := ⟨sink.language.classify text kind, text, line, column, span.start⟩
  { sink with tokens := sink.tokens.push token }

/-- The tokens, and the end of input behind them. -/
def finish (sink : TokenSink) : TokenStream :=
  let stop := Text.byteLength sink.source
  let (line, column) := sink.lines.position stop
  .terminated sink.tokens.toList ⟨.eof, "", line, column, stop⟩

end TokenSink

/-! ## The loop -/

/-- The state of the loop. -/
structure Lexing where
  sink : TokenSink
  /-- Bytes that fit nothing, behind all tokens. -/
  error? : Option Span

namespace Lexing

/-- Makes a token of the bytes that fit nothing. -/
def flush (st : Lexing) : TokenSink :=
  match st.error? with
  | some pending => st.sink.push .unknown pending
  | none => st.sink

/-- One turn of the loop.  Invalid stretches that touch become one range; anything else ends it. -/
def step (st : Lexing) (x : Stretch) : Lexing :=
  if x.kind = .invalid then
    match st.error? with
    | some pending =>
      if pending.stop = x.span.start then
        { st with error? := some ⟨pending.start, x.span.stop⟩ }
      else
        ⟨st.sink.push .unknown pending, some x.span⟩
    | none => { st with error? := some x.span }
  else
    match x.kind.tokenKind? with
    | some kind => ⟨st.flush.push kind x.span, none⟩
    | none => ⟨st.flush, none⟩

end Lexing

/-- The tokens of a source text. -/
def lex (l : Language) (source : String) : TokenStream :=
  let start : Lexing := ⟨.of l source.toList, none⟩
  ((stretches source.toList).foldl .step start).flush.finish

end PackratCpp
