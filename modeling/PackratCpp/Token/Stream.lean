/-
  Token streams: token lists closed by exactly one end of input.

  * `TokenStream`: the sequence together with the fact that its last token, and no
    other, is the end of input (`TokensClosed`).
  * `TokenStream.ofList?`: checks a list; `TokenStreamError` says what is wrong with a
    list that is refused.
  * `TokenStream.terminated`: closes a list, whatever ends of input it holds already.
-/
import PackratCpp.Token.Basic

namespace PackratCpp

/-- A list of tokens is closed: an end of input comes last and nowhere else. -/
def TokensClosed (tokens : List Token) : Prop :=
  ∃ body last, tokens = body ++ [last] ∧ last.isEof = true ∧ ∀ t ∈ body, t.isEof = false

/-- Why a list of tokens is no stream. -/
inductive TokenStreamError where
  | empty
  | missingEof
  | earlyEof (index : Nat)
  deriving DecidableEq

/-- The wording of a refusal. -/
def TokenStreamError.message : TokenStreamError → String
  | .empty => "token stream is empty; it must end with an end-of-input token"
  | .missingEof => "token stream does not end with an end-of-input token"
  | .earlyEof index => s!"end-of-input token at index {index} is not the last token"

/-- A sequence of tokens whose last one, and no other, is the end of input. -/
structure TokenStream where
  tokens : Array Token
  closed : TokensClosed tokens.toList

namespace TokenStream

/-- Number of tokens, the end of input included. -/
def length (s : TokenStream) : Nat :=
  s.tokens.size

/-- Whether the end of input is all there is. -/
def isEmpty (s : TokenStream) : Bool :=
  s.length == 1

/-- The index of the end of input. -/
def eofIndex (s : TokenStream) : Nat :=
  s.length - 1

/-- The token at an index. -/
def get? (s : TokenStream) (i : Nat) : Option Token :=
  s.tokens[i]?

theorem length_pos (s : TokenStream) : 0 < s.length := by
  obtain ⟨body, last, h, -⟩ := s.closed
  have hlen := congrArg List.length h
  simp only [Array.length_toList, List.length_append, List.length_singleton] at hlen
  simp only [length]
  omega

theorem eofIndex_lt_length (s : TokenStream) : s.eofIndex < s.length := by
  have := s.length_pos
  simp only [eofIndex]
  omega

/-- The token at an index, or the end of input for an index beyond it. -/
def getClamped (s : TokenStream) (i : Nat) : Token :=
  have : min i s.eofIndex < s.tokens.size :=
    Nat.lt_of_le_of_lt (Nat.min_le_right ..) s.eofIndex_lt_length
  s.tokens[min i s.eofIndex]

/-! ## Building a stream -/

theorem tokensClosed_of_split {tokens : List Token} {last : Token}
    (hlast : tokens.getLast? = some last) (heof : last.isEof = true)
    (hbody : ∀ t ∈ tokens.dropLast, t.isEof = false) : TokensClosed tokens := by
  obtain ⟨body, rfl⟩ := List.getLast?_eq_some_iff.1 hlast
  exact ⟨body, last, rfl, heof, by simpa using hbody⟩

/-- Checks that a list of tokens is closed. -/
def ofList? (tokens : List Token) : Except TokenStreamError TokenStream :=
  match hlast : tokens.getLast? with
  | none => .error .empty
  | some last =>
    if heof : last.isEof = true then
      match hbody : tokens.dropLast.findIdx? Token.isEof with
      | some index => .error (.earlyEof index)
      | none =>
        .ok ⟨tokens.toArray,
          tokensClosed_of_split hlast heof (by simpa [List.findIdx?_eq_none_iff] using hbody)⟩
    else
      .error .missingEof

/-- Drops every end of input from a list and closes it with `eof`, whose kind is set. -/
def terminated (tokens : List Token) (eof : Token) : TokenStream where
  tokens := ((tokens.filter fun t : Token => !t.isEof) ++ [{ eof with kind := .eof }]).toArray
  closed := ⟨tokens.filter fun t : Token => !t.isEof, { eof with kind := .eof }, by simp, rfl, by simp⟩

end TokenStream

end PackratCpp
