/-
  Bytes of a text.

  * `Text.byteLength`: how many bytes some characters take.
  * `Text.takeBytes`: the longest beginning within some bytes.
  * `Text.slice`: the characters in a range of bytes.
-/

namespace PackratCpp.Text

/-- Number of bytes of some characters. -/
def byteLength : List Char → Nat
  | [] => 0
  | c :: cs => c.utf8Size + byteLength cs

/-- The longest beginning of at most `bytes` bytes. -/
def takeBytes (bytes : Nat) : List Char → List Char
  | [] => []
  | c :: cs => if c.utf8Size ≤ bytes then c :: takeBytes (bytes - c.utf8Size) cs else []

/-- What is left behind the characters that start within the first `bytes` bytes. -/
def dropBytes (bytes : Nat) : List Char → List Char
  | [] => []
  | c :: cs => if bytes = 0 then c :: cs else dropBytes (bytes - c.utf8Size) cs

/-- The characters from the byte `start` up to the byte `stop`. -/
def slice (cs : List Char) (start stop : Nat) : List Char :=
  takeBytes (stop - start) (dropBytes start cs)

end PackratCpp.Text
