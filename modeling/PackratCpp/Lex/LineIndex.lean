/-
  Lines and columns of a source text.

  * `partitionPoint`: the number of elements of an array that pass a test, found by bisection.
  * `LineIndex`: the offsets where lines start.  `LineIndex.position`: the line and the column of an
    offset.
-/

namespace PackratCpp

section
variable {α : Type} (xs : Array α) (pass : α → Bool)

/-- Halves the range from `lo` up to `hi` until nothing is left of it. -/
def partitionFrom (lo hi : Nat) (hhi : hi ≤ xs.size) : Nat :=
  if hlt : lo < hi then
    let mid := lo + (hi - lo) / 2
    have hmid : mid < xs.size := by omega
    if pass xs[mid] then partitionFrom (mid + 1) hi hhi else partitionFrom lo mid (by omega)
  else
    lo
termination_by hi - lo

/-- The index of the first element that does not pass a test, in an array where those that pass come
first. -/
def partitionPoint : Nat :=
  partitionFrom xs pass 0 xs.size (Nat.le_refl _)

end

/-- The offsets behind the line ends of a text that starts at some offset. -/
def lineStarts (offset : Nat) : List Char → List Nat
  | [] => []
  | c :: cs =>
    let next := offset + c.utf8Size
    if c = '\n' then next :: lineStarts next cs else lineStarts next cs

/-- Where the lines of a text start. -/
structure LineIndex where
  starts : Array Nat

namespace LineIndex

/-- The first line starts at once, and each other one behind a line end. -/
def of (source : List Char) : LineIndex :=
  ⟨(0 :: lineStarts 0 source).toArray⟩

/-- The line and the column of an offset, both counted from one.  The line is the last one that starts
no later. -/
def position (lines : LineIndex) (offset : Nat) : Nat × Nat :=
  let line := partitionPoint lines.starts (· ≤ offset) - 1
  let column := offset - lines.starts.getD line 0
  (line + 1, column + 1)

end LineIndex

end PackratCpp
