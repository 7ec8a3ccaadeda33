/-
  A text in pieces.

  * `SourcePlace`: an offset in bytes with its line and column, moved on character by character.
  * `Piece`: a class, the text, and where it starts.  `pieces`: a text cut into pieces, where
    invalid ones that touch are put together by `joinInvalid`.
  * `Cut`: a text cut into first pieces, one after the other.  There is one way to do it, and
    `piecesFrom` finds it (`piecesFrom_cut`, `Cut.piecesFrom_eq`).
  * `Covers`: pieces that cover a text, no two invalid ones next to each other.  Those of `pieces`
    do (`pieces_cover`).
  * `SourcePlace.advance_start`: the place behind some characters, counted.
-/
import PackratCpp.Lex.Basic
import PackratCpp.Proofs.Lexemes

namespace PackratCpp

/-! ## Places -/

/-- A place in a source text. -/
structure SourcePlace where
  /-- Bytes before the place. -/
  offset : Nat
  /-- One more than the line ends before the place. -/
  line : Nat
  /-- One more than the bytes before the place in its line. -/
  column : Nat
  deriving DecidableEq

namespace SourcePlace

/-- The start of a text. -/
def start : SourcePlace := ⟨0, 1, 1⟩

/-- The place behind a character. -/
def next (p : SourcePlace) (c : Char) : SourcePlace :=
  if c = '\n' then
    ⟨p.offset + 1, p.line + 1, 1⟩
  else
    ⟨p.offset + c.utf8Size, p.line, p.column + c.utf8Size⟩

/-- The place behind some characters. -/
def advance (p : SourcePlace) (cs : List Char) : SourcePlace :=
  cs.foldl next p

end SourcePlace

/-- The characters behind the last line end. -/
def lastLine (cs : List Char) : List Char :=
  (cs.reverse.takeWhile (· ≠ '\n')).reverse

theorem lastLine_concat (cs : List Char) (c : Char) :
    lastLine (cs ++ [c]) = if c = '\n' then [] else lastLine cs ++ [c] := by
  rw [lastLine, lastLine, List.reverse_concat, List.takeWhile_cons]
  by_cases hc : c = '\n' <;> simp [hc]

theorem exists_append_lastLine (cs : List Char) : ∃ ds, ds ++ lastLine cs = cs := by
  refine ⟨(cs.reverse.dropWhile (· ≠ '\n')).reverse, ?_⟩
  rw [lastLine, ← List.reverse_append, List.takeWhile_append_dropWhile, List.reverse_reverse]

namespace Text

@[simp] theorem byteLength_nil : byteLength [] = 0 := rfl

@[simp] theorem byteLength_cons (c : Char) (cs : List Char) :
    byteLength (c :: cs) = c.utf8Size + byteLength cs := rfl

@[simp] theorem byteLength_append (cs ds : List Char) :
    byteLength (cs ++ ds) = byteLength cs + byteLength ds := by
  induction cs with
  | nil => exact (Nat.zero_add _).symm
  | cons c cs ih => rw [List.cons_append, byteLength, byteLength, ih, Nat.add_assoc]

theorem byteLength_pos {cs : List Char} (h : cs ≠ []) : 0 < byteLength cs := by
  obtain ⟨c, cs, rfl⟩ := List.exists_cons_of_ne_nil h
  exact Nat.add_pos_left c.utf8Size_pos _

theorem length_le_byteLength (cs : List Char) : cs.length ≤ byteLength cs := by
  induction cs with
  | nil => exact Nat.le_refl 0
  | cons c cs ih =>
    have hpos := c.utf8Size_pos
    rw [List.length_cons, byteLength_cons]
    omega

theorem byteLength_lastLine_le (cs : List Char) : byteLength (lastLine cs) ≤ byteLength cs := by
  obtain ⟨ds, hds⟩ := exists_append_lastLine cs
  have hsum := congrArg byteLength hds
  rw [byteLength_append] at hsum
  omega

theorem byteLength_toList (s : String) : byteLength s.toList = s.utf8ByteSize := by
  obtain ⟨cs, rfl⟩ : ∃ cs, s = String.ofList cs := ⟨s.toList, String.ofList_toList.symm⟩
  rw [String.toList_ofList]
  induction cs with
  | nil => rfl
  | cons c cs ih =>
    rw [byteLength_cons, ih, ← List.singleton_append, String.ofList_append,
      String.utf8ByteSize_append, ← String.singleton_eq_ofList, String.utf8ByteSize_singleton]

end Text

namespace SourcePlace

open Text

theorem advance_append (p : SourcePlace) (cs ds : List Char) :
    p.advance (cs ++ ds) = (p.advance cs).advance ds :=
  List.foldl_append

theorem offset_advance (p : SourcePlace) (cs : List Char) :
    (p.advance cs).offset = p.offset + byteLength cs := by
  induction cs generalizing p with
  | nil => rfl
  | cons c cs ih =>
    have hnext : (p.next c).offset = p.offset + c.utf8Size := by
      rw [next]
      split_ifs with hc
      · rw [hc]
        rfl
      · rfl
    show ((p.next c).advance cs).offset = _
    rw [ih, hnext, byteLength_cons, Nat.add_assoc]

/-- **The place behind some characters** counts their bytes, the line ends among them, and the bytes
behind the last of these. -/
theorem advance_start (cs : List Char) :
    start.advance cs = ⟨byteLength cs, 1 + cs.count '\n', 1 + byteLength (lastLine cs)⟩ := by
  induction cs using List.reverseRecOn with
  | nil => rfl
  | append_singleton cs c ih =>
    rw [advance_append, ih, lastLine_concat]
    show next _ c = _
    rw [next]
    by_cases hc : c = '\n'
    · subst hc
      simp [Char.utf8Size, Nat.add_assoc]
    · simp [hc, Nat.add_assoc]

end SourcePlace

/-! ## Cutting -/

/-- A piece of source text. -/
structure Piece where
  kind : PieceClass
  text : List Char
  place : SourcePlace

/-- Cuts a text into at most `fuel` pieces. -/
def piecesFrom : (fuel : Nat) → SourcePlace → List Char → List Piece
  | 0, _, _ => []
  | _ + 1, _, [] => []
  | fuel + 1, place, c :: cs =>
    let found := longestMatch (c :: cs)
    let text := (c :: cs).take found.2
    ⟨found.1, text, place⟩ :: piecesFrom fuel (place.advance text) ((c :: cs).drop found.2)

/-- Puts a piece in front of others, or together with the next one if both are invalid. -/
def joinPiece (p : Piece) : List Piece → List Piece
  | [] => [p]
  | q :: qs =>
    if p.kind = .invalid && q.kind = .invalid then
      ⟨.invalid, p.text ++ q.text, p.place⟩ :: qs
    else
      p :: q :: qs

/-- Puts invalid pieces that follow each other together. -/
def joinInvalid (ps : List Piece) : List Piece :=
  ps.foldr joinPiece []

/-- A text in pieces. -/
def pieces (cs : List Char) : List Piece :=
  joinInvalid (piecesFrom cs.length .start cs)

/-- The token of a piece. -/
def Piece.token? (l : Language) (p : Piece) : Option Token :=
  let text := String.ofList p.text
  p.kind.tokenKind?.map fun kind =>
    ⟨l.classify text kind, text, p.place.line, p.place.column, p.place.offset⟩

/-- The end of a source text. -/
def endOfSource (cs : List Char) : Token :=
  let place := SourcePlace.start.advance cs
  ⟨.eof, "", place.line, place.column, place.offset⟩

/-- A text cut into pieces from a place on, each one the first piece of what is left. -/
inductive Cut : SourcePlace → List Char → List Piece → Prop
  | done {place} : Cut place [] []
  | piece {place k u rest ps} : FirstPiece k u rest → Cut (place.advance u) rest ps →
      Cut place (u ++ rest) (⟨k, u, place⟩ :: ps)

theorem piecesFrom_append {k : PieceClass} {u rest : List Char} (h : FirstPiece k u rest)
    (fuel : Nat) (place : SourcePlace) : piecesFrom (fuel + 1) place (u ++ rest) =
      ⟨k, u, place⟩ :: piecesFrom fuel (place.advance u) rest := by
  have hmatch := (longestMatch_iff h.ne_nil).2 h
  obtain ⟨c, u, rfl⟩ := List.exists_cons_of_ne_nil h.ne_nil
  rw [List.cons_append] at hmatch ⊢
  simp only [piecesFrom, hmatch]
  rw [← List.cons_append, List.take_left, List.drop_left]

theorem piecesFrom_cut (fuel : Nat) (place : SourcePlace) (cs : List Char)
    (hfuel : cs.length ≤ fuel) : Cut place cs (piecesFrom fuel place cs) := by
  induction fuel generalizing place cs with
  | zero =>
    obtain rfl := List.length_eq_zero_iff.1 (Nat.le_zero.1 hfuel)
    exact .done
  | succ fuel ih =>
    cases cs with
    | nil => exact .done
    | cons c cs =>
      obtain ⟨u, rest, heq, -, hfirst⟩ := longestMatch_firstPiece (List.cons_ne_nil c cs)
      rw [heq] at hfuel ⊢
      rw [piecesFrom_append hfirst]
      refine .piece hfirst (ih _ rest ?_)
      have hpos := List.length_pos_iff.2 hfirst.ne_nil
      rw [List.length_append] at hfuel
      omega

theorem Cut.piecesFrom_eq {place : SourcePlace} {cs : List Char} {ps : List Piece}
    (h : Cut place cs ps) {fuel : Nat} (hfuel : cs.length ≤ fuel) :
    piecesFrom fuel place cs = ps := by
  induction h generalizing fuel with
  | done => cases fuel <;> rfl
  | @piece place k u rest ps hfirst _ ih =>
    have hpos := List.length_pos_iff.2 hfirst.ne_nil
    rw [List.length_append] at hfuel
    obtain ⟨fuel, rfl⟩ := Nat.exists_eq_succ_of_ne_zero (show fuel ≠ 0 by omega)
    rw [piecesFrom_append hfirst, ih (by omega)]

/-! ## Covering -/

/-- What a piece looks like where `rest` follows. -/
structure Piece.Fits (p : Piece) (rest : List Char) : Prop where
  ne_nil : p.text ≠ []
  trivium : p.kind.separates = true → Trivium rest p.text
  newline_not_mem : p.kind.separates = false → '\n' ∉ p.text

/-- Pieces that cover a text from a place on, no two invalid ones next to each other. -/
inductive Covers : SourcePlace → List Char → List Piece → Prop
  | done {place} : Covers place [] []
  | piece {p rest ps} : p.Fits rest →
      (p.kind = .invalid → ∀ q ∈ ps.head?, q.kind ≠ .invalid) →
      Covers (p.place.advance p.text) rest ps → Covers p.place (p.text ++ rest) (p :: ps)

theorem Covers.join {p : Piece} {rest : List Char} {ps : List Piece} (hp : p.Fits rest)
    (h : Covers (p.place.advance p.text) rest ps) :
    Covers p.place (p.text ++ rest) (joinPiece p ps) := by
  generalize hplace : p.place.advance p.text = place at h
  cases h with
  | done => exact .piece hp nofun (hplace ▸ .done)
  | @piece q rest qs hq hnext h =>
    rw [joinPiece]
    split_ifs with hinvalid
    · simp only [Bool.and_eq_true, decide_eq_true_eq] at hinvalid
      obtain ⟨hpk, hqk⟩ := hinvalid
      have hpn := hp.newline_not_mem (by rw [hpk]; rfl)
      have hqn := hq.newline_not_mem (by rw [hqk]; rfl)
      rw [← List.append_assoc]
      refine @Covers.piece ⟨.invalid, p.text ++ q.text, p.place⟩ rest qs ⟨?_, nofun, fun _ => ?_⟩
        (fun _ => hnext hqk) ?_
      · simp [hp.ne_nil]
      · simp [hpn, hqn]
      · rw [← hplace, ← SourcePlace.advance_append] at h
        exact h
    · refine .piece hp (fun hpk r hr => ?_) (hplace ▸ .piece hq hnext h)
      cases hr
      exact fun hqk => hinvalid (by simp [hpk, hqk])

theorem FirstPiece.fits {k : PieceClass} {u rest : List Char} (h : FirstPiece k u rest)
    (place : SourcePlace) : Piece.Fits ⟨k, u, place⟩ rest :=
  ⟨h.ne_nil, h.trivium, h.newline_not_mem⟩

theorem Cut.covers {place : SourcePlace} {cs : List Char} {ps : List Piece} (h : Cut place cs ps) :
    Covers place cs (joinInvalid ps) := by
  induction h with
  | done => exact .done
  | @piece place k u rest ps hfirst _ ih => exact Covers.join (hfirst.fits place) ih

/-- **The pieces of a text cover it.** -/
theorem pieces_cover (cs : List Char) : Covers .start cs (pieces cs) :=
  (piecesFrom_cut cs.length .start cs (Nat.le_refl _)).covers

end PackratCpp
