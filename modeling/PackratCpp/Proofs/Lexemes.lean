/-
  What the pieces of a text look like.

  * `Trivium`: blanks, a line end behind a backslash, a comment or a directive, given what
    follows.
  * `FirstPiece.trivium`: a piece that only separates tokens is one of these.
  * `FirstPiece.newline_not_mem`: any other piece stays on its line, those that fit no pattern
    included.
-/
import Mathlib.Data.List.Chain
import PackratCpp.Proofs.LongestMatch

namespace PackratCpp

open Pattern

/-! ## Between tokens -/

/-- Whether the pieces of a class only separate tokens. -/
def PieceClass.separates : PieceClass → Bool
  | .blank | .comment => true
  | _ => false

/-- The blanks. -/
def blankChars : List Char :=
  [' ', '\t', '\r', '\n', '\x0c', '\x0b']

/-- A text in which no comment is closed: there is no `*/`. -/
def KeepsOpen (cs : List Char) : Prop :=
  cs.IsChain fun c d => ¬ (c = '*' ∧ d = '/')

/-- The line ends here: a line end follows, or nothing. -/
def AtLineEnd (rest : List Char) : Prop :=
  ∀ c ∈ rest.head?, c = '\n'

/-- What may stand between tokens, where `rest` follows. -/
inductive Trivium (rest : List Char) : List Char → Prop
  | blanks {cs} : cs ≠ [] → (∀ c ∈ cs, c ∈ blankChars) → Trivium rest cs
  /-- A line end behind a backslash. -/
  | splice : Trivium rest ['\\', '\n']
  | spliceReturn : Trivium rest ['\\', '\r', '\n']
  | lineComment {cs} : '\n' ∉ cs → AtLineEnd rest → Trivium rest ('/' :: '/' :: cs)
  | directive {cs} : '\n' ∉ cs → AtLineEnd rest → Trivium rest ('#' :: cs)
  /-- A comment that ends with the first `*/` behind its opening. -/
  | blockComment {cs} : KeepsOpen (cs ++ ['*']) → Trivium rest ('/' :: '*' :: (cs ++ ['*', '/']))

namespace Lexicon

/-! ### Blanks and line ends -/

theorem blanks_iff {w : List Char} : Matches blanks w ↔ w ≠ [] ∧ ∀ c ∈ w, c ∈ blankChars := by
  simp only [blanks, oneOf, matches_plus_one_iff, CharSet.contains_of, blankChars]

theorem splice_iff {w : List Char} :
    Matches splice w ↔ w = ['\\', '\n'] ∨ w = ['\\', '\r', '\n'] := by
  simp only [splice, all, Pattern.optional, matches_seq_iff, matches_alt_iff, matches_empty_iff,
    matches_oneOf_iff, List.mem_singleton, exists_eq_left]
  constructor
  · rintro ⟨_, _, rfl, rfl, _, _, rfl, rfl | rfl, rfl⟩
    · exact Or.inr rfl
    · exact Or.inl rfl
  · rintro (rfl | rfl)
    · exact ⟨['\\'], ['\n'], rfl, rfl, [], ['\n'], rfl, Or.inr rfl, rfl⟩
    · exact ⟨['\\'], ['\r', '\n'], rfl, rfl, ['\r'], ['\n'], rfl, Or.inl rfl, rfl⟩

/-! ### Comments -/

theorem restOfLine_iff {w : List Char} : Matches restOfLine w ↔ '\n' ∉ w := by
  simp only [restOfLine, noneOf, matches_star_one_iff, CharSet.contains_except, List.mem_singleton]
  exact ⟨fun h hmem => h _ hmem rfl, fun h c hc hn => h (hn ▸ hc)⟩

theorem lineComment_iff {w : List Char} :
    Matches lineComment w ↔ ∃ cs, '\n' ∉ cs ∧ w = '/' :: '/' :: cs := by
  simp only [lineComment, matches_seq_iff, matches_word_iff, restOfLine_iff]
  constructor
  · rintro ⟨_, cs, rfl, rfl, hcs⟩
    exact ⟨cs, hcs, rfl⟩
  · rintro ⟨cs, hcs, rfl⟩
    exact ⟨['/', '/'], cs, rfl, rfl, hcs⟩

theorem directive_iff {w : List Char} :
    Matches directive w ↔ ∃ cs, '\n' ∉ cs ∧ w = '#' :: cs := by
  simp only [directive, matches_seq_iff, matches_oneOf_iff, restOfLine_iff, List.mem_singleton,
    exists_eq_left]
  constructor
  · rintro ⟨_, cs, rfl, rfl, hcs⟩
    exact ⟨cs, hcs, rfl⟩
  · rintro ⟨cs, hcs, rfl⟩
    exact ⟨['#'], cs, rfl, rfl, hcs⟩

theorem keepsOpen_stars {cs stars : List Char} (hcs : '*' ∉ cs) (hne : stars ≠ [])
    (hstars : ∀ c ∈ stars, c = '*') :
    KeepsOpen (cs ++ stars) ∧ (cs ++ stars).getLast? = some '*' := by
  constructor
  · refine List.isChain_append.2 ⟨?_, ?_, fun c hc _ _ h => ?_⟩
    · refine (List.pairwise_of_forall_mem_list fun c hc _ _ h => ?_).isChain
      exact hcs (h.1 ▸ hc)
    · refine (List.pairwise_of_forall_mem_list fun _ _ d hd h => ?_).isChain
      rw [hstars d hd] at h
      exact absurd h.2 (by decide)
    · exact hcs (h.1 ▸ List.mem_of_getLast? hc)
  · have hlast := hstars _ (List.getLast_mem hne)
    rw [List.getLast?_append, List.getLast?_eq_some_getLast hne, hlast]
    rfl

/-- What may follow a star in a comment: a character that does not close it, and text up to another
star. -/
def commentRound : Pattern :=
  all [noneOf ['/', '*'], .star (noneOf ['*']), plus (oneOf ['*'])]

theorem stars_of_matches {w : List Char} (h : Matches (plus (oneOf ['*'])) w) :
    w ≠ [] ∧ ∀ c ∈ w, c = '*' := by
  simpa only [oneOf, matches_plus_one_iff, CharSet.contains_of, List.mem_singleton] using h

theorem star_not_mem_of_matches {w : List Char} (h : Matches (.star (noneOf ['*'])) w) :
    '*' ∉ w := by
  simp only [noneOf, matches_star_one_iff, CharSet.contains_except, List.mem_singleton] at h
  exact fun hmem => h _ hmem rfl

theorem keepsOpen_round {w u : List Char} (hw : KeepsOpen w) (hu : Matches commentRound u) :
    KeepsOpen (w ++ u) ∧ (w ++ u).getLast? = some '*' := by
  simp only [commentRound, all, matches_seq_iff, matches_noneOf_iff] at hu
  obtain ⟨_, _, rfl, ⟨c, hc, rfl⟩, cs, stars, rfl, hcs, hstars⟩ := hu
  obtain ⟨hne, hstars⟩ := stars_of_matches hstars
  simp only [List.mem_cons, List.not_mem_nil, or_false, not_or] at hc
  have hmem : '*' ∉ c :: cs := by
    simpa [eq_comm] using And.intro hc.2 (star_not_mem_of_matches hcs)
  obtain ⟨hopen, hlast⟩ := keepsOpen_stars hmem hne hstars
  have hopen : KeepsOpen ([c] ++ (cs ++ stars)) := hopen
  have hlast : ([c] ++ (cs ++ stars)).getLast? = some '*' := hlast
  refine ⟨List.isChain_append.2 ⟨hw, hopen, fun _ _ d hd h => ?_⟩, ?_⟩
  · cases hd
    exact hc.1 h.2
  · rw [List.getLast?_append, hlast]
    rfl

theorem keepsOpen_rounds {w u : List Char} (hw : KeepsOpen w) (hlast : w.getLast? = some '*')
    (hu : Matches (.star commentRound) u) : KeepsOpen (w ++ u) ∧ (w ++ u).getLast? = some '*' := by
  generalize hp : Pattern.star commentRound = p at hu
  induction hu generalizing w with
  | starNil => rw [List.append_nil]; exact ⟨hw, hlast⟩
  | starCons hu _ _ ih =>
    cases hp
    obtain ⟨hopen, hlast⟩ := keepsOpen_round hw hu
    rw [← List.append_assoc]
    exact ih hopen hlast rfl
  | _ => cases hp

theorem blockComment_shape {w : List Char} (h : Matches blockComment w) :
    ∃ cs, KeepsOpen (cs ++ ['*']) ∧ w = '/' :: '*' :: (cs ++ ['*', '/']) := by
  have hrounds : blockComment = .seq (word "/*") (.seq (.star (noneOf ['*']))
      (.seq (plus (oneOf ['*'])) (.seq (.star commentRound) (oneOf ['/'])))) := rfl
  simp only [hrounds, matches_seq_iff, matches_word_iff, matches_oneOf_iff, List.mem_singleton,
    exists_eq_left] at h
  obtain ⟨_, _, rfl, rfl, cs, _, rfl, hcs, stars, _, rfl, hstars, rounds, _, rfl, hrounds, rfl⟩ := h
  obtain ⟨hne, hstars⟩ := stars_of_matches hstars
  obtain ⟨hopen, hlast⟩ := keepsOpen_stars (star_not_mem_of_matches hcs) hne hstars
  obtain ⟨hopen, hlast⟩ := keepsOpen_rounds hopen hlast hrounds
  obtain ⟨body, hbody⟩ := List.getLast?_eq_some_iff.1 hlast
  refine ⟨body, hbody ▸ hopen, ?_⟩
  have htext : cs ++ (stars ++ (rounds ++ ['/'])) = body ++ ['*', '/'] := by
    rw [← List.append_assoc, ← List.append_assoc, hbody, List.append_assoc]
    rfl
  rw [htext]
  rfl

/-! ### The patterns of a class -/

theorem separates_cases {k : PieceClass} {p : Pattern} (h : (k, p) ∈ lexicon)
    (hk : k.separates = true) :
    p = blanks ∨ p = splice ∨ p = lineComment ∨ p = blockComment ∨ p = directive := by
  rcases List.mem_append.1 h with h | h
  · simp only [List.mem_cons, List.not_mem_nil, or_false, Prod.mk.injEq] at h
    rcases h with ⟨rfl, rfl⟩ | ⟨rfl, rfl⟩ | ⟨rfl, rfl⟩ | ⟨rfl, rfl⟩ | ⟨rfl, rfl⟩ | ⟨rfl, rfl⟩ |
      ⟨rfl, rfl⟩ | ⟨rfl, rfl⟩ | ⟨rfl, rfl⟩
    · exact Or.inl rfl
    · exact Or.inr (Or.inl rfl)
    · exact Or.inr (Or.inr (Or.inl rfl))
    · exact Or.inr (Or.inr (Or.inr (Or.inl rfl)))
    · exact Or.inr (Or.inr (Or.inr (Or.inr rfl)))
    all_goals cases hk
  · obtain ⟨s, -, hs⟩ := List.mem_map.1 h
    cases hs
    cases hk

theorem mem_lexicon_blanks : (PieceClass.blank, blanks) ∈ lexicon :=
  List.mem_cons_self ..

theorem mem_lexicon_splice : (PieceClass.blank, splice) ∈ lexicon :=
  List.mem_cons_of_mem _ (List.mem_cons_self ..)

theorem avoids_newline : ∀ e ∈ lexicon, e.1.separates = false → e.2.avoids '\n' = true := by
  have h : (lexicon.all fun e => e.1.separates || e.2.avoids '\n') = true := by decide +kernel
  intro e he hk
  simpa [hk] using List.all_eq_true.1 h e he

end Lexicon

open Lexicon

/-! ## Pieces -/

theorem NoLonger.atLineEnd {u rest : List Char} (h : NoLonger u rest)
    (hmore : ∀ c, c ≠ '\n' → ∃ e ∈ lexicon, Matches e.2 (u ++ [c])) : AtLineEnd rest := by
  intro c hc
  obtain ⟨rest, rfl⟩ : ∃ rest', rest = c :: rest' := List.head?_eq_some_iff.1 hc
  by_contra hn
  obtain ⟨e, he, hm⟩ := hmore c hn
  exact classOf?_eq_none_iff.1 (noLonger_cons.1 h).1 e he hm

/-- **A piece that separates tokens** is blank, a comment or a directive. -/
theorem FirstPiece.trivium {k : PieceClass} {u rest : List Char} (h : FirstPiece k u rest)
    (hk : k.separates = true) : Trivium rest u := by
  cases h with
  | invalid => cases hk
  | found _ hclass hlong =>
    obtain ⟨p, hp, hu⟩ := exists_matches_of_classOf? hclass
    rcases separates_cases hp hk with rfl | rfl | rfl | rfl | rfl
    · obtain ⟨hne, hblank⟩ := blanks_iff.1 hu
      exact .blanks hne hblank
    · rcases splice_iff.1 hu with rfl | rfl
      · exact .splice
      · exact .spliceReturn
    · obtain ⟨cs, hcs, rfl⟩ := lineComment_iff.1 hu
      refine .lineComment hcs (hlong.atLineEnd fun c hc => ⟨_, hp, lineComment_iff.2 ?_⟩)
      exact ⟨cs ++ [c], by simp [hcs, hc.symm], rfl⟩
    · obtain ⟨cs, hcs, rfl⟩ := blockComment_shape hu
      exact .blockComment hcs
    · obtain ⟨cs, hcs, rfl⟩ := directive_iff.1 hu
      refine .directive hcs (hlong.atLineEnd fun c hc => ⟨_, hp, directive_iff.2 ?_⟩)
      exact ⟨cs ++ [c], by simp [hcs, hc.symm], rfl⟩

theorem eq_nil_of_append_eq_concat {α : Type} {u v x : List α} {a : α} (h : u ++ v = x ++ [a])
    (hx : a ∉ x) (hu : a ∈ u) : v = [] := by
  rcases List.append_eq_append_iff.1 h with ⟨y, rfl, -⟩ | ⟨y, rfl, hy⟩
  · exact absurd (List.mem_append_left y hu) hx
  · rcases List.append_eq_singleton_iff.1 hy.symm with ⟨rfl, -⟩ | ⟨-, hv⟩
    · exact absurd (x.append_nil ▸ hu) hx
    · exact hv

theorem Viable.newline_not_mem {u rest : List Char} (h : Viable u)
    (hnone : NoLonger [] (u ++ rest)) : '\n' ∉ u := by
  obtain ⟨⟨k, p⟩, hp, v, hv⟩ := h
  cases u with
  | nil => exact List.not_mem_nil
  | cons c u =>
    have hfirst : classOf? [c] = none := hnone.classOf?_eq (u := [c]) (List.cons_ne_nil c [])
    have hfirst := classOf?_eq_none_iff.1 hfirst
    have hwhole := classOf?_eq_none_iff.1 (hnone.classOf?_eq (List.cons_ne_nil c u))
    have hstays : '\n' ∉ (c :: u) ++ v → '\n' ∉ c :: u := fun h hmem =>
      h (List.mem_append_left v hmem)
    cases hk : k.separates with
    | false => exact hstays (hv.not_mem (avoids_newline _ hp hk))
    | true =>
      rcases separates_cases hp hk with rfl | rfl | rfl | rfl | rfl
      · -- the first blank would be a piece
        have hc := (blanks_iff.1 hv).2 c (List.mem_cons_self ..)
        exact absurd (blanks_iff.2 ⟨List.cons_ne_nil c [], by simpa using hc⟩)
          (hfirst _ mem_lexicon_blanks)
      · intro hmem
        obtain ⟨x, hx, hw⟩ : ∃ x, '\n' ∉ x ∧ c :: u ++ v = x ++ ['\n'] := by
          rcases splice_iff.1 hv with hw | hw
          · exact ⟨['\\'], by decide, hw⟩
          · exact ⟨['\\', '\r'], by decide, hw⟩
        rw [eq_nil_of_append_eq_concat hw hx hmem, List.append_nil] at hv
        exact hwhole _ mem_lexicon_splice hv
      · obtain ⟨cs, hcs, hw⟩ := lineComment_iff.1 hv
        exact hstays (by rw [hw]; simp [hcs])
      · -- the slash would be a piece
        obtain ⟨cs, -, hw⟩ := blockComment_shape hv
        obtain ⟨rfl, -⟩ := List.cons.inj hw
        have hslash : (PieceClass.punctuator, word "/") ∈ lexicon :=
          List.mem_append_right _ (List.mem_map_of_mem (by decide))
        exact absurd (matches_word_iff.2 rfl) (hfirst _ hslash)
      · obtain ⟨cs, hcs, hw⟩ := directive_iff.1 hv
        exact hstays (by rw [hw]; simp [hcs])

/-- **Any other piece stays on its line**, also if it fits no pattern. -/
theorem FirstPiece.newline_not_mem {k : PieceClass} {u rest : List Char} (h : FirstPiece k u rest)
    (hk : k.separates = false) : '\n' ∉ u := by
  cases h with
  | found _ hclass _ =>
    obtain ⟨p, hp, hu⟩ := exists_matches_of_classOf? hclass
    exact hu.not_mem (avoids_newline _ hp hk)
  | invalid hne hnone hread _ =>
    rcases hread with hlength | hviable
    · obtain ⟨c, rfl⟩ := List.length_eq_one_iff.1 hlength
      intro hmem
      have hblank : Matches blanks [c] := by
        rw [← List.mem_singleton.1 hmem]
        exact blanks_iff.2 ⟨List.cons_ne_nil _ _, by simp [blankChars]⟩
      exact classOf?_eq_none_iff.1 (hnone.classOf?_eq hne) _ mem_lexicon_blanks hblank
    · exact hviable.newline_not_mem hnone

end PackratCpp
