/-
  A token is read alike in front of a space.

  * `Lexicon.not_viable_space`: no text of the lexicon goes on with a space behind a token, not
    even where it starts with another token: only blanks, comments and directives hold spaces,
    which start differently, and literals, which end at their closing quote (`Quoted.cancel`).
  * `FirstPiece.before_space`: so a token is the first piece also where a space follows.
  * `FirstPiece.space`: a space in front of a token is a piece of its own.
-/
import PackratCpp.Proofs.Lexemes

namespace PackratCpp

open Pattern

namespace Lexicon

/-! ## How pieces start -/

/-- How blanks, comments and directives start. -/
def triviumStarts : List (List Char) :=
  blankChars.map (fun c => [c]) ++ [['\\'], ['#'], ['/', '/'], ['/', '*']]

theorem afterAll_triviumStarts : ∀ e ∈ lexicon, e.1.separates = false → ∀ s ∈ triviumStarts,
    (e.2.afterAll s).isHopeless = true := by
  have h : (lexicon.all fun e => e.1.separates ||
      triviumStarts.all fun s => (e.2.afterAll s).isHopeless) = true := by decide +kernel
  intro e he hk s hs
  have he := List.all_eq_true.1 h e he
  rw [hk, Bool.false_or] at he
  exact List.all_eq_true.1 he s hs

theorem not_prefix_of_matches {k : PieceClass} {p : Pattern} (hp : (k, p) ∈ lexicon)
    (hk : k.separates = false) {s u : List Char} (hs : s ∈ triviumStarts) (hu : Matches p u) :
    ¬ s <+: u := by
  rintro ⟨w, rfl⟩
  exact not_matches_of_isHopeless (afterAll_triviumStarts _ hp hk s hs) (matches_afterAll.2 hu)

theorem exists_prefix_of_matches {k : PieceClass} {p : Pattern} (hp : (k, p) ∈ lexicon)
    (hk : k.separates = true) {u : List Char} (hu : Matches p u) :
    ∃ s ∈ triviumStarts, s <+: u := by
  rcases separates_cases hp hk with rfl | rfl | rfl | rfl | rfl
  · obtain ⟨hne, hblank⟩ := blanks_iff.1 hu
    obtain ⟨c, u, rfl⟩ := List.exists_cons_of_ne_nil hne
    exact ⟨[c], List.mem_append_left _ (List.mem_map_of_mem (hblank c (List.mem_cons_self ..))),
      u, rfl⟩
  · rcases splice_iff.1 hu with rfl | rfl
    · exact ⟨['\\'], by decide, ['\n'], rfl⟩
    · exact ⟨['\\'], by decide, ['\r', '\n'], rfl⟩
  · obtain ⟨cs, -, rfl⟩ := lineComment_iff.1 hu
    exact ⟨['/', '/'], by decide, cs, rfl⟩
  · obtain ⟨cs, -, rfl⟩ := blockComment_shape hu
    exact ⟨['/', '*'], by decide, _, rfl⟩
  · obtain ⟨cs, -, rfl⟩ := directive_iff.1 hu
    exact ⟨['#'], by decide, cs, rfl⟩

/-! ## Literals -/

/-- What stands between the quotes of a literal. -/
inductive Quoted (quote : Char) : List Char → Prop
  | nil : Quoted quote []
  | plain {c cs} : c ≠ quote → c ≠ '\\' → Quoted quote cs → Quoted quote (c :: cs)
  /-- A backslash goes together with the character behind it. -/
  | escaped {c cs} : Quoted quote cs → Quoted quote ('\\' :: c :: cs)

theorem Quoted.cancel {quote : Char} (hq : quote ≠ '\\') {cs ds x y : List Char}
    (hcs : Quoted quote cs) (hds : Quoted quote ds) (h : cs ++ quote :: x = ds ++ quote :: y) :
    x = y := by
  induction hcs generalizing ds with
  | nil =>
    cases hds with
    | nil => exact (List.cons.inj h).2
    | plain hne _ _ => exact absurd (List.cons.inj h).1.symm hne
    | escaped _ => exact absurd (List.cons.inj h).1 hq
  | plain hne hslash _ ih =>
    cases hds with
    | nil => exact absurd (List.cons.inj h).1 hne
    | plain _ _ hds => exact ih hds (List.cons.inj h).2
    | escaped _ => exact absurd (List.cons.inj h).1 hslash
  | escaped _ ih =>
    cases hds with
    | nil => exact absurd (List.cons.inj h).1.symm hq
    | plain _ hslash _ => exact absurd (List.cons.inj h).1.symm hslash
    | escaped hds => exact ih hds (List.cons.inj (List.cons.inj h).2).2

/-- The spellings of `encoding`. -/
def encodings : List (List Char) :=
  [[], ['u', '8'], ['u'], ['U'], ['L']]

theorem encoding_mem {w : List Char} (h : Matches encoding w) : w ∈ encodings := by
  simp only [encoding, Pattern.optional, anyOf, matches_alt_iff, matches_word_iff,
    matches_empty_iff] at h
  rcases h with (rfl | rfl | rfl | rfl) | rfl <;> decide

/-- One step between quotes. -/
def literalStep (quote : Char) : Pattern :=
  .alt (noneOf [quote, '\\', '\n']) (.seq (oneOf ['\\']) (noneOf ['\n']))

theorem quoted_of_matches {quote : Char} {w : List Char}
    (h : Matches (.star (literalStep quote)) w) : Quoted quote w := by
  generalize hp : Pattern.star (literalStep quote) = p at h
  induction h with
  | starNil => exact .nil
  | starCons hu _ _ ih =>
    cases hp
    rcases matches_alt_iff.1 hu with hu | hu
    · obtain ⟨c, hc, rfl⟩ := matches_noneOf_iff.1 hu
      simp only [List.mem_cons, not_or] at hc
      exact .plain hc.1 hc.2.1 (ih rfl)
    · obtain ⟨_, _, rfl, hslash, hc⟩ := matches_seq_iff.1 hu
      obtain ⟨_, hs, rfl⟩ := matches_oneOf_iff.1 hslash
      obtain ⟨c, -, rfl⟩ := matches_noneOf_iff.1 hc
      rw [List.mem_singleton.1 hs]
      exact .escaped (ih rfl)
  | _ => cases hp

theorem literal_shape {quote : Char} {w : List Char} (h : Matches (literal quote) w) :
    ∃ enc ∈ encodings, ∃ cs, Quoted quote cs ∧ w = enc ++ quote :: (cs ++ [quote]) := by
  have hsteps : literal quote = .seq encoding (.seq (oneOf [quote])
      (.seq (.star (literalStep quote)) (oneOf [quote]))) := rfl
  simp only [hsteps, matches_seq_iff, matches_oneOf_iff, List.mem_singleton, exists_eq_left] at h
  obtain ⟨enc, _, rfl, henc, _, _, rfl, rfl, cs, _, rfl, hcs, rfl⟩ := h
  exact ⟨enc, encoding_mem henc, cs, quoted_of_matches hcs, rfl⟩

/-- The quotes, with the classes of their literals. -/
def quotes : List (Char × PieceClass) :=
  [('"', .string), ('\'', .character)]

theorem afterAll_opening : ∀ e ∈ lexicon, e.1.separates = false → ∀ q ∈ quotes, e.1 ≠ q.2 →
    ∀ enc ∈ encodings, (e.2.afterAll (enc ++ [q.1])).isHopeless = true := by
  have h : (lexicon.all fun e => e.1.separates || quotes.all fun q => e.1 = q.2 ||
      encodings.all fun enc => (e.2.afterAll (enc ++ [q.1])).isHopeless) = true := by
    decide +kernel
  intro e he hk q hq hne enc henc
  have he := List.all_eq_true.1 h e he
  rw [hk, Bool.false_or] at he
  have he := List.all_eq_true.1 he q hq
  rw [decide_eq_false hne, Bool.false_or] at he
  exact List.all_eq_true.1 he enc henc

theorem avoids_space : ∀ e ∈ lexicon, e.1.separates = false → (∀ q ∈ quotes, e.1 ≠ q.2) →
    e.2.avoids ' ' = true := by
  have h : (lexicon.all fun e => e.1.separates || quotes.any (fun q => e.1 = q.2) ||
      e.2.avoids ' ') = true := by decide +kernel
  intro e he hk hne
  have hany : quotes.any (fun q => decide (e.1 = q.2)) = false := by
    simpa using hne
  simpa [hk, hany] using List.all_eq_true.1 h e he

theorem eq_literal {q : Char × PieceClass} (hq : q ∈ quotes) {p : Pattern}
    (hp : (q.2, p) ∈ lexicon) : p = literal q.1 := by
  simp only [quotes, List.mem_cons, List.not_mem_nil, or_false] at hq
  rcases List.mem_append.1 hp with hp | hp
  · rcases hq with rfl | rfl <;> simpa using hp
  · obtain ⟨s, -, hs⟩ := List.mem_map.1 hp
    rcases hq with rfl | rfl <;> cases hs

theorem not_mem_encodings : ∀ enc ∈ encodings, ' ' ∉ enc ∧ ∀ q ∈ quotes, q.1 ∉ enc ∧ q.1 ≠ ' ' ∧
    q.1 ≠ '\\' := by
  decide

/-! ## A space behind a token -/

theorem exists_of_append_cons_eq {α : Type} {x y : α} {as bs cs ds : List α}
    (h : as ++ x :: bs = cs ++ y :: ds) (has : y ∉ as) (hne : x ≠ y) :
    ∃ es, cs = as ++ x :: es ∧ bs = es ++ y :: ds := by
  rcases List.append_eq_append_iff.1 h with ⟨es, rfl, hes⟩ | ⟨es, rfl, hes⟩
  · cases es with
    | nil => exact absurd (List.cons.inj hes).1 hne
    | cons e es =>
      obtain ⟨rfl, rfl⟩ := List.cons.inj hes
      exact ⟨es, rfl, rfl⟩
  · cases es with
    | nil => exact absurd (List.cons.inj hes).1.symm hne
    | cons e es =>
      obtain ⟨rfl, -⟩ := List.cons.inj hes
      exact absurd (List.mem_append_right cs (List.mem_cons_self ..)) has

theorem append_cons_inj_of_not_mem {α : Type} {x : α} {as bs cs ds : List α}
    (h : as ++ x :: bs = cs ++ x :: ds) (has : x ∉ as) (hcs : x ∉ cs) : bs = ds := by
  rcases List.append_eq_append_iff.1 h with ⟨es, rfl, hes⟩ | ⟨es, rfl, hes⟩
  · cases es with
    | nil => exact (List.cons.inj hes).2
    | cons e es =>
      obtain ⟨rfl, -⟩ := List.cons.inj hes
      exact absurd (List.mem_append_right as (List.mem_cons_self ..)) hcs
  · cases es with
    | nil => exact (List.cons.inj hes).2.symm
    | cons e es =>
      obtain ⟨rfl, -⟩ := List.cons.inj hes
      exact absurd (List.mem_append_right cs (List.mem_cons_self ..)) has

theorem not_matches_trivium_space {k k' : PieceClass} {p p' : Pattern} (hp : (k, p) ∈ lexicon)
    (hk : k.separates = false) (hp' : (k', p') ∈ lexicon) (hk' : k'.separates = true)
    {u v : List Char} (hne : u ≠ []) (hu : Matches p u) : ¬ Matches p' (u ++ [' '] ++ v) := by
  intro hv
  obtain ⟨s, hs, hprefix⟩ := exists_prefix_of_matches hp' hk' hv
  -- such a start either is in the token, or reaches as far as the space
  have hreach : u ++ [' '] <+: s := by
    rcases List.prefix_or_prefix_of_prefix hprefix (List.prefix_append _ v) with h | h
    · rcases List.prefix_concat_iff.1 h with rfl | h
      · exact List.prefix_refl _
      · exact absurd h (not_prefix_of_matches hp hk hs hu)
    · exact h
  have htail : ∀ s ∈ triviumStarts, ' ' ∉ s.tail := by decide
  obtain ⟨c, u, rfl⟩ := List.exists_cons_of_ne_nil hne
  obtain ⟨w, rfl⟩ := hreach
  exact htail _ hs (by simp)

theorem not_matches_literal_space {k : PieceClass} {p : Pattern} (hp : (k, p) ∈ lexicon)
    (hk : k.separates = false) {q : Char × PieceClass} (hq : q ∈ quotes) {u v : List Char}
    (hu : Matches p u) : ¬ Matches (literal q.1) (u ++ [' '] ++ v) := by
  intro hv
  obtain ⟨enc, henc, cs, hcs, heq⟩ := literal_shape hv
  obtain ⟨hspace, hfree⟩ := not_mem_encodings enc henc
  obtain ⟨hquote, hne, hslash⟩ := hfree q hq
  rw [List.append_assoc] at heq
  obtain ⟨ds, rfl, hds⟩ := exists_of_append_cons_eq heq.symm hspace hne
  by_cases hclass : k = q.2
  · -- the token is such a literal itself, and ends at its closing quote
    subst hclass
    rw [eq_literal hq hp] at hu
    obtain ⟨enc', henc', cs', hcs', heq'⟩ := literal_shape hu
    obtain ⟨hquote', -⟩ := (not_mem_encodings enc' henc').2 q hq
    rw [append_cons_inj_of_not_mem heq' hquote hquote', List.append_assoc] at hds
    cases hcs.cancel hslash hcs' hds
  · have hstart : Matches p (enc ++ [q.1] ++ ds) := by simpa using hu
    exact not_matches_of_isHopeless (afterAll_opening _ hp hk q hq hclass enc henc)
      (matches_afterAll.2 hstart)

/-- **No text of the lexicon goes on with a space behind a token.** -/
theorem not_viable_space {k : PieceClass} {p : Pattern} (hp : (k, p) ∈ lexicon)
    (hk : k.separates = false) {u : List Char} (hne : u ≠ []) (hu : Matches p u) :
    ¬ Viable (u ++ [' ']) := by
  rintro ⟨⟨k', p'⟩, hp', v, hv⟩
  cases hk' : k'.separates with
  | true => exact not_matches_trivium_space hp hk hp' hk' hne hu hv
  | false =>
    by_cases hclass : ∃ q ∈ quotes, k' = q.2
    · obtain ⟨q, hq, rfl⟩ := hclass
      rw [eq_literal hq hp'] at hv
      exact not_matches_literal_space hp hk hq hu hv
    · have havoids := avoids_space _ hp' hk' fun q hq heq => hclass ⟨q, hq, heq⟩
      exact hv.not_mem havoids (by simp)

end Lexicon

open Lexicon

/-! ## First pieces and spaces -/

/-- **A token is the first piece also where a space follows**, or nothing. -/
theorem FirstPiece.before_space {k : PieceClass} {u rest : List Char} (h : FirstPiece k u rest)
    (hk : k.separates = false) (hvalid : k ≠ .invalid) {rest' : List Char}
    (hrest : ∀ c ∈ rest'.head?, c = ' ') : FirstPiece k u rest' := by
  cases h with
  | invalid => exact absurd rfl hvalid
  | found hne hclass _ =>
    obtain ⟨p, hp, hu⟩ := exists_matches_of_classOf? hclass
    refine .found hne hclass (noLonger_of_dead fun c hc => ?_)
    rw [hrest c hc]
    exact not_viable_space hp hk hne hu

theorem not_viable_space_cons {c : Char} (hc : c ∉ blankChars) : ¬ Viable [' ', c] := by
  rintro ⟨⟨k, p⟩, hp, v, hv⟩
  cases hk : k.separates with
  | false => exact not_prefix_of_matches hp hk (s := [' ']) (by decide) hv ⟨c :: v, rfl⟩
  | true =>
    rcases separates_cases hp hk with rfl | rfl | rfl | rfl | rfl
    · exact hc ((blanks_iff.1 hv).2 c (by simp))
    · rcases splice_iff.1 hv with h | h <;> cases h
    · obtain ⟨cs, -, h⟩ := lineComment_iff.1 hv
      cases h
    · obtain ⟨cs, -, h⟩ := blockComment_shape hv
      cases h
    · obtain ⟨cs, -, h⟩ := directive_iff.1 hv
      cases h

/-- **A space in front of a token** is a piece of its own. -/
theorem FirstPiece.space {k : PieceClass} {u rest : List Char} (h : FirstPiece k u rest)
    (hk : k.separates = false) (hvalid : k ≠ .invalid) (rest' : List Char) :
    FirstPiece .blank [' '] (u ++ rest') := by
  cases h with
  | invalid => exact absurd rfl hvalid
  | found hne hclass _ =>
    obtain ⟨p, hp, hu⟩ := exists_matches_of_classOf? hclass
    obtain ⟨c, u, rfl⟩ := List.exists_cons_of_ne_nil hne
    have hclass : classOf? [' '] = some .blank := by decide +kernel
    refine .found (List.cons_ne_nil _ _) hclass (noLonger_of_dead fun d hd => ?_)
    cases hd
    refine not_viable_space_cons fun hc => ?_
    exact not_prefix_of_matches hp hk (List.mem_append_left _ (List.mem_map_of_mem hc)) hu ⟨u, rfl⟩

end PackratCpp
