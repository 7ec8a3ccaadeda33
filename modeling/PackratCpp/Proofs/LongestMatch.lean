/-
  The longest match, by what the patterns describe.

  * `live`, `classOf?`: what is left of the lexicon behind some characters, and the class of a text
    that fits it (`live_eq_nil_iff`, `classOf?_eq_none_iff`).
  * `FirstPiece`: the first piece of a text, which is the longest beginning that fits, or as much
    as could be read where none does.
  * `longestMatch_iff`: that is what `longestMatch` finds.
-/
import PackratCpp.Lex.Scan
import PackratCpp.Proofs.Patterns

namespace PackratCpp

/-! ## Reading along the lexicon -/

open Pattern

/-- What is left of the lexicon behind some characters. -/
def live (u : List Char) : List (PieceClass × Pattern) :=
  u.foldl readChar lexicon

/-- The class of a text that fits the lexicon. -/
def classOf? (u : List Char) : Option PieceClass :=
  finished? (live u)

theorem finished?_live (u : List Char) : finished? (live u) = classOf? u := rfl

/-- A text can go on so as to fit the lexicon. -/
def Viable (u : List Char) : Prop :=
  ∃ e ∈ lexicon, ∃ v, Matches e.2 (u ++ v)

theorem Viable.of_append {u v : List Char} (h : Viable (u ++ v)) : Viable u := by
  obtain ⟨e, he, w, hw⟩ := h
  exact ⟨e, he, v ++ w, by rwa [← List.append_assoc]⟩

theorem live_concat (u : List Char) (c : Char) : live (u ++ [c]) = readChar (live u) c := by
  rw [live, List.foldl_append]
  rfl

theorem mem_readChar {entries : List (PieceClass × Pattern)} {c : Char} {k : PieceClass}
    {q : Pattern} : (k, q) ∈ readChar entries c ↔
      ∃ p, (k, p) ∈ entries ∧ p.after c = q ∧ q.isHopeless = false := by
  simp only [readChar, List.mem_filter, List.mem_map, Prod.mk.injEq, Prod.exists,
    Bool.not_eq_true']
  constructor
  · rintro ⟨⟨k', p, hp, rfl, hq⟩, hne⟩
    exact ⟨p, hp, hq, hne⟩
  · rintro ⟨p, hp, hq, hne⟩
    exact ⟨⟨k, p, hp, rfl, hq⟩, hne⟩

theorem mem_foldl_readChar {entries : List (PieceClass × Pattern)} {u : List Char} {k : PieceClass}
    {q : Pattern} : (k, q) ∈ u.foldl readChar entries ↔
      ∃ p, (k, p) ∈ entries ∧ p.afterAll u = q ∧ (u = [] ∨ q.isHopeless = false) := by
  induction u generalizing entries with
  | nil => simp [afterAll]
  | cons c u ih =>
    rw [List.foldl_cons, ih]
    constructor
    · rintro ⟨p', hp', hq, hne⟩
      obtain ⟨p, hp, rfl, hne'⟩ := mem_readChar.1 hp'
      refine ⟨p, hp, hq, Or.inr (hne.elim (fun hu => ?_) id)⟩
      subst hu
      exact (congrArg isHopeless hq.symm).trans hne'
    · rintro ⟨p, hp, hq, hne⟩
      have hne := hne.resolve_left (List.cons_ne_nil c u)
      refine ⟨p.after c, mem_readChar.2 ⟨p, hp, rfl, ?_⟩, hq, Or.inr hne⟩
      -- nothing would be left behind `u` either
      by_contra hc
      have hc := eq_hopeless_of_isHopeless (Bool.not_eq_false _ ▸ hc)
      have : q = .hopeless := hq ▸ (congrArg (afterAll · u) hc).trans (afterAll_hopeless u)
      rw [this] at hne
      cases hne

theorem Lexicon.sturdy : ∀ e ∈ lexicon, e.2.Sturdy := by
  have hword : ∀ s : String, (word s).Sturdy := fun s => sturdy_chars s.toList
  have hdigit : digit.Sturdy := ⟨'0', by decide⟩
  have hstart : wordStart.Sturdy := ⟨'a', by decide⟩
  have hrest : wordRest.Sturdy := ⟨'a', by decide⟩
  have hnumber : numberRest.Sturdy := ⟨'0', by decide⟩
  have hone : ∀ c cs, (oneOf (c :: cs)).Sturdy := fun c cs =>
    ⟨c, by simp [CharSet.contains, CharSet.of]⟩
  have hsplice : splice.Sturdy := ⟨hone _ _, ⟨hone _ _, trivial⟩, hone _ _⟩
  have hblock : blockComment.Sturdy :=
    have hstar : (noneOf ['*']).Sturdy := ⟨'x', by decide⟩
    have hplus : (plus (oneOf ['*'])).Sturdy := ⟨hone _ _, hone _ _⟩
    ⟨hword _, hstar, hplus, ⟨⟨'x', by decide⟩, hstar, hplus⟩, hone _ _⟩
  have hline : restOfLine.Sturdy := ⟨'x', by decide⟩
  have hencoding : encoding.Sturdy := ⟨⟨hword _, hword _, hword _, hword _⟩, trivial⟩
  have hnewline : (noneOf ['\n']).Sturdy := ⟨'x', by decide⟩
  have hliteral : ∀ q, (noneOf [q, '\\', '\n']).Sturdy → (literal q).Sturdy := fun q hq =>
    ⟨hencoding, hone _ _, ⟨hq, hone _ _, hnewline⟩, hone _ _⟩
  intro e he
  rcases List.mem_append.1 he with he | he
  · simp only [List.mem_cons, List.not_mem_nil, or_false] at he
    rcases he with rfl | rfl | rfl | rfl | rfl | rfl | rfl | rfl | rfl
    · exact ⟨hone _ _, hone _ _⟩
    · exact hsplice
    · exact ⟨hword _, hline⟩
    · exact hblock
    · exact ⟨hone _ _, hline⟩
    · exact ⟨hstart, hrest⟩
    · exact ⟨⟨hdigit, hone _ _, hdigit⟩, hnumber, hone _ _, hone _ _⟩
    · exact hliteral _ ⟨'x', by decide⟩
    · exact hliteral _ ⟨'x', by decide⟩
  · obtain ⟨s, -, rfl⟩ := List.mem_map.1 he
    exact hword s

theorem mem_live {u : List Char} {k : PieceClass} {q : Pattern} :
    (k, q) ∈ live u ↔ ∃ p, (k, p) ∈ lexicon ∧ p.afterAll u = q ∧ q.isHopeless = false := by
  rw [live, mem_foldl_readChar]
  constructor
  · rintro ⟨p, hp, hq, rfl | hne⟩
    · exact ⟨p, hp, hq, hq ▸ (Lexicon.sturdy _ hp).isHopeless_eq⟩
    · exact ⟨p, hp, hq, hne⟩
  · rintro ⟨p, hp, hq, hne⟩
    exact ⟨p, hp, hq, Or.inr hne⟩

theorem live_eq_nil_iff {u : List Char} : live u = [] ↔ ¬ Viable u := by
  constructor
  · rintro hu ⟨⟨k, p⟩, he, v, hv⟩
    have hv := matches_afterAll.2 hv
    have hmem : (k, p.afterAll u) ∈ live u := by
      refine mem_live.2 ⟨p, he, rfl, Bool.eq_false_iff.2 fun hh => ?_⟩
      exact not_matches_of_isHopeless hh hv
    rw [hu] at hmem
    cases hmem
  · intro hu
    refine List.eq_nil_iff_forall_not_mem.2 fun ⟨k, q⟩ hq => hu ?_
    obtain ⟨p, hp, rfl, hne⟩ := mem_live.1 hq
    rcases (Lexicon.sturdy _ hp).afterAll u with hh | hs
    · rw [hh] at hne
      cases hne
    · exact ⟨_, hp, hs.exists_matches.imp fun _ => matches_afterAll.1⟩

theorem exists_matches_of_classOf? {u : List Char} {k : PieceClass} (h : classOf? u = some k) :
    ∃ p, (k, p) ∈ lexicon ∧ Matches p u := by
  obtain ⟨⟨k', q⟩, hfind, rfl⟩ := Option.map_eq_some_iff.1 h
  obtain ⟨p, hp, rfl, -⟩ := mem_live.1 (List.mem_of_find?_eq_some hfind)
  have hempty : (p.afterAll u).matchesEmpty = true := by simpa using List.find?_some hfind
  exact ⟨p, hp, u.append_nil ▸ matches_afterAll.1 (matchesEmpty_iff.1 hempty)⟩

theorem classOf?_eq_none_iff {u : List Char} :
    classOf? u = none ↔ ∀ e ∈ lexicon, ¬ Matches e.2 u := by
  constructor
  · rintro h ⟨k, p⟩ he hu
    have hempty : Matches (p.afterAll u) [] := matches_afterAll.2 (u.append_nil.symm ▸ hu)
    have hmem : (k, p.afterAll u) ∈ live u :=
      mem_live.2 ⟨p, he, rfl, Bool.eq_false_iff.2 fun hh => not_matches_of_isHopeless hh hempty⟩
    rw [classOf?, finished?, Option.map_eq_none_iff, List.find?_eq_none] at h
    exact h _ hmem (matchesEmpty_iff.2 hempty)
  · intro h
    cases hk : classOf? u with
    | none => rfl
    | some k =>
      obtain ⟨p, hp, hu⟩ := exists_matches_of_classOf? hk
      exact absurd hu (h _ hp)

theorem classOf?_eq_none {u : List Char} (h : ¬ Viable u) : classOf? u = none :=
  classOf?_eq_none_iff.2 fun e he hu => h ⟨e, he, [], u.append_nil.symm ▸ hu⟩

/-! ## The first piece -/

/-- Nothing longer than `u` fits where `rest` follows. -/
def NoLonger (u rest : List Char) : Prop :=
  ∀ v, v ≠ [] → v <+: rest → classOf? (u ++ v) = none

@[simp] theorem noLonger_nil (u : List Char) : NoLonger u [] :=
  fun _ hne hv => absurd (List.prefix_nil.1 hv) hne

theorem NoLonger.classOf?_eq {u rest : List Char} (h : NoLonger [] (u ++ rest)) (hu : u ≠ []) :
    classOf? u = none :=
  h u hu (List.prefix_append u rest)

theorem noLonger_cons {u rest : List Char} {c : Char} :
    NoLonger u (c :: rest) ↔ classOf? (u ++ [c]) = none ∧ NoLonger (u ++ [c]) rest := by
  constructor
  · refine fun h => ⟨h [c] (List.cons_ne_nil c []) ⟨rest, rfl⟩, fun v _ hv => ?_⟩
    rw [List.append_assoc]
    exact h (c :: v) (List.cons_ne_nil c v) (List.cons_prefix_cons.2 ⟨rfl, hv⟩)
  · rintro ⟨hc, hrest⟩ v hne hv
    obtain ⟨w, rfl, hw⟩ := (List.prefix_cons_iff.1 hv).resolve_left hne
    rcases eq_or_ne w [] with rfl | hne
    · exact hc
    · exact (congrArg classOf? (List.append_assoc u [c] w)).symm.trans (hrest w hne hw)

theorem noLonger_of_dead {u rest : List Char} (h : ∀ c ∈ rest.head?, ¬ Viable (u ++ [c])) :
    NoLonger u rest := by
  intro v hne hv
  obtain ⟨c, v, rfl⟩ := List.exists_cons_of_ne_nil hne
  obtain ⟨rest, rfl⟩ := hv
  refine classOf?_eq_none fun hviable => h c rfl (Viable.of_append (v := v) ?_)
  rwa [List.append_assoc]

/-- `u` is the first piece of a text in which `rest` follows. -/
inductive FirstPiece : PieceClass → List Char → List Char → Prop
  /-- The longest beginning that fits. -/
  | found {k u rest} : u ≠ [] → classOf? u = some k → NoLonger u rest → FirstPiece k u rest
  /-- No beginning fits.  The piece is as long as the text can be read, or one character. -/
  | invalid {u rest} : u ≠ [] → NoLonger [] (u ++ rest) → (u.length = 1 ∨ Viable u) →
      (∀ c ∈ rest.head?, ¬ Viable (u ++ [c])) → FirstPiece .invalid u rest

theorem FirstPiece.ne_nil {k : PieceClass} {u rest : List Char} (h : FirstPiece k u rest) :
    u ≠ [] := by
  cases h with
  | found hu | invalid hu => exact hu

theorem readLongest_best (cs u : List Char) (best : Option MatchLength) :
    ((readLongest (live u) u.length best cs).1 = best ∧ NoLonger u cs) ∨
      ∃ v rest k, cs = v ++ rest ∧ v ≠ [] ∧ classOf? (u ++ v) = some k ∧ NoLonger (u ++ v) rest ∧
        (readLongest (live u) u.length best cs).1 = some (k, (u ++ v).length) := by
  induction cs generalizing u best with
  | nil => exact Or.inl ⟨rfl, noLonger_nil u⟩
  | cons c cs ih =>
    have hlive := live_concat u c
    have hlength : (u ++ [c]).length = u.length + 1 := List.length_append
    rw [readLongest]
    cases hread : readChar (live u) c with
    | nil =>
      have hdead : ¬ Viable (u ++ [c]) := live_eq_nil_iff.1 (hlive.trans hread)
      refine Or.inl ⟨rfl, noLonger_of_dead fun d hd => ?_⟩
      cases hd
      exact hdead
    | cons e es =>
      have hnext := ih (u ++ [c]) (((classOf? (u ++ [c])).map fun k => (k, u.length + 1)).or best)
      rw [hlength] at hnext
      simp only [← hread, ← hlive, finished?_live]
      rcases hnext with ⟨hbest, hnone⟩ | ⟨v, rest, k, rfl, -, hk, hnone, hbest⟩
      · cases hk : classOf? (u ++ [c]) with
        | none =>
          rw [hk] at hbest
          exact Or.inl ⟨hbest, noLonger_cons.2 ⟨hk, hnone⟩⟩
        | some k =>
          rw [hk] at hbest
          exact Or.inr ⟨[c], cs, k, rfl, List.cons_ne_nil c [], hk, hnone, hlength.symm ▸ hbest⟩
      · refine Or.inr ⟨c :: v, rest, k, rfl, List.cons_ne_nil c v, ?_⟩
        rw [List.append_assoc] at hk hnone hbest
        exact ⟨hk, hnone, hbest⟩

theorem readLongest_stop (cs u : List Char) (best : Option MatchLength) :
    ∃ v rest, cs = v ++ rest ∧ (v = [] ∨ Viable (u ++ v)) ∧
      (∀ c ∈ rest.head?, ¬ Viable (u ++ v ++ [c])) ∧
      (readLongest (live u) u.length best cs).2 = (u ++ v).length := by
  induction cs generalizing u best with
  | nil => exact ⟨[], [], rfl, Or.inl rfl, nofun, by rw [List.append_nil]; rfl⟩
  | cons c cs ih =>
    have hlive := live_concat u c
    have hlength : (u ++ [c]).length = u.length + 1 := List.length_append
    rw [readLongest]
    cases hread : readChar (live u) c with
    | nil =>
      have hdead : ¬ Viable (u ++ [c]) := live_eq_nil_iff.1 (hlive.trans hread)
      refine ⟨[], c :: cs, rfl, Or.inl rfl, fun d hd => ?_, by rw [List.append_nil]⟩
      cases hd
      rwa [List.append_nil]
    | cons e es =>
      have halive : Viable (u ++ [c]) := by
        by_contra hdead
        rw [← hlive, live_eq_nil_iff.2 hdead] at hread
        cases hread
      obtain ⟨v, rest, rfl, hv, hdead, hstop⟩ :=
        ih (u ++ [c]) (((classOf? (u ++ [c])).map fun k => (k, u.length + 1)).or best)
      simp only [← hread, ← hlive]
      rw [hlength] at hstop
      simp only [List.append_assoc, List.singleton_append] at hv hdead hstop
      refine ⟨c :: v, rest, rfl, Or.inr ?_, by simpa using hdead, hstop⟩
      rcases hv with rfl | hv
      · exact halive
      · exact hv

theorem longestMatch_firstPiece {cs : List Char} (hcs : cs ≠ []) :
    ∃ u rest, cs = u ++ rest ∧ (longestMatch cs).2 = u.length ∧
      FirstPiece (longestMatch cs).1 u rest := by
  obtain ⟨v, rest, hsplit, hv, hdead, hstop⟩ := readLongest_stop cs [] none
  rcases hread : readLongest (live []) ([] : List Char).length none cs with ⟨best, read⟩
  rw [hread] at hstop
  have hbest := readLongest_best cs [] none
  rw [hread] at hbest
  rcases hbest with ⟨rfl, hnone⟩ | ⟨u, rest', k, rfl, hne, hk, hlong, rfl⟩
  · have hmatch : longestMatch cs = (.invalid, max 1 read) := by
      unfold longestMatch
      exact hread ▸ rfl
    subst hsplit hstop
    cases v with
    | nil =>
      obtain ⟨c, rest, rfl⟩ := List.exists_cons_of_ne_nil hcs
      refine ⟨[c], rest, rfl, congrArg Prod.snd hmatch, ?_⟩
      rw [hmatch]
      refine .invalid (List.cons_ne_nil c []) hnone (Or.inl rfl) fun d _ hviable => ?_
      exact hdead c rfl hviable.of_append
    | cons c v =>
      have hlength : max 1 (c :: v).length = (c :: v).length := by simp
      refine ⟨c :: v, rest, rfl, (congrArg Prod.snd hmatch).trans hlength, ?_⟩
      rw [hmatch]
      exact .invalid (List.cons_ne_nil c v) hnone (Or.inr (hv.resolve_left (List.cons_ne_nil c v)))
        hdead
  · have hmatch : longestMatch (u ++ rest') = (k, u.length) := by
      unfold longestMatch
      exact hread ▸ rfl
    refine ⟨u, rest', rfl, congrArg Prod.snd hmatch, ?_⟩
    rw [hmatch]
    exact .found hne hk hlong

theorem FirstPiece.eq_nil {k k' : PieceClass} {u v rest : List Char}
    (h : FirstPiece k u (v ++ rest)) (h' : FirstPiece k' (u ++ v) rest) : v = [] := by
  by_contra hv
  have hprefix : v <+: v ++ rest := List.prefix_append v rest
  cases h' with
  | found _ hk' _ =>
    cases h with
    | found _ _ hlong =>
      rw [hlong v hv hprefix] at hk'
      cases hk'
    | invalid hne hnone _ _ =>
      rw [← List.append_assoc] at hnone
      cases hk'.symm.trans (hnone.classOf?_eq (List.append_ne_nil_of_left_ne_nil hne v))
  | invalid _ hnone hread _ =>
    cases h with
    | found hne hk _ =>
      rw [List.append_assoc] at hnone
      cases hk.symm.trans (hnone.classOf?_eq hne)
    | invalid hne _ _ hdead =>
      obtain ⟨c, v, rfl⟩ := List.exists_cons_of_ne_nil hv
      rcases hread with hlength | hviable
      · have hpos := List.length_pos_iff.2 hne
        simp only [List.length_append, List.length_cons] at hlength
        omega
      · refine hdead c rfl (Viable.of_append (v := v) ?_)
        rwa [List.append_assoc]

theorem FirstPiece.unique {k k' : PieceClass} {u u' rest rest' : List Char}
    (h : FirstPiece k u rest) (h' : FirstPiece k' u' rest') (heq : u ++ rest = u' ++ rest') :
    k = k' ∧ u = u' := by
  have hsame : u = u' := by
    rcases List.append_eq_append_iff.1 heq with ⟨v, rfl, rfl⟩ | ⟨v, rfl, rfl⟩
    · rw [h.eq_nil h', List.append_nil]
    · rw [h'.eq_nil h, List.append_nil]
  subst hsame
  obtain rfl := List.append_cancel_left heq
  refine ⟨?_, rfl⟩
  cases h with
  | found hne hk _ =>
    cases h' with
    | found _ hk' _ => exact Option.some.inj (hk.symm.trans hk')
    | invalid _ hnone _ _ => cases hk.symm.trans (hnone.classOf?_eq hne)
  | invalid hne hnone _ _ =>
    cases h' with
    | found _ hk' _ => cases hk'.symm.trans (hnone.classOf?_eq hne)
    | invalid => rfl

/-- **The longest match is the first piece**, and nothing else is. -/
theorem longestMatch_iff {k : PieceClass} {u rest : List Char} (hu : u ≠ []) :
    longestMatch (u ++ rest) = (k, u.length) ↔ FirstPiece k u rest := by
  have hne : u ++ rest ≠ [] := List.append_ne_nil_of_left_ne_nil hu rest
  obtain ⟨v, rest', heq, hlength, hfirst⟩ := longestMatch_firstPiece hne
  constructor
  · intro hmatch
    rw [hmatch] at hlength hfirst
    obtain ⟨rfl, rfl⟩ := List.append_inj heq hlength
    exact hfirst
  · intro h
    obtain ⟨hk, rfl⟩ := h.unique hfirst heq
    exact Prod.ext hk.symm hlength

end PackratCpp
