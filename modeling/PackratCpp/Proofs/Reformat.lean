/-
  Reformatting does not change the reading.

  * `lexemes`: the classes and texts of the pieces that are tokens.
  * `cut_spaced`: tokens with single spaces between them are cut into the same tokens again.
  * `SameOutcome`: parses that differ at most in where their tokens stand; so do the parses of
    streams with the same kinds and spellings (`Grammar.parse_alike`).
  * `lex_reformat`: a source without unknown text is read as its tokens with single spaces between
    them are.
-/
import PackratCpp.Proofs.Dependence
import PackratCpp.Proofs.Partition
import PackratCpp.Proofs.Spacing
import PackratCpp.Tree.Span

namespace PackratCpp

/-! ## Lexemes -/

/-- The class and the text of a piece that is a token. -/
abbrev Lexeme := PieceClass × List Char

/-- The tokens among some pieces, wherever they stand. -/
def lexemes (ps : List Piece) : List Lexeme :=
  (ps.filter fun p => !p.kind.separates).map fun p => (p.kind, p.text)

/-- The kind and the spelling of the token of a piece. -/
def Lexeme.reading (l : Language) (w : Lexeme) : TokenKind × String :=
  (l.classify (String.ofList w.2) (w.1.tokenKind?.getD .unknown), String.ofList w.2)

theorem lexemes_cons_of_separates {p : Piece} (h : p.kind.separates = true) (ps : List Piece) :
    lexemes (p :: ps) = lexemes ps := by
  simp [lexemes, h]

theorem lexemes_cons {p : Piece} (h : p.kind.separates = false) (ps : List Piece) :
    lexemes (p :: ps) = (p.kind, p.text) :: lexemes ps := by
  simp [lexemes, h]

theorem map_reading_tokens (l : Language) (ps : List Piece) :
    (ps.filterMap (Piece.token? l)).map Token.reading = (lexemes ps).map (Lexeme.reading l) := by
  induction ps with
  | nil => rfl
  | cons p ps ih =>
    cases hk : p.kind.separates with
    | true => rw [List.filterMap_cons_none (Piece.token?_of_separates hk),
        lexemes_cons_of_separates hk, ih]
    | false =>
      have htoken : (p.token? l).map Token.reading = some (Lexeme.reading l (p.kind, p.text)) := by
        obtain ⟨kind, text, place⟩ := p
        cases kind <;> first | rfl | cases hk
      obtain ⟨t, ht, hread⟩ := Option.map_eq_some_iff.1 htoken
      rw [List.filterMap_cons_some ht, lexemes_cons hk, List.map_cons, List.map_cons, ih, hread]

/-! ## Texts without invalid pieces -/

theorem joinInvalid_of_valid {ps : List Piece} (h : ∀ p ∈ ps, p.kind ≠ .invalid) :
    joinInvalid ps = ps := by
  induction ps with
  | nil => rfl
  | cons p ps ih =>
    obtain ⟨hp, hps⟩ := List.forall_mem_cons.1 h
    show joinPiece p (joinInvalid ps) = _
    rw [ih hps, joinPiece_of_valid hp]

theorem Cut.pieces_eq {cs : List Char} {ps : List Piece} (h : Cut .start cs ps)
    (hvalid : ∀ p ∈ ps, p.kind ≠ .invalid) : pieces cs = ps := by
  rw [pieces, h.piecesFrom_eq (Nat.le_refl _), joinInvalid_of_valid hvalid]

theorem exists_invalid_joinPiece {p : Piece} {ps : List Piece}
    (h : ∃ q ∈ p :: ps, q.kind = .invalid) : ∃ q ∈ joinPiece p ps, q.kind = .invalid := by
  cases ps with
  | nil => exact h
  | cons q qs =>
    rw [joinPiece]
    split_ifs
    · exact ⟨_, List.mem_cons_self .., rfl⟩
    · exact h

theorem exists_invalid_joinInvalid {ps : List Piece} (h : ∃ p ∈ ps, p.kind = .invalid) :
    ∃ p ∈ joinInvalid ps, p.kind = .invalid := by
  induction ps with
  | nil => exact h
  | cons p ps ih =>
    refine exists_invalid_joinPiece ?_
    obtain ⟨q, hq, hinvalid⟩ := h
    rcases List.mem_cons.1 hq with rfl | hq
    · exact ⟨q, List.mem_cons_self .., hinvalid⟩
    · obtain ⟨r, hr, hinvalid⟩ := ih ⟨q, hq, hinvalid⟩
      exact ⟨r, List.mem_cons_of_mem p hr, hinvalid⟩

theorem exists_cut_of_known {l : Language} {source : String}
    (h : ∀ t ∈ (lex l source).tokens.toList, t.kind ≠ .unknown) :
    Cut .start source.toList (pieces source.toList) ∧
      ∀ p ∈ pieces source.toList, p.kind ≠ .invalid := by
  have hvalid : ∀ p ∈ pieces source.toList, p.kind ≠ .invalid := by
    intro p hp hinvalid
    obtain ⟨t, htoken, -, -, -, hkind⟩ := Piece.exists_token? (l := l) (p := p)
      (by rw [hinvalid]; rfl)
    refine h t ?_ (hkind.2 hinvalid)
    rw [tokens_lex]
    exact List.mem_append_left _ (List.mem_filterMap.2 ⟨p, hp, htoken⟩)
  have hfrom : ∀ p ∈ piecesFrom source.toList.length .start source.toList, p.kind ≠ .invalid := by
    intro p hp hinvalid
    obtain ⟨q, hq, hinvalid⟩ := exists_invalid_joinInvalid ⟨p, hp, hinvalid⟩
    exact hvalid q hq hinvalid
  refine ⟨?_, hvalid⟩
  rw [pieces, joinInvalid_of_valid hfrom]
  exact piecesFrom_cut _ .start _ (Nat.le_refl _)

/-! ## Spacing -/

/-- A lexeme is the first piece of some text. -/
def Lexeme.Standalone (w : Lexeme) : Prop :=
  w.1.separates = false ∧ w.1 ≠ .invalid ∧ ∃ rest, FirstPiece w.1 w.2 rest

theorem Cut.standalone {place : SourcePlace} {cs : List Char} {ps : List Piece}
    (h : Cut place cs ps) (hvalid : ∀ p ∈ ps, p.kind ≠ .invalid) :
    ∀ w ∈ lexemes ps, w.Standalone := by
  induction h with
  | done => exact nofun
  | @piece place k u rest ps hfirst _ ih =>
    obtain ⟨hp, hps⟩ := List.forall_mem_cons.1 hvalid
    cases hk : k.separates with
    | true =>
      rw [lexemes_cons_of_separates hk]
      exact ih hps
    | false =>
      rw [lexemes_cons hk]
      exact List.forall_mem_cons.2 ⟨⟨hk, hp, rest, hfirst⟩, ih hps⟩

/-- Lexemes with single spaces between them. -/
def spaced (ws : List Lexeme) : List Char :=
  [' '].intercalate (ws.map (·.2))

theorem spaced_cons_cons (w v : Lexeme) (ws : List Lexeme) :
    spaced (w :: v :: ws) = w.2 ++ ([' '] ++ spaced (v :: ws)) := by
  simp [spaced, List.intercalate_cons_cons]

theorem exists_spaced_cons (w : Lexeme) (ws : List Lexeme) :
    ∃ cs, spaced (w :: ws) = w.2 ++ cs := by
  cases ws with
  | nil => exact ⟨[], by simp [spaced]⟩
  | cons v ws => exact ⟨_, spaced_cons_cons w v ws⟩

/-- **Lexemes with single spaces between them** are cut into the same lexemes again. -/
theorem cut_spaced {ws : List Lexeme} (h : ∀ w ∈ ws, w.Standalone) (place : SourcePlace) :
    ∃ qs, Cut place (spaced ws) qs ∧ lexemes qs = ws ∧ ∀ q ∈ qs, q.kind ≠ .invalid := by
  induction ws generalizing place with
  | nil => exact ⟨[], .done, rfl, nofun⟩
  | cons w ws ih =>
    obtain ⟨⟨hk, hvalid, rest, hfirst⟩, hws⟩ := List.forall_mem_cons.1 h
    cases ws with
    | nil =>
      have htext : spaced [w] = w.2 ++ [] := by simp [spaced]
      rw [htext]
      refine ⟨[⟨w.1, w.2, place⟩], .piece (hfirst.before_space hk hvalid nofun) .done, ?_, ?_⟩
      · exact lexemes_cons hk []
      · exact List.forall_mem_singleton.2 hvalid
    | cons v ws =>
      obtain ⟨qs, hcut, hlexemes, hqs⟩ := ih hws ((place.advance w.2).advance [' '])
      obtain ⟨hkv, hvalidv, _, hfirstv⟩ := hws v (List.mem_cons_self ..)
      have hspace : FirstPiece .blank [' '] (spaced (v :: ws)) := by
        obtain ⟨cs, hcs⟩ := exists_spaced_cons v ws
        rw [hcs]
        exact hfirstv.space hkv hvalidv cs
      have hword : FirstPiece w.1 w.2 ([' '] ++ spaced (v :: ws)) :=
        hfirst.before_space hk hvalid fun c hc => (Option.some.inj hc).symm
      rw [spaced_cons_cons]
      refine ⟨⟨w.1, w.2, place⟩ :: ⟨.blank, [' '], place.advance w.2⟩ :: qs,
        .piece hword (.piece hspace hcut), ?_, ?_⟩
      · rw [lexemes_cons hk, lexemes_cons_of_separates rfl, hlexemes]
      · exact List.forall_mem_cons.2 ⟨hvalid, List.forall_mem_cons.2 ⟨PieceClass.noConfusion, hqs⟩⟩

theorem toList_textBetween_lex (l : Language) (source : String) :
    ((lex l source).textBetween 0 (lex l source).length).toList =
      spaced (lexemes (pieces source.toList)) := by
  have hbetween : (lex l source).between 0 (lex l source).length =
      (lex l source).tokens.toList := by
    rw [TokenStream.between, TokenStream.length, Array.extract_size]
  have htexts : ((pieces source.toList).filterMap (Piece.token? l)).map (·.text.toList) =
      (lexemes (pieces source.toList)).map (·.2) := by
    have h := congrArg (List.map fun r => r.2.toList) (map_reading_tokens l (pieces source.toList))
    simpa [Token.reading, Lexeme.reading, Function.comp_def] using h
  have heof : [endOfSource source.toList].filter (fun t => !t.isEof) = [] := rfl
  rw [TokenStream.textBetween, hbetween, tokens_lex, List.filter_append, filter_tokens, heof,
    List.append_nil, String.toList_intercalate, List.map_map, spaced, ← htexts]
  rfl

theorem alike_of_lexemes_eq (l : Language) {source source' : String}
    (h : lexemes (pieces source.toList) = lexemes (pieces source'.toList)) :
    (lex l source).Alike (lex l source') := by
  have heof : (endOfSource source.toList).reading = (endOfSource source'.toList).reading := rfl
  rw [TokenStream.Alike, tokens_lex, tokens_lex, List.map_append, List.map_append,
    map_reading_tokens, map_reading_tokens, h, List.map_singleton, List.map_singleton, heof]

theorem lex_textBetween {l : Language} {source : String}
    (h : ∀ t ∈ (lex l source).tokens.toList, t.kind ≠ .unknown) :
    (lex l source).Alike (lex l ((lex l source).textBetween 0 (lex l source).length)) := by
  obtain ⟨hcut, hvalid⟩ := exists_cut_of_known h
  obtain ⟨qs, hqs, hlexemes, hvalid'⟩ := cut_spaced (hcut.standalone hvalid) .start
  rw [← toList_textBetween_lex l source] at hqs
  refine alike_of_lexemes_eq l ?_
  rw [hqs.pieces_eq hvalid', hlexemes]

/-! ## Parsing -/

/-- Two parses come to the same, but for where the tokens stand. -/
inductive SameOutcome : Except ParseError Parse → Except ParseError Parse → Prop
  /-- The same tree, and the same counts. -/
  | parsed {r r'} : r' = { r with tokens := r'.tokens } → SameOutcome (.ok r) (.ok r')
  | undefinedRoot {r} : SameOutcome (.error (.undefinedRoot r)) (.error (.undefinedRoot r))
  | recursionLimit : SameOutcome (.error .recursionLimit) (.error .recursionLimit)
  | leftRecursion : SameOutcome (.error .leftRecursion) (.error .leftRecursion)
  /-- A token with the same spelling at the same index, instead of the same expectations. -/
  | recognition {d d'} : d.position = d'.position → d.expected = d'.expected →
      d.found = d'.found → d.rule? = d'.rule? →
      SameOutcome (.error (.recognition d)) (.error (.recognition d'))

section
variable {tokens tokens' : TokenStream}

theorem TokenStream.Alike.reading_getClamped (h : tokens.Alike tokens') (i : Nat) :
    (tokens.getClamped i).reading = (tokens'.getClamped i).reading := by
  have hget : ∀ s : TokenStream, s.get? (min i s.eofIndex) = some (s.getClamped i) := fun s =>
    Array.getElem?_eq_getElem _
  have hmap := h.map_get? (min i tokens.eofIndex)
  rw [hget tokens, h.eofIndex_eq, hget tokens'] at hmap
  exact Option.some.inj hmap

theorem SameOutcome.diagnose (h : tokens.Alike tokens') (f : Furthest) :
    SameOutcome (.error (.recognition (Grammar.diagnose tokens f)))
      (.error (.recognition (Grammar.diagnose tokens' f))) := by
  refine .recognition ?_ rfl (congrArg Prod.snd (h.reading_getClamped f.position)) rfl
  show min f.position tokens.eofIndex = min f.position tokens'.eofIndex
  rw [h.eofIndex_eq]

theorem Grammar.evaluateRoot_of_alike (g : Grammar) (h : tokens.Alike tokens') {root : Rule}
    {production : Production} (hroot : g.find? root = some production) (maxDepth? : Option Nat) :
    g.evaluateRoot tokens root production maxDepth? =
      g.evaluateRoot tokens' root production maxDepth? :=
  evaluateRoot_congr h g.closed_true (fun _ _ => rfl) rfl rfl hroot maxDepth?

/-- **A parse sees nothing of a stream but kinds and spellings.** -/
theorem Grammar.parse_alike (g : Grammar) (h : tokens.Alike tokens') (root : Rule)
    (maxDepth? : Option Nat) :
    SameOutcome (g.parse tokens root maxDepth?) (g.parse tokens' root maxDepth?) := by
  unfold parse
  cases hroot : g.find? root with
  | none => exact .undefinedRoot
  | some production =>
    have heval := g.evaluateRoot_of_alike h hroot maxDepth?
    rcases hresult : g.evaluateRoot tokens root production maxDepth? with ⟨stop?, st⟩
    simp only [← heval, hresult, ← h.eofIndex_eq, ← h.length_eq]
    by_cases hfatal : st.leave.fatal = true
    · simp only [hfatal, if_true]
      split_ifs
      · exact .recursionLimit
      · exact .leftRecursion
    · simp only [hfatal, if_false, Bool.false_eq_true]
      cases stop? with
      | none =>
        simp only
        split_ifs
        · exact .recursionLimit
        · exact .diagnose h _
      | some stop =>
        simp only
        split_ifs
        · exact .parsed rfl
        · exact .recursionLimit
        · exact .diagnose h _

end

/-- **Reformatting does not change the reading.**  If no token of a source is unknown, its tokens
with single spaces between them are read as the same kinds and spellings in the same order, and
every parse of the one comes to the same as that of the other. -/
theorem lex_reformat (l : Language) (source : String)
    (h : ∀ t ∈ (lex l source).tokens.toList, t.kind ≠ .unknown) :
    (lex l source).Alike (lex l ((lex l source).textBetween 0 (lex l source).length)) ∧
    ∀ (g : Grammar) (root : Rule) (maxDepth? : Option Nat),
      SameOutcome (g.parse (lex l source) root maxDepth?)
        (g.parse (lex l ((lex l source).textBetween 0 (lex l source).length)) root maxDepth?) :=
  ⟨lex_textBetween h, fun g root maxDepth? => g.parse_alike (lex_textBetween h) root maxDepth?⟩

/-- Comments go, and a literal keeps its own spaces. -/
theorem lex_reformat_literal :
    (∀ t ∈ (lex .cxx "x=u8\"a b\"+1e-3;//").tokens.toList, t.kind ≠ .unknown) ∧
    (lex .cxx "x=u8\"a b\"+1e-3;//").Alike (lex .cxx "x = u8\"a b\" + 1e-3 ;") ∧
    ∀ g : Grammar, SameOutcome (g.parse (lex .cxx "x=u8\"a b\"+1e-3;//") .translationUnit none)
      (g.parse (lex .cxx "x = u8\"a b\" + 1e-3 ;") .translationUnit none) := by
  have htext : (lex .cxx "x=u8\"a b\"+1e-3;//").textBetween 0
      (lex .cxx "x=u8\"a b\"+1e-3;//").length = "x = u8\"a b\" + 1e-3 ;" := by decide +kernel
  have hknown : ∀ t ∈ (lex .cxx "x=u8\"a b\"+1e-3;//").tokens.toList, t.kind ≠ .unknown := by
    decide +kernel
  obtain ⟨halike, hsame⟩ := lex_reformat .cxx "x=u8\"a b\"+1e-3;//" hknown
  rw [htext] at halike hsame
  exact ⟨hknown, halike, fun g => hsame g .translationUnit none⟩

end PackratCpp
