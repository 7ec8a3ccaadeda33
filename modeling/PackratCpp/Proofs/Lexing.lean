/-
  What the loop of the lexer does.

  * `partitionPoint_eq`: a bisection finds where the elements that pass end.
    `LineIndex.position_eq`: so the line and the column of an offset are those of
    `SourcePlace.advance`.
  * `Text.slice_eq`: the characters between two offsets.
  * `Lexing.flush_foldl`: the loop makes the tokens of the pieces that are left, where a range that
    fits nothing is a piece of its own.
  * `lex_eq`: the tokens of a source are those of its pieces.
-/
import PackratCpp.Proofs.Pieces

namespace PackratCpp

open Text

/-! ## Places -/

theorem partitionFrom_eq {α : Type} {xs : Array α} {pass : α → Bool} {ys zs : List α}
    (hsplit : xs.toList = ys ++ zs) (hys : ∀ y ∈ ys, pass y = true)
    (hzs : ∀ z ∈ zs, pass z = false) {lo hi : Nat} (hhi : hi ≤ xs.size) (hlo : lo ≤ ys.length)
    (hlast : ys.length ≤ hi) : partitionFrom xs pass lo hi hhi = ys.length := by
  have hget : ∀ {i} (hi : i < xs.size), (ys ++ zs)[i]? = some xs[i] :=
    fun hi => by simp [← hsplit, hi]
  fun_induction partitionFrom xs pass lo hi hhi with
  | case1 lo hi hhi hlt mid hmid hpass ih =>
    -- what passes is none of `zs`, so the range goes on behind it
    refine ih ?_ hlast
    by_contra hle
    have hmem := hget hmid
    rw [List.getElem?_append_right (by omega)] at hmem
    rw [hzs _ (List.mem_of_getElem? hmem)] at hpass
    cases hpass
  | case2 lo hi hhi hlt mid hmid hfail ih =>
    refine ih hlo ?_
    by_contra hle
    have hmem := hget hmid
    rw [List.getElem?_append_left (by omega)] at hmem
    exact hfail (hys _ (List.mem_of_getElem? hmem))
  | case3 lo hi hhi hlt => omega

theorem partitionPoint_eq {α : Type} {xs : Array α} {pass : α → Bool} {ys zs : List α}
    (hsplit : xs.toList = ys ++ zs) (hys : ∀ y ∈ ys, pass y = true)
    (hzs : ∀ z ∈ zs, pass z = false) : partitionPoint xs pass = ys.length := by
  have hsize : xs.size = ys.length + zs.length := by
    rw [← Array.length_toList, hsplit, List.length_append]
  exact partitionFrom_eq hsplit hys hzs _ (Nat.zero_le _) (by omega)

theorem lineStarts_append (offset : Nat) (cs ds : List Char) :
    lineStarts offset (cs ++ ds) =
      lineStarts offset cs ++ lineStarts (offset + byteLength cs) ds := by
  induction cs generalizing offset with
  | nil => rfl
  | cons c cs ih =>
    simp only [List.cons_append, lineStarts, ih, byteLength_cons, Nat.add_assoc]
    split_ifs <;> rfl

theorem lineStarts_bounds {offset : Nat} {cs : List Char} :
    ∀ start ∈ lineStarts offset cs, offset < start ∧ start ≤ offset + byteLength cs := by
  induction cs generalizing offset with
  | nil => exact nofun
  | cons c cs ih =>
    have hpos := c.utf8Size_pos
    intro start hstart
    simp only [lineStarts, byteLength_cons] at hstart ⊢
    split_ifs at hstart
    case pos =>
      rcases List.mem_cons.1 hstart with rfl | hstart
      · omega
      · have := ih start hstart
        omega
    case neg =>
      have := ih start hstart
      omega

theorem length_lineStarts (offset : Nat) (cs : List Char) :
    (lineStarts offset cs).length = cs.count '\n' := by
  induction cs generalizing offset with
  | nil => rfl
  | cons c cs ih =>
    simp only [lineStarts, List.count_cons, beq_iff_eq]
    split_ifs <;> simp [ih]

theorem getLast_lineStarts (cs : List Char) :
    (0 :: lineStarts 0 cs).getLast (List.cons_ne_nil _ _) + byteLength (lastLine cs) =
      byteLength cs := by
  induction cs using List.reverseRecOn with
  | nil => rfl
  | append_singleton cs c ih =>
    simp only [lineStarts_append, lastLine_concat, lineStarts, byteLength_append, byteLength_cons,
      byteLength_nil]
    split_ifs with hc
    · simp
    · simp only [List.append_nil, byteLength_append, byteLength_cons, byteLength_nil]
      omega

/-- **The line and the column of an offset** are counted as those of the place behind the characters
before it. -/
theorem LineIndex.position_eq (before behind : List Char) :
    (LineIndex.of (before ++ behind)).position (byteLength before) =
      (1 + before.count '\n', 1 + byteLength (lastLine before)) := by
  have hsplit : (LineIndex.of (before ++ behind)).starts.toList =
      (0 :: lineStarts 0 before) ++ lineStarts (byteLength before) behind := by
    simp [LineIndex.of, lineStarts_append]
  have hpoint : partitionPoint (LineIndex.of (before ++ behind)).starts
      (fun start => decide (start ≤ byteLength before)) = before.count '\n' + 1 := by
    rw [partitionPoint_eq hsplit, List.length_cons, length_lineStarts]
    · intro start hstart
      rcases List.mem_cons.1 hstart with rfl | hstart
      · exact decide_eq_true (Nat.zero_le _)
      · have := lineStarts_bounds start hstart
        exact decide_eq_true (by omega)
    · intro start hstart
      have := lineStarts_bounds start hstart
      exact decide_eq_false (by omega)
  have hlast : (LineIndex.of (before ++ behind)).starts.getD (before.count '\n') 0 =
      (0 :: lineStarts 0 before).getLast (List.cons_ne_nil _ _) := by
    rw [Array.getD_eq_getD_getElem?, ← Array.getElem?_toList, hsplit,
      List.getElem?_append_left (by simp [length_lineStarts]), List.getLast_eq_getElem,
      List.getElem?_eq_getElem (by simp [length_lineStarts])]
    simp [length_lineStarts]
  have hsum := getLast_lineStarts before
  rw [position, hpoint, Nat.add_sub_cancel, hlast]
  exact Prod.ext (Nat.add_comm _ _) (by simp only; omega)

/-! ## Slices -/

theorem Text.takeBytes_append (cs ds : List Char) : takeBytes (byteLength cs) (cs ++ ds) = cs := by
  induction cs with
  | nil =>
    cases ds with
    | nil => rfl
    | cons d ds => simp [takeBytes, Nat.not_le.2 d.utf8Size_pos]
  | cons c cs ih =>
    simp [takeBytes, ih]

theorem Text.dropBytes_append (cs ds : List Char) : dropBytes (byteLength cs) (cs ++ ds) = ds := by
  induction cs with
  | nil => cases ds <;> simp [dropBytes]
  | cons c cs ih =>
    have hpos := c.utf8Size_pos
    simp [dropBytes, ih, Nat.pos_iff_ne_zero.1 hpos]

theorem Text.slice_eq (before mid behind : List Char) :
    slice (before ++ (mid ++ behind)) (byteLength before) (byteLength (before ++ mid)) = mid := by
  rw [slice, dropBytes_append, byteLength_append, Nat.add_sub_cancel_left, takeBytes_append]

/-! ## The loop -/

namespace Piece

/-- The bytes of a piece. -/
def span (p : Piece) : Span :=
  ⟨p.place.offset, p.place.offset + byteLength p.text⟩

def stretch (p : Piece) : Stretch :=
  ⟨p.kind, p.span⟩

end Piece

theorem Cut.stretchesFrom_eq {place : SourcePlace} {cs : List Char} {ps : List Piece}
    (h : Cut place cs ps) {fuel : Nat} (hfuel : cs.length ≤ fuel) :
    stretchesFrom fuel place.offset cs = ps.map Piece.stretch := by
  induction h generalizing fuel with
  | done => cases fuel <;> rfl
  | @piece place k u rest ps hfirst _ ih =>
    have hpos := List.length_pos_iff.2 hfirst.ne_nil
    rw [List.length_append] at hfuel
    obtain ⟨fuel, rfl⟩ := Nat.exists_eq_succ_of_ne_zero (show fuel ≠ 0 by omega)
    have hmatch := (longestMatch_iff hfirst.ne_nil).2 hfirst
    have hrest := ih (show rest.length ≤ fuel by omega)
    rw [SourcePlace.offset_advance] at hrest
    obtain ⟨c, u, rfl⟩ := List.exists_cons_of_ne_nil hfirst.ne_nil
    rw [List.cons_append] at hmatch ⊢
    simp only [stretchesFrom, hmatch]
    rw [← List.cons_append, List.take_left, List.drop_left, hrest]
    rfl

section
variable {l : Language} {source : List Char} {p : Piece} {ps : List Piece}

/-- A piece stands in a source where it says. -/
def Piece.StandsIn (p : Piece) (source : List Char) : Prop :=
  ∃ before behind, source = before ++ (p.text ++ behind) ∧ p.place = SourcePlace.start.advance before

/-- The sink with some tokens in it. -/
def TokenSink.holding (l : Language) (source : List Char) (ts : List Token) : TokenSink :=
  { TokenSink.of l source with tokens := ts.toArray }

theorem TokenSink.push_span {kind : TokenKind} (hp : p.StandsIn source)
    (hkind : p.kind.tokenKind? = some kind) (ts : List Token) :
    (holding l source ts).push kind p.span = holding l source (ts ++ (p.token? l).toList) := by
  obtain ⟨before, behind, rfl, hplace⟩ := hp
  rw [SourcePlace.advance_start] at hplace
  have hslice := slice_eq before p.text behind
  have hposition := LineIndex.position_eq before (p.text ++ behind)
  rw [byteLength_append] at hslice
  simp only [push, holding, of, Piece.span, Piece.token?, hplace, hkind, hslice, hposition,
    Option.map_some, Option.toList_some]
  rw [List.push_toArray]

theorem joinInvalid_cons (p : Piece) (ps : List Piece) :
    joinInvalid (p :: ps) = joinPiece p (joinInvalid ps) :=
  rfl

theorem joinPiece_of_valid (h : p.kind ≠ .invalid) (ps : List Piece) : joinPiece p ps = p :: ps := by
  cases ps with
  | nil => rfl
  | cons q qs => simp [joinPiece, h]

theorem joinInvalid_cons_cons {q : Piece} (hp : p.kind = .invalid) (hq : q.kind = .invalid)
    (ps : List Piece) :
    joinInvalid (p :: q :: ps) = joinInvalid (⟨.invalid, p.text ++ q.text, p.place⟩ :: ps) := by
  rw [joinInvalid_cons, joinInvalid_cons, joinInvalid_cons]
  cases joinInvalid ps with
  | nil => simp [joinPiece, hp, hq]
  | cons r rs =>
    by_cases hr : r.kind = .invalid
    · simp [joinPiece, hp, hq, hr]
    · simp [joinPiece, hp, hq, hr]

/-- What the loop still has to make tokens of: the pieces that are left, and in front of them the bytes
that fit nothing, which only grow with what touches them. -/
def upcoming (pending? : Option Piece) (offset : Nat) (ps : List Piece) : List Piece :=
  match pending? with
  | none => joinInvalid ps
  | some e => if e.span.stop = offset then joinInvalid (e :: ps) else e :: joinInvalid ps

/-- Text that fits nothing, behind which there are only blanks. -/
def Piece.PendsBefore (e : Piece) (before : List Char) : Prop :=
  e.kind = .invalid ∧ ∃ start gap, before = start ++ e.text ++ gap ∧
    e.place = SourcePlace.start.advance start

namespace Piece.PendsBefore

variable {e : Piece} {before : List Char}

theorem standsIn (h : e.PendsBefore before) (cs : List Char) : e.StandsIn (before ++ cs) := by
  obtain ⟨-, start, gap, rfl, hplace⟩ := h
  exact ⟨start, gap ++ cs, by simp, hplace⟩

theorem append (h : e.PendsBefore before) (u : List Char) : e.PendsBefore (before ++ u) := by
  obtain ⟨hkind, start, gap, rfl, hplace⟩ := h
  exact ⟨hkind, start, gap ++ u, by simp, hplace⟩

theorem stop_le (h : e.PendsBefore before) : e.span.stop ≤ byteLength before := by
  obtain ⟨-, start, gap, rfl, hplace⟩ := h
  simp only [span, hplace, SourcePlace.advance_start, byteLength_append]
  omega

theorem exists_eq_append (h : e.PendsBefore before) (hstop : e.span.stop = byteLength before) :
    ∃ start, before = start ++ e.text ∧ e.place = SourcePlace.start.advance start := by
  obtain ⟨-, start, gap, rfl, hplace⟩ := h
  simp only [span, hplace, SourcePlace.advance_start, byteLength_append] at hstop
  have hgap : gap = [] := by
    by_contra hne
    have := byteLength_pos hne
    omega
  exact ⟨start, by rw [hgap, List.append_nil], hplace⟩

end Piece.PendsBefore

/-- The state of the loop with some tokens and some bytes that fit nothing. -/
def Lexing.holding (l : Language) (source : List Char) (ts : List Token) (pending? : Option Piece) :
    Lexing :=
  ⟨.holding l source ts, pending?.map Piece.span⟩

theorem Lexing.flush_holding {pending? : Option Piece} {before cs : List Char}
    (hsource : source = before ++ cs) (hpending : ∀ e ∈ pending?, e.PendsBefore before)
    (ts : List Token) : (holding l source ts pending?).flush =
      .holding l source (ts ++ pending?.toList.filterMap (Piece.token? l)) := by
  cases pending? with
  | none => rw [Option.toList_none, List.filterMap_nil, List.append_nil]; rfl
  | some e =>
    have hpends := hpending e rfl
    have hkind : e.kind.tokenKind? = some .unknown := by rw [hpends.1]; rfl
    refine (TokenSink.push_span (hsource ▸ hpends.standsIn cs) hkind ts).trans ?_
    cases htoken : e.token? l <;> simp [htoken]

theorem upcoming_of_valid {pending? : Option Piece} (h : p.kind ≠ .invalid) (offset : Nat) :
    upcoming pending? offset (p :: ps) = pending?.toList ++ p :: joinInvalid ps := by
  have hcons : joinInvalid (p :: ps) = p :: joinInvalid ps := joinPiece_of_valid h _
  cases pending? with
  | none => exact hcons
  | some e =>
    have hjoin : joinPiece e (p :: joinInvalid ps) = e :: p :: joinInvalid ps := by
      simp [joinPiece, h]
    simp only [upcoming, joinInvalid_cons e, hcons, hjoin, ite_self, Option.toList_some,
      List.singleton_append]

theorem upcoming_of_apart {pending? : Option Piece} {offset : Nat}
    (h : ∀ e ∈ pending?, e.span.stop ≠ offset) :
    upcoming pending? offset ps = pending?.toList ++ joinInvalid ps := by
  cases pending? with
  | none => rfl
  | some e => exact if_neg (h e rfl)

theorem upcoming_of_touching {e : Piece} {offset : Nat} (h : e.span.stop = offset) :
    upcoming (some e) offset ps = joinInvalid (e :: ps) :=
  if_pos h

theorem Lexing.step_of_valid {pending? : Option Piece} {before cs : List Char}
    (hsource : source = before ++ cs) (hpending : ∀ e ∈ pending?, e.PendsBefore before)
    (hp : p.StandsIn source) (hvalid : p.kind ≠ .invalid) (ts : List Token) :
    (holding l source ts pending?).step p.stretch =
      holding l source (ts ++ (pending?.toList ++ [p]).filterMap (Piece.token? l)) none := by
  have hflush := flush_holding (l := l) hsource hpending ts
  unfold step
  rw [if_neg (show ¬ p.stretch.kind = .invalid from hvalid), List.filterMap_append, ← List.append_assoc]
  cases hkind : p.kind.tokenKind? with
  | none =>
    have hnone : p.token? l = none := by rw [Piece.token?, hkind]; rfl
    simp only [Piece.stretch, hkind, hflush, List.filterMap_cons_none hnone, List.filterMap_nil,
      List.append_nil]
    rfl
  | some kind =>
    simp only [Piece.stretch, hkind, hflush, TokenSink.push_span hp hkind]
    cases htoken : p.token? l <;> simp [htoken] <;> rfl

theorem Lexing.step_first (h : p.kind = .invalid) (ts : List Token) :
    (holding l source ts none).step p.stretch = holding l source ts (some p) :=
  if_pos h

theorem Lexing.step_touching {e : Piece} (h : p.kind = .invalid) (htouch : e.span.stop = p.place.offset)
    (ts : List Token) : (holding l source ts (some e)).step p.stretch =
      holding l source ts (some ⟨.invalid, e.text ++ p.text, e.place⟩) := by
  have hstop : p.span.stop = e.place.offset + byteLength (e.text ++ p.text) := by
    rw [byteLength_append, ← Nat.add_assoc]
    exact congrArg (· + byteLength p.text) htouch.symm
  have htouch' : e.span.stop = p.stretch.span.start := htouch
  unfold step
  rw [if_pos (show p.stretch.kind = .invalid from h)]
  simp only [holding, Option.map_some, htouch', if_true]
  exact congrArg (Lexing.mk _ ∘ some ∘ Span.mk _) hstop

theorem Lexing.step_apart {e : Piece} {before cs : List Char} (hsource : source = before ++ cs)
    (he : e.PendsBefore before) (h : p.kind = .invalid) (hapart : e.span.stop ≠ p.place.offset)
    (ts : List Token) : (holding l source ts (some e)).step p.stretch =
      holding l source (ts ++ (e.token? l).toList) (some p) := by
  have hkind : e.kind.tokenKind? = some .unknown := by rw [he.1]; rfl
  have hpush := TokenSink.push_span (l := l) (hsource ▸ he.standsIn cs) hkind ts
  have hapart' : e.span.stop ≠ p.stretch.span.start := hapart
  unfold step
  rw [if_pos (show p.stretch.kind = .invalid from h)]
  simp only [holding, Option.map_some, hapart', if_false, hpush]
  rfl

/-- **The loop makes the tokens of what is upcoming.**  The induction is on the pieces: a blank is not
seen by the loop, an invalid one becomes a part of the range that fits nothing or begins another
one, and any other one ends that range. -/
theorem Lexing.flush_foldl {place : SourcePlace} {cs : List Char} (h : Cut place cs ps)
    {before : List Char} (hsource : source = before ++ cs)
    (hplace : place = SourcePlace.start.advance before) {pending? : Option Piece}
    (hpending : ∀ e ∈ pending?, e.PendsBefore before) (ts : List Token) :
    (((ps.map Piece.stretch).filter (·.kind ≠ .blank)).foldl step
        (holding l source ts pending?)).flush =
      .holding l source (ts ++ (upcoming pending? place.offset ps).filterMap (Piece.token? l)) := by
  induction h generalizing before pending? ts with
  | done =>
    rw [List.map_nil, List.filter_nil, List.foldl_nil, flush_holding hsource hpending]
    cases pending? <;> simp [upcoming, joinInvalid, joinPiece]
  | @piece place k u rest ps hfirst _ ih =>
    have hoffset : place.offset = byteLength before := by rw [hplace, SourcePlace.advance_start]
    have hsource' : source = (before ++ u) ++ rest := by rw [hsource, List.append_assoc]
    have hplace' : place.advance u = SourcePlace.start.advance (before ++ u) := by
      rw [SourcePlace.advance_append, hplace]
    have hoffset' : (place.advance u).offset = place.offset + byteLength u :=
      SourcePlace.offset_advance place u
    have hstands : Piece.StandsIn ⟨k, u, place⟩ source := ⟨before, rest, hsource, hplace⟩
    have hpos := byteLength_pos hfirst.ne_nil
    rw [List.map_cons]
    by_cases hblank : k = .blank
    · have happend : ∀ e ∈ pending?, e.PendsBefore (before ++ u) := fun e he => (hpending e he).append u
      have hapart : ∀ e ∈ pending?, e.span.stop ≠ (place.advance u).offset := by
        intro e he
        have := (hpending e he).stop_le
        omega
      subst hblank
      have hnone : Piece.token? l ⟨.blank, u, place⟩ = none := rfl
      rw [List.filter_cons_of_neg (by simp [Piece.stretch]), ih hsource' hplace' happend,
        upcoming_of_valid PieceClass.noConfusion, upcoming_of_apart hapart, List.filterMap_append,
        List.filterMap_append, List.filterMap_cons_none hnone]
    have hseen : decide ((Piece.stretch ⟨k, u, place⟩).kind ≠ .blank) = true := decide_eq_true hblank
    rw [List.filter_cons, if_pos hseen, List.foldl_cons]
    by_cases hinvalid : k = .invalid
    · subst hinvalid
      have hpends : Piece.PendsBefore ⟨.invalid, u, place⟩ (before ++ u) :=
        ⟨rfl, before, [], by simp, hplace⟩
      have hagain : ∀ ts : List Token, _ := fun ts =>
        ih hsource' hplace' (fun _ he => Option.some.inj he ▸ hpends) ts
      rw [upcoming_of_touching (e := ⟨.invalid, u, place⟩) hoffset'.symm] at hagain
      cases pending? with
      | none => rw [step_first rfl, hagain]; rfl
      | some e =>
        have he := hpending e rfl
        by_cases htouch : e.span.stop = place.offset
        · obtain ⟨start, hbefore, heplace⟩ := he.exists_eq_append (htouch.trans hoffset)
          have hpends : Piece.PendsBefore ⟨.invalid, e.text ++ u, e.place⟩ (before ++ u) :=
            ⟨rfl, start, [], by simp [hbefore], heplace⟩
          have hstop : (Piece.span ⟨.invalid, e.text ++ u, e.place⟩).stop = (place.advance u).offset := by
            rw [hoffset', ← htouch, Piece.span, byteLength_append, ← Nat.add_assoc]
            rfl
          rw [step_touching rfl htouch,
            ih hsource' hplace' (fun _ he => Option.some.inj he ▸ hpends) ts,
            upcoming_of_touching htouch, upcoming_of_touching hstop, joinInvalid_cons_cons he.1]
          rfl
        · rw [step_apart hsource he rfl htouch, hagain, upcoming, if_neg htouch, List.append_assoc]
          cases htoken : e.token? l <;> simp [htoken]
    · have hnothing : ∀ e ∈ Option.none, Piece.PendsBefore e (before ++ u) := fun e he =>
        absurd he (Option.not_mem_none e)
      rw [step_of_valid hsource hpending hstands hinvalid, ih hsource' hplace' hnothing,
        upcoming_of_valid hinvalid, List.append_assoc, ← List.filterMap_append, List.append_assoc]
      rfl

end

/-- **The tokens of a source are those of its pieces**, with the end of input behind them. -/
theorem lex_eq (l : Language) (source : String) : lex l source =
    .terminated ((pieces source.toList).filterMap (Piece.token? l)) (endOfSource source.toList) := by
  have hcut := piecesFrom_cut source.toList.length .start source.toList (Nat.le_refl _)
  have hstretches : stretchesFrom source.toList.length 0 source.toList =
      (piecesFrom source.toList.length .start source.toList).map Piece.stretch :=
    hcut.stretchesFrom_eq (Nat.le_refl _)
  have hrun : _ = TokenSink.holding l source.toList _ :=
    Lexing.flush_foldl hcut (List.nil_append _).symm rfl (fun e he => absurd he (Option.not_mem_none e)) []
  have hposition := LineIndex.position_eq source.toList []
  rw [List.append_nil] at hposition
  unfold lex stretches
  rw [hstretches]
  refine (congrArg TokenSink.finish hrun).trans ?_
  simp only [TokenSink.finish, TokenSink.holding, TokenSink.of, hposition, endOfSource,
    SourcePlace.advance_start]
  rfl

end PackratCpp
