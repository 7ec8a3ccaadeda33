/-
  Recovery is greedy segmentation.

  * `Grammar.Declares`: a declaration can be read at a place.
  * `Segments g tokens p ts`: from `p` up to the end of input the tokens fall into the pieces
    `ts`: a declaration wherever one can be read, and otherwise everything up to the next place
    where one can be read.
  * `Derives.tokenUnless_cases`, `Derives.turns_of_single`: any token behind a lookahead that forbids
    some, and a repetition that takes tokens one by one.
  * `Grammar.Recovers.parse_segments`: the children of a translation unit that is read with
    recovery are such pieces, up to the end of input.
  * `Segments.unique`, `Segments.shift`: there is one such division, and a suffix of the stream
    falls into the remaining pieces.
  * `Grammar.standard_parse_segments`: what follows for every dialect.
-/
import PackratCpp.Proofs.Recovery
import PackratCpp.Proofs.Shift

namespace PackratCpp

/-- A declaration can be read at a place. -/
def Grammar.Declares (g : Grammar) (tokens : TokenStream) (p : Nat) : Prop :=
  ∃ stop trees log,
    Derives g tokens .translationUnit (.expr (.rule .declaration)) p (.matched stop trees) log

/-- A place before the end of input where no declaration can be read. -/
def Grammar.Skips (g : Grammar) (tokens : TokenStream) (p : Nat) : Prop :=
  p < tokens.eofIndex ∧ ¬ g.Declares tokens p

namespace Tree

/-- The tokens from `p` up to `q`. -/
def leavesBetween (p q : Nat) : List Tree :=
  (List.range' p (q - p)).map .leaf

theorem leavesBetween_self (p : Nat) : leavesBetween p p = [] := by
  rw [leavesBetween, Nat.sub_self]
  rfl

theorem leavesBetween_succ {p q : Nat} (h : p < q) :
    leavesBetween p q = .leaf p :: leavesBetween (p + 1) q := by
  have hlen : q - p = (q - (p + 1)) + 1 := by omega
  rw [leavesBetween, hlen, List.range'_succ]
  rfl

theorem shift_leavesBetween (k p q : Nat) :
    (leavesBetween p q).map (shift k) = leavesBetween (p + k) (q + k) := by
  have hlen : q + k - (p + k) = q - p := by omega
  simp only [leavesBetween, List.map_map, hlen, List.range'_eq_map_range, Function.comp_def, shift,
    Nat.add_right_comm]

/-- The tokens from `p` up to `q`, as skipped input. -/
def skipped (p q : Nat) : Tree :=
  .node .recoveredDeclaration p q (leavesBetween p q)

theorem shift_skipped (k p q : Nat) : shift k (skipped p q) = skipped (p + k) (q + k) := by
  rw [skipped, shift_node, shift_leavesBetween, skipped]

end Tree

/-- How the tokens from a place on fall into declarations and skipped input. -/
inductive Segments (g : Grammar) (tokens : TokenStream) : Nat → List Tree → Prop
  | done : Segments g tokens tokens.eofIndex []
  /-- The declaration that can be read. -/
  | declaration {p q cs log ts} : p < q → q ≤ tokens.eofIndex →
      Derives g tokens .translationUnit (.expr (.rule .declaration)) p
        (.matched q [.node .declaration p q cs]) log →
      Segments g tokens q ts → Segments g tokens p (.node .declaration p q cs :: ts)
  /-- Everything up to the first place where a declaration can be read. -/
  | skipped {p q ts} : p < q → q ≤ tokens.eofIndex →
      (∀ i, p ≤ i → i < q → ¬ g.Declares tokens i) →
      (q = tokens.eofIndex ∨ g.Declares tokens q) →
      Segments g tokens q ts → Segments g tokens p (.skipped p q :: ts)

variable {g : Grammar} {tokens : TokenStream} {p q : Nat}

theorem Grammar.not_declares_of_failed {r : Rule} {log : List Attempt}
    (h : Derives g tokens r (.expr (.rule .declaration)) p .failed log) :
    ¬ g.Declares tokens p := by
  rintro ⟨stop, trees, log', h'⟩
  cases (h.unique (h'.around r)).1

theorem Grammar.declares_of_matched {r : Rule} {trees : List Tree} {log : List Attempt}
    (h : Derives g tokens r (.expr (.rule .declaration)) p (.matched q trees) log) :
    g.Declares tokens p :=
  ⟨q, trees, log, h.around _⟩

theorem Derives.tokenUnless_cases {e : Expr} {r : Rule} {v : Verdict} {log : List Attempt}
    {Taken : Prop} (h : Derives g tokens r (.expr (.seq [.notFollowedBy e, .anyToken])) p v log)
    (he : ∀ {v log}, Derives g tokens r (.expr e) p v log → (v = .failed ↔ Taken))
    (hlt : Taken → p < tokens.eofIndex) :
    (v = .matched (p + 1) [.leaf p] ∧ Taken) ∨ (v = .failed ∧ ¬ Taken) := by
  cases h with
  | seq h =>
    cases h with
    | itemsStop h =>
      cases h with
      | notAheadMatch h => exact Or.inr ⟨rfl, fun htaken => nomatch (he h).2 htaken⟩
    | itemsMatch h hrest =>
      cases h with
      | notAheadFail h =>
        cases hrest with
        | itemsMatch hany hnil =>
          cases hany
          cases hnil
          exact Or.inl ⟨rfl, (he h).1 rfl⟩
    | itemsFail h hrest =>
      cases h with
      | notAheadFail h =>
        obtain ⟨t, ht, heof⟩ := TokenStream.exists_token (hlt ((he h).1 rfl))
        cases hrest with
        | itemsStop hany =>
          cases hany with
          | anyFail hall => rw [hall t ht] at heof; cases heof
        | itemsFail _ hnil => cases hnil

/-- A repetition of something that takes single tokens, wherever `Takes` says so, takes all of them up
to the first place where it does not. -/
theorem Derives.turns_of_single {e : Expr} {r : Rule} {v : Verdict} {log : List Attempt}
    (h : Derives g tokens r (.turns e) p v log) (Takes : Nat → Prop)
    (he : ∀ {i v log}, i ≤ tokens.eofIndex → Derives g tokens r (.expr e) i v log →
      (v = .matched (i + 1) [.leaf i] ∧ Takes i) ∨ (v = .failed ∧ ¬ Takes i))
    (hlt : ∀ {i}, Takes i → i < tokens.eofIndex) (hp : p ≤ tokens.eofIndex) :
    ∃ q, v = .matched q (Tree.leavesBetween p q) ∧ p ≤ q ∧ q ≤ tokens.eofIndex ∧
      (∀ i, p ≤ i → i < q → Takes i) ∧ ¬ Takes q := by
  induction hn : tokens.eofIndex - p using Nat.strong_induction_on generalizing p v log with
  | _ n ih =>
    cases h with
    | turnsStop h =>
      rcases he hp h with ⟨hv, -⟩ | ⟨-, hend⟩
      · cases hv
      · refine ⟨p, by rw [Tree.leavesBetween_self], Nat.le_refl _, hp, fun i hi hlt => ?_, hend⟩
        omega
    | turnsEmpty h =>
      rcases he hp h with ⟨hv, -⟩ | ⟨hv, -⟩ <;> cases hv
    | turnsMatch h _ hrest =>
      rcases he hp h with ⟨hv, htakes⟩ | ⟨hv, -⟩
      · cases hv
        have hpe := hlt htakes
        obtain ⟨q, hq, hle, hqe, hall, hend⟩ :=
          ih (tokens.eofIndex - (p + 1)) (by omega) hrest (by omega) rfl
        cases hq
        refine ⟨_, ?_, by omega, hqe, fun i hi hiq => ?_, hend⟩
        · rw [Tree.leavesBetween_succ (Nat.lt_of_succ_le hle)]
          rfl
        · by_cases hip : i = p
          · exact hip ▸ htakes
          · exact hall i (by omega) hiq
      · cases hv

theorem Derives.turns_of_plus {e : Expr} {r : Rule} {trees : List Tree} {log : List Attempt}
    (h : Derives g tokens r (.expr (.plus e)) p (.matched q trees) log) :
    Derives g tokens r (.turns e) p (.matched q trees) log := by
  cases h with
  | plusEmpty h => exact .turnsEmpty h
  | plusMatch h hne hrest => exact .turnsMatch h hne hrest

theorem Derives.plus_of_single {e : Expr} {r : Rule} {v : Verdict} {log : List Attempt}
    (h : Derives g tokens r (.expr (.plus e)) p v log) (Takes : Nat → Prop)
    (he : ∀ {i v log}, i ≤ tokens.eofIndex → Derives g tokens r (.expr e) i v log →
      (v = .matched (i + 1) [.leaf i] ∧ Takes i) ∨ (v = .failed ∧ ¬ Takes i))
    (hlt : ∀ {i}, Takes i → i < tokens.eofIndex) (hp : p ≤ tokens.eofIndex) :
    (∃ q, v = .matched q (Tree.leavesBetween p q) ∧ p < q ∧ q ≤ tokens.eofIndex ∧
      (∀ i, p ≤ i → i < q → Takes i) ∧ ¬ Takes q) ∨ (v = .failed ∧ ¬ Takes p) := by
  cases v with
  | failed =>
    cases h with
    | plusFail h => exact (he hp h).imp_left fun hm => nomatch hm.1
  | matched stop trees =>
    have hfirst : Takes p := by
      cases h with
      | plusEmpty h | plusMatch h =>
        rcases he hp h with ⟨-, htakes⟩ | ⟨hv, -⟩
        · exact htakes
        · cases hv
    obtain ⟨q, hv, hpq, hq, hall, hend⟩ := h.turns_of_plus.turns_of_single Takes he hlt hp
    have hne : p ≠ q := fun heq => hend (heq ▸ hfirst)
    exact Or.inl ⟨q, hv, by omega, hq, hall, hend⟩

namespace Grammar.Recovers

/-! ## What a translation unit derives -/

variable {r : Rule} {trees : List Tree} {log : List Attempt} {v : Verdict}

theorem not_declares_eofIndex (hg : g.Recovers) : ¬ g.Declares tokens tokens.eofIndex := by
  rintro ⟨stop, trees, log, h⟩
  have hb := hg.declaration_bounds h.yields (Nat.le_refl _)
  omega

theorem declaration_derives (hg : g.Recovers)
    (h : Derives g tokens r (.expr (.rule .declaration)) p (.matched q trees) log)
    (hp : p ≤ tokens.eofIndex) : ∃ cs, trees = [.node .declaration p q cs] := by
  obtain ⟨body, hdecl⟩ := hg.declaration
  have hlt := (hg.declaration_bounds h.yields hp).1
  cases h with
  | @ruleMatch _ _ _ _ _ cs _ hf _ =>
    rw [hdecl] at hf
    cases hf
    refine ⟨cs, ?_⟩
    rw [Production.tree?, if_neg (by omega)]
    rfl

theorem ahead_derives
    (h : Derives g tokens r (.expr (.choice [.rule .declaration, .token (.kind .eof)])) p v log)
    (hp : p ≤ tokens.eofIndex) : v = .failed ↔ g.Skips tokens p := by
  cases h with
  | choice h =>
    cases h with
    | alternativesMatch h =>
      exact iff_of_false Verdict.noConfusion fun hskips => hskips.2 (declares_of_matched h)
    | alternativesNext hd h =>
      have hno := not_declares_of_failed hd
      cases h with
      | alternativesMatch h =>
        cases h with
        | tokenPass ht ha =>
          have heof := (TokenStream.isEof_iff ht).1 ha
          exact iff_of_false Verdict.noConfusion fun hskips => absurd heof (Nat.ne_of_lt hskips.1)
      | alternativesNext h hrest =>
        cases hrest
        have hne : p ≠ tokens.eofIndex := by
          rintro rfl
          obtain ⟨t, ht, heof⟩ := tokens.exists_eof
          cases h with
          | tokenFail hi ha =>
            rw [ht] at hi
            cases hi
            rw [Terminal.accepts_eof, heof] at ha
            cases ha
          | tokenBeyond hi => rw [ht] at hi; cases hi
        exact iff_of_true rfl ⟨by omega, hno⟩

theorem skippedToken_derives (h : Derives g tokens r (.expr .skippedToken) p v log)
    (hp : p ≤ tokens.eofIndex) :
    (v = .matched (p + 1) [.leaf p] ∧ g.Skips tokens p) ∨ (v = .failed ∧ ¬ g.Skips tokens p) :=
  h.tokenUnless_cases (fun h => ahead_derives h hp) fun hskips => hskips.1

theorem declares_of_not_skips (h : ¬ g.Skips tokens p) (hp : p ≤ tokens.eofIndex) :
    p = tokens.eofIndex ∨ g.Declares tokens p := by
  by_cases hdecl : g.Declares tokens p
  · exact Or.inr hdecl
  · exact Or.inl (Nat.le_antisymm hp (Nat.not_lt.1 fun hlt => h ⟨hlt, hdecl⟩))

theorem recovered_derives (hg : g.Recovers)
    (h : Derives g tokens r (.expr (.rule .recoveredDeclaration)) p v log)
    (hp : p ≤ tokens.eofIndex) :
    (∃ q, v = .matched q [.skipped p q] ∧ p < q ∧ q ≤ tokens.eofIndex ∧
      (∀ i, p ≤ i → i < q → ¬ g.Declares tokens i) ∧
      (q = tokens.eofIndex ∨ g.Declares tokens q)) ∨
    (v = .failed ∧ (p = tokens.eofIndex ∨ g.Declares tokens p)) := by
  have hbody : ∀ {r v log}, Derives g tokens r (.expr (.plus .skippedToken)) p v log →
      (∃ q, v = .matched q (Tree.leavesBetween p q) ∧ p < q ∧ q ≤ tokens.eofIndex ∧
        (∀ i, p ≤ i → i < q → g.Skips tokens i) ∧ ¬ g.Skips tokens q) ∨
      (v = .failed ∧ ¬ g.Skips tokens p) := fun h =>
    h.plus_of_single _ (fun hi h => skippedToken_derives h hi) (fun hskips => hskips.1) hp
  cases h with
  | ruleMissing hf => rw [hg.recoveredDeclaration] at hf; cases hf
  | ruleFail hf h =>
    rw [hg.recoveredDeclaration] at hf
    cases hf
    rcases hbody h with ⟨q, hv, -⟩ | ⟨-, hno⟩
    · cases hv
    · exact Or.inr ⟨rfl, declares_of_not_skips hno hp⟩
  | ruleMatch hf h =>
    rw [hg.recoveredDeclaration] at hf
    cases hf
    rcases hbody h with ⟨q, hv, hlt, hle, hall, hend⟩ | ⟨hv, -⟩
    · cases hv
      refine Or.inl ⟨_, ?_, hlt, hle, fun i hi hiq => (hall i hi hiq).2, declares_of_not_skips hend hle⟩
      rw [Production.tree?, if_neg (by omega)]
      rfl
    · cases hv

theorem item_derives (hg : g.Recovers) (h : Derives g tokens r (.expr .recoveringItem) p v log)
    (hp : p ≤ tokens.eofIndex) :
    (∃ q t, v = .matched q [t] ∧ p < q ∧ q ≤ tokens.eofIndex ∧
      ∀ ts, Segments g tokens q ts → Segments g tokens p (t :: ts)) ∨
    (v = .failed ∧ p = tokens.eofIndex) := by
  cases h with
  | choice h =>
    cases h with
    | alternativesMatch h =>
      obtain ⟨cs, rfl⟩ := hg.declaration_derives h hp
      obtain ⟨hlt, hle⟩ := hg.declaration_bounds h.yields hp
      exact Or.inl ⟨_, _, rfl, hlt, hle, fun ts hts => .declaration hlt hle (h.around _) hts⟩
    | alternativesNext hd h =>
      have hno := not_declares_of_failed hd
      cases h with
      | alternativesMatch h =>
        rcases hg.recovered_derives h hp with ⟨q, hv, hlt, hle, hnone, hend⟩ | ⟨hv, -⟩
        · cases hv
          exact Or.inl ⟨_, _, rfl, hlt, hle, fun _ hts => .skipped hlt hle hnone hend hts⟩
        · cases hv
      | alternativesNext h hrest =>
        cases hrest
        rcases hg.recovered_derives h hp with ⟨q, hv, -⟩ | ⟨-, hend⟩
        · cases hv
        · exact Or.inr ⟨rfl, hend.resolve_right hno⟩

/-- **The items of a translation unit are the pieces of the division.** -/
theorem turns_derives (hg : g.Recovers) (h : Derives g tokens r (.turns .recoveringItem) p v log)
    (hp : p ≤ tokens.eofIndex) :
    ∃ ts, v = .matched tokens.eofIndex ts ∧ Segments g tokens p ts := by
  induction hn : tokens.eofIndex - p using Nat.strong_induction_on generalizing p v log with
  | _ n ih =>
    cases h with
    | turnsStop h =>
      rcases hg.item_derives h hp with ⟨q, t, hv, -⟩ | ⟨-, hend⟩
      · cases hv
      · exact ⟨[], by rw [hend], hend ▸ .done⟩
    | turnsEmpty h =>
      rcases hg.item_derives h hp with ⟨q, t, hv, hlt, -⟩ | ⟨hv, -⟩
      · cases hv
        exact absurd hlt (Nat.lt_irrefl _)
      · cases hv
    | turnsMatch h _ hrest =>
      rcases hg.item_derives h hp with ⟨q, t, hv, hlt, hle, hseg⟩ | ⟨hv, -⟩
      · cases hv
        obtain ⟨ts, hts, hrest⟩ := ih (tokens.eofIndex - _) (by omega) hrest hle rfl
        cases hts
        exact ⟨_, rfl, hseg _ hrest⟩
      · cases hv

theorem eof_derives (h : Derives g tokens r (.items [.token (.kind .eof)]) tokens.eofIndex v log) :
    v = .matched tokens.length [.leaf tokens.eofIndex] := by
  obtain ⟨t, ht, heof⟩ := tokens.exists_eof
  have hread : Derives g tokens r (.items [.token (.kind .eof)]) tokens.eofIndex _ _ :=
    .itemsMatch (.tokenPass ht heof) .itemsDone
  rw [(h.unique hread).1, tokens.length_eq]
  rfl

theorem translationUnit_derives (hg : g.Recovers)
    (h : Derives g tokens r (.expr Production.recoveringUnit.body) 0 v log) :
    ∃ ts, v = .matched tokens.length (ts ++ [.leaf tokens.eofIndex]) ∧ Segments g tokens 0 ts := by
  cases h with
  | seq h =>
    cases h with
    | itemsStop h =>
      cases h with
      | star h => obtain ⟨ts, hts, -⟩ := hg.turns_derives h (Nat.zero_le _); cases hts
    | itemsMatch h hrest =>
      cases h with
      | star h =>
        obtain ⟨ts, hts, hseg⟩ := hg.turns_derives h (Nat.zero_le _)
        cases hts
        cases eof_derives hrest
        exact ⟨_, rfl, hseg⟩
    | itemsFail h hrest =>
      cases h with
      | star h =>
        obtain ⟨ts, hts, -⟩ := hg.turns_derives h (Nat.zero_le _)
        cases hts
        cases eof_derives hrest

/-- **The children of a translation unit that is read with recovery are the pieces of the
division**, and the end of input. -/
theorem parse_segments (hg : g.Recovers) (tokens : TokenStream) :
    ∃ r children, g.parse tokens .translationUnit none = .ok r ∧ r.tokens = tokens ∧
      r.tree = .node .translationUnit 0 tokens.length (children ++ [.leaf tokens.eofIndex]) ∧
      Segments g tokens 0 children := by
  obtain ⟨v, log, hd⟩ := hg.ranked.body_total hg.translationUnit (Nat.zero_le tokens.length)
  obtain ⟨children, rfl, hseg⟩ := hg.translationUnit_derives hd
  obtain ⟨r, hr, ht, htokens⟩ := parse_of_matched hg.translationUnit
    (unlimited_unrefused_iff.2 ⟨_, _, hd⟩) hd (Or.inr rfl)
  exact ⟨r, children, hr, htokens, ht, hseg⟩

/-! ## The division -/

theorem declares_drop (hg : g.Recovers) (hq : q ≤ tokens.eofIndex)
    (hp : p ≤ (tokens.drop q).length) :
    g.Declares (tokens.drop q) p ↔ g.Declares tokens (p + q) := by
  constructor
  · rintro ⟨stop, trees, log, h⟩
    exact ⟨_, _, _, h.shift hq⟩
  · intro h
    obtain ⟨v, log, hd⟩ := hg.ranked.total .translationUnit .declaration hp
    cases v with
    | matched stop trees => exact ⟨_, _, _, hd⟩
    | failed => exact absurd h (not_declares_of_failed (hd.shift hq))

end Grammar.Recovers

namespace Segments

variable {ts us : List Tree}

theorem le_eofIndex (h : Segments g tokens p ts) : p ≤ tokens.eofIndex := by
  cases h <;> omega

/-- **The tokens fall into pieces in one way.** -/
theorem unique (h : Segments g tokens p ts) (h' : Segments g tokens p us) : ts = us := by
  induction h generalizing us with
  | done =>
    cases h' with
    | done => rfl
    | declaration hlt hle _ _ | skipped hlt hle _ _ _ => omega
  | @declaration p q cs log ts hlt hle hd _ ih =>
    cases h' with
    | done => omega
    | declaration _ _ hd' h' =>
      cases (hd.unique hd').1
      rw [ih h']
    | skipped hlt' _ hnone _ _ =>
      exact absurd (Grammar.declares_of_matched hd) (hnone p (Nat.le_refl _) hlt')
  | @skipped p q ts hlt hle hnone hend _ ih =>
    cases h' with
    | done => omega
    | declaration _ _ hd _ =>
      exact absurd (Grammar.declares_of_matched hd) (hnone p (Nat.le_refl _) hlt)
    | @skipped _ q' _ hlt' hle' hnone' hend' h' =>
      -- Each of the two ends is a place that the other piece does not go beyond.
      have hqq : q = q' := by
        rcases Nat.lt_trichotomy q q' with hlt | heq | hgt
        · rcases hend with rfl | hend
          · omega
          · exact absurd hend (hnone' q (by omega) hlt)
        · exact heq
        · rcases hend' with rfl | hend'
          · omega
          · exact absurd hend' (hnone q' (by omega) hgt)
      subst hqq
      rw [ih h']

/-- **A suffix of the stream falls into pieces of the stream.** -/
theorem shift (hg : g.Recovers) {q : Nat} (hq : q ≤ tokens.eofIndex)
    (h : Segments g (tokens.drop q) p ts) : Segments g tokens (p + q) (ts.map (Tree.shift q)) := by
  have hend := TokenStream.eofIndex_drop hq
  have hlen := (tokens.drop q).length_eq
  induction h with
  | done =>
    rw [hend]
    exact .done
  | @declaration p q' cs log ts hlt hle hd _ ih =>
    rw [List.map_cons, Tree.shift_node]
    have hd' := hd.shift hq
    rw [Verdict.shift, List.map_cons, Tree.shift_node] at hd'
    exact .declaration (by omega) (by omega) hd' ih
  | @skipped p q' ts hlt hle hnone hstop _ ih =>
    rw [List.map_cons, Tree.shift_skipped]
    refine .skipped (by omega) (by omega) (fun i hi hiq => ?_) ?_ ih
    · have hback := hnone (i - q) (by omega) (by omega)
      rwa [hg.declares_drop hq (by omega), Nat.sub_add_cancel (by omega)] at hback
    · rcases hstop with rfl | hstop
      · exact Or.inl hend
      · exact Or.inr ((hg.declares_drop hq (by omega)).1 hstop)

theorem drop (h : Segments g tokens p ts) {k : Nat} {t : Tree} (ht : ts[k]? = some t) :
    Segments g tokens t.start (ts.drop k) := by
  induction h generalizing k with
  | done => simp at ht
  | declaration hlt hle hd h ih =>
    cases k with
    | zero =>
      cases ht
      exact .declaration hlt hle hd h
    | succ k => exact ih ht
  | skipped hlt hle hnone hend h ih =>
    cases k with
    | zero =>
      cases ht
      exact .skipped hlt hle hnone hend h
    | succ k => exact ih ht

end Segments

end PackratCpp
