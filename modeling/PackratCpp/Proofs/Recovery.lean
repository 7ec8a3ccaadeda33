/-
  Reading with recovery loses nothing.

  * `Grammar.Recovers`: what makes recovery work.  A translation unit is made of declarations
    and of skipped input, a declaration is never empty and stops before the end of input, and
    skipped input goes up to the next place where a declaration can be read.
  * `Grammar.Recovers.turns_runs`: the items of a translation unit end at the end of input and
    nowhere else.  Where a declaration has failed, the failure is remembered, and so the first
    skipped token is found readable by nothing, however deep rules may nest there.
  * `Grammar.Recovers.parse_eq`: reading succeeds, and the leaves are the tokens.
  * `Grammar.standard_parse_covers`: so it does in every dialect, whatever is mocked below the top
    level.
-/
import PackratCpp.Cli.Report
import PackratCpp.Proofs.Agreement
import PackratCpp.Proofs.Standard

namespace PackratCpp

/-! ## Grammars that recover -/

/-- One more token of skipped input: any token at which no declaration can be read. -/
def Expr.skippedToken : Expr :=
  .seq [.notFollowedBy (.choice [.rule .declaration, .token (.kind .eof)]), .anyToken]

/-- An item of a translation unit that is read with recovery. -/
def Expr.recoveringItem : Expr :=
  .choice [.rule .declaration, .rule .recoveredDeclaration]

/-- A translation unit that is read with recovery. -/
def Production.recoveringUnit : Production :=
  ⟨.seq [.star .recoveringItem, .token (.kind .eof)], false⟩

/-- What makes recovery work. -/
structure Grammar.Recovers (g : Grammar) : Prop where
  translationUnit : g.find? .translationUnit = some .recoveringUnit
  recoveredDeclaration : g.find? .recoveredDeclaration = some ⟨.plus .skippedToken, false⟩
  declaration : ∃ body, g.find? .declaration = some ⟨body, false⟩
  ranked : g.Ranked Rule.mayBeEmpty Rule.startRank
  closed : g.Closed Rule.isNested
  sparesEof : g.SparesEof Rule.isNested

theorem Dialect.recovers {d : Dialect} {mocks : List Rule} (hd : d.errorRecovery = true)
    (htop : .translationUnit ∉ mocks) (hskip : .recoveredDeclaration ∉ mocks) :
    (d.grammar mocks).Recovers where
  translationUnit := by
    rw [find?_translationUnit htop, hd]
    rfl
  recoveredDeclaration := find?_recoveredDeclaration hskip
  declaration := d.exists_declaration mocks
  ranked := d.ranked mocks
  closed := d.closed mocks
  sparesEof := d.sparesEof mocks

namespace Grammar.Recovers

variable {g : Grammar} {tokens : TokenStream} {p stop : Nat} {trees : List Tree}

theorem declaration_bounds (hg : g.Recovers)
    (h : Yields g tokens (.expr (.rule .declaration)) p stop trees) (hp : p ≤ tokens.eofIndex) :
    p < stop ∧ stop ≤ tokens.eofIndex :=
  ⟨(h.lt_or_mayBeEmpty hg.ranked.empty_of).resolve_right (by decide),
    h.le_eofIndex hg.closed hg.sparesEof rfl rfl hp⟩

theorem recovered_bounds (hg : g.Recovers)
    (h : Yields g tokens (.expr (.rule .recoveredDeclaration)) p stop trees)
    (hp : p ≤ tokens.eofIndex) : p < stop ∧ stop ≤ tokens.eofIndex := by
  refine ⟨(h.lt_or_mayBeEmpty hg.ranked.empty_of).resolve_right (by decide), ?_⟩
  cases h with
  | rule hf h =>
    rw [hg.recoveredDeclaration] at hf
    cases hf
    exact h.le_eofIndex hg.closed hg.sparesEof rfl rfl hp

theorem item_bounds (hg : g.Recovers)
    (h : Yields g tokens (.expr .recoveringItem) p stop trees) (hp : p ≤ tokens.eofIndex) :
    p < stop ∧ stop ≤ tokens.eofIndex := by
  cases h with
  | choice h =>
    cases h with
    | alternatives hm h =>
      simp only [List.mem_cons, List.not_mem_nil, or_false] at hm
      rcases hm with rfl | rfl
      · exact hg.declaration_bounds h hp
      · exact hg.recovered_bounds h hp

/-! ### Items of a translation unit, as they are run -/

section
variable {s : Setup} {room : Nat} {r : Rule} {st st' : Findings} {o : Outcome}

theorem ahead_eq_failed
    (h : Runs s room r (.expr (.choice [.rule .declaration, .token (.kind .eof)])) p st o st')
    (hp : p < s.tokens.eofIndex) (hfail : st.answer? .declaration p = some .failed) :
    o = .failed := by
  obtain ⟨t, ht, heof⟩ := TokenStream.exists_token hp
  cases h with
  | choice h =>
    cases h with
    | alternativesTake h ho => exact absurd (h.eq_of_answer? hfail) ho
    | alternativesNext _ h =>
      cases h with
      | alternativesTake h ho =>
        cases h with
        | tokenPass hi ha =>
          rw [ht] at hi
          cases hi
          rw [Terminal.accepts_eof, heof] at ha
          cases ha
        | tokenFail | tokenBeyond => rfl
      | alternativesNext _ h => cases h; rfl

theorem skippedToken_eq (h : Runs s room r (.expr .skippedToken) p st o st')
    (hp : p < s.tokens.eofIndex) (hfail : st.answer? .declaration p = some .failed) :
    o = .matched (p + 1) [.leaf p] := by
  obtain ⟨t, ht, heof⟩ := TokenStream.exists_token hp
  cases h with
  | seq h =>
    cases h with
    | itemsStop h hm =>
      cases h with
      | notFollowedBy h =>
        rw [ahead_eq_failed h hp hfail] at hm
        cases hm
    | itemsNext h hrest =>
      generalize hq : Outcome.matched _ _ = o₁ at h
      cases h with
      | notFollowedBy h =>
        rw [ahead_eq_failed h hp hfail] at hq
        cases hq
        cases hrest with
        | itemsStop h hm =>
          cases h with
          | anyPass => cases hm
          | anyFail hany => rw [hany t ht] at heof; cases heof
        | itemsNext h hrest =>
          cases h
          cases hrest
          rfl

theorem recovered_ne_failed (hg : s.grammar.Recovers)
    (h : Runs s (room + 1) r (.expr (.rule .recoveredDeclaration)) p st o st')
    (hp : p < s.tokens.eofIndex) (hfail : st.answer? .declaration p = some .failed)
    (hnone : st.answer? .recoveredDeclaration p = none) : o ≠ .failed := by
  cases h with
  | hit ha => rw [hnone] at ha; cases ha
  | missing _ hf => rw [hg.recoveredDeclaration] at hf; cases hf
  | ruleMatch | ruleAbort => exact Outcome.noConfusion
  | ruleFail _ hf h =>
    rw [hg.recoveredDeclaration] at hf
    cases hf
    generalize ho : Outcome.failed = o at h
    cases h with
    | plusStop h hm => rw [skippedToken_eq h hp hfail] at hm; cases hm
    | plusEmpty => cases ho
    | @plusNext _ _ _ _ _ _ _ _ o _ _ _ h =>
      cases o with
      | failed => exact absurd rfl h.turns_ne_failed
      | matched | aborted => cases ho

theorem item_ne_failed (hg : s.grammar.Recovers)
    (h : Runs s (room + 1) r (.expr .recoveringItem) p st o st')
    (hp : p < s.tokens.eofIndex) (hnone : st.answer? .recoveredDeclaration p = none) :
    o ≠ .failed := by
  obtain ⟨body, hdecl⟩ := hg.declaration
  cases h with
  | choice h =>
    cases h with
    | alternativesTake _ ho => exact ho
    | alternativesNext h₁ h₂ =>
      have hfail := h₁.answer?_of_failed hdecl
      have hnone' := (h₁.answer?_outside hg.closed rfl rfl p).trans hnone
      cases h₂ with
      | alternativesTake _ ho => exact ho
      | alternativesNext h₂ _ => exact absurd rfl (recovered_ne_failed hg h₂ hp hfail hnone')

theorem answer?_item (hg : s.grammar.Recovers)
    (h : Runs s room r (.expr .recoveringItem) p st o st') {i : Nat} (hi : i ≠ p) :
    st'.answer? .recoveredDeclaration i = st.answer? .recoveredDeclaration i := by
  have hbody : ∀ production, s.grammar.find? .recoveredDeclaration = some production →
      production.body.within Rule.isNested = true := by
    intro production hf
    rw [hg.recoveredDeclaration] at hf
    cases hf
    rfl
  cases h with
  | choice h =>
    cases h with
    | alternativesTake h => exact h.answer?_outside hg.closed rfl rfl i
    | alternativesNext h₁ h₂ =>
      rw [← h₁.answer?_outside hg.closed rfl rfl i]
      cases h₂ with
      | alternativesTake h => exact h.answer?_elsewhere hg.closed rfl hbody hi
      | alternativesNext h hrest =>
        cases hrest
        exact h.answer?_elsewhere hg.closed rfl hbody hi

/-- **The items of a translation unit end at the end of input**, unless the parse is given up.
The induction is on what is left of the stream; what carries it is that nothing is known yet
about skipped input from `p` on. -/
theorem turns_runs (hg : s.grammar.Recovers)
    (h : Runs s (room + 1) r (.turns .recoveringItem) p st o st')
    (hst : st.Sound s.grammar s.tokens)
    (hnone : ∀ i, p ≤ i → st.answer? .recoveredDeclaration i = none)
    (hp : p ≤ s.tokens.eofIndex) :
    o = .aborted ∨ ∃ trees, o = .matched s.tokens.eofIndex trees := by
  induction hn : s.tokens.eofIndex - p using Nat.strong_induction_on generalizing p st o with
  | _ n ih =>
    cases h with
    | @turnsStop _ _ _ _ _ o _ h hm =>
      cases o with
      | matched => cases hm
      | aborted => exact Or.inl rfl
      | failed =>
        by_cases hend : p = s.tokens.eofIndex
        · exact Or.inr ⟨[], by rw [hend]; rfl⟩
        · exact absurd rfl (item_ne_failed hg h (by omega) (hnone p (Nat.le_refl _)))
    | turnsEmpty h =>
      have hlt := (hg.item_bounds ((h.yields hst).2 _ _ rfl) hp).1
      exact absurd hlt (Nat.lt_irrefl _)
    | @turnsNext _ _ _ _ _ q trees st₁ o _ h hq hrest =>
      obtain ⟨hst₁, hy⟩ := h.yields hst
      obtain ⟨hlt, hle⟩ := hg.item_bounds (hy _ _ rfl) hp
      have hnone₁ : ∀ i, q ≤ i → st₁.answer? .recoveredDeclaration i = none := fun i hi =>
        (answer?_item hg h (by omega)).trans (hnone i (by omega))
      rcases ih (s.tokens.eofIndex - q) (by omega) hrest hst₁ hnone₁ hle rfl with rfl | ⟨ts, rfl⟩
      · exact Or.inl rfl
      · exact Or.inr ⟨trees ++ ts, rfl⟩

theorem translationUnit_runs (hg : s.grammar.Recovers)
    (h : Runs s (room + 1) r (.expr Production.recoveringUnit.body) 0 st o st')
    (hst : st.Sound s.grammar s.tokens)
    (hnone : ∀ i, st.answer? .recoveredDeclaration i = none) :
    o = .aborted ∨ ∃ trees, o = .matched s.tokens.length (trees ++ [.leaf s.tokens.eofIndex]) := by
  obtain ⟨t, ht, heof⟩ := s.tokens.exists_eof
  have hlen := s.tokens.length_eq
  cases h with
  | seq h =>
    cases h with
    | itemsStop h hm =>
      cases h with
      | star h =>
        rcases turns_runs hg h hst (fun i _ => hnone i) (Nat.zero_le _) with rfl | ⟨ts, rfl⟩
        · exact Or.inl rfl
        · cases hm
    | itemsNext h hrest =>
      cases h with
      | star h =>
        rcases turns_runs hg h hst (fun i _ => hnone i) (Nat.zero_le _) with ho | ⟨ts, ho⟩
        · cases ho
        · cases ho
          cases hrest with
          | itemsStop h hm =>
            cases h with
            | tokenPass => cases hm
            | tokenFail hi ha =>
              rw [ht] at hi
              cases hi
              rw [Terminal.accepts_eof, heof] at ha
              cases ha
            | tokenBeyond hi => rw [ht] at hi; cases hi
          | itemsNext h hrest =>
            cases h
            cases hrest
            exact Or.inr ⟨_, by rw [hlen]; rfl⟩

end

/-! ### Parses of translation units -/

theorem evaluateRoot_not_fatal (hg : g.Recovers) (hskip : g.dialect.errorRecovery = true)
    {production : Production} (hf : g.find? .translationUnit = some production)
    (tokens : TokenStream) (maxDepth? : Option Nat) :
    (g.evaluateRoot tokens .translationUnit production maxDepth?).2.fatal = false := by
  cases maxDepth? with
  | some limit =>
    have h := g.evaluateRoot_follows tokens .translationUnit production (some limit)
    generalize g.evaluateRoot tokens .translationUnit production (some limit) = result at h ⊢
    cases h with
    | matched hfatal | failed hfatal => exact hfatal
    | aborted _ hr => exact absurd rfl (hr.ne_aborted (by simp [setup, skipsTooDeep, hskip]))
  | none =>
    exact (unlimited_unrefused_iff.2 (hg.ranked.body_total hf (Nat.zero_le tokens.length))).1

/-- **Reading with recovery succeeds and loses no token**, at any limit on depth that admits a
rule inside the translation unit. -/
theorem parse_eq (hg : g.Recovers) (hskip : g.dialect.errorRecovery = true)
    (tokens : TokenStream) {maxDepth? : Option Nat}
    (hdepth : ∀ limit, maxDepth? = some limit → 2 ≤ limit) :
    ∃ r children, g.parse tokens .translationUnit maxDepth? = .ok r ∧
      r.tree = .node .translationUnit 0 tokens.length (children ++ [.leaf tokens.eofIndex]) ∧
      r.tree.leaves = List.range tokens.length := by
  obtain ⟨room, hroom⟩ : ∃ room, Grammar.room tokens maxDepth? = room + 1 := by
    cases maxDepth? with
    | some limit => exact ⟨limit - 2, by have := hdepth limit rfl; simp only [Grammar.room]; omega⟩
    | none => exact ⟨_, (Nat.succ_pred_eq_of_pos (Nat.mul_pos (by decide) (Nat.succ_pos _))).symm⟩
  have hfatal := hg.evaluateRoot_not_fatal hskip hg.translationUnit tokens maxDepth?
  have hrun := evaluateRoot_runs hfatal
  obtain ⟨o, ho⟩ : ∃ o, rootOutcome (g.evaluateRoot tokens .translationUnit .recoveringUnit
    maxDepth?) = o := ⟨_, rfl⟩
  rw [ho, hroom] at hrun
  have hsound : Findings.initial.enter.Sound g tokens := Findings.sound_initial g tokens
  have hne : o ≠ .aborted := ho ▸ rootOutcome_ne_aborted _
  obtain ⟨children, rfl⟩ := (hg.translationUnit_runs hrun hsound fun _ => by simp).resolve_left hne
  have htiling := ((hrun.yields hsound).2 _ _ rfl).tiling
  have hleaves := htiling.leavesAll_eq.1
  obtain ⟨r, hr, ht, -⟩ := parse_of_outcome hg.translationUnit hfatal ho (Or.inr rfl)
  exact ⟨r, children, hr, ht, by rw [ht, List.range_eq_range']; exact hleaves⟩

end Grammar.Recovers

/-- **With recovery on, the top level never fails and loses no token.**  In every dialect, and
whatever is mocked below the top level, any stream is read as a translation unit: its last
child is the end of input, which is found nowhere else, and its leaves are all the tokens in
order.  So no report on a source is a failure. -/
theorem Grammar.standard_parse_covers (language : Language) (ext : Extensions) {mocks : List Rule}
    (htop : .translationUnit ∉ mocks) (hskip : .recoveredDeclaration ∉ mocks) :
    ∃ g, Grammar.standard? ⟨true, language, ext⟩ mocks = .ok g ∧
      (∀ (tokens : TokenStream) (maxDepth? : Option Nat),
        (∀ limit, maxDepth? = some limit → 2 ≤ limit) →
        ∃ r children, g.parse tokens .translationUnit maxDepth? = .ok r ∧
          r.tree = .node .translationUnit 0 tokens.length (children ++ [.leaf tokens.eofIndex]) ∧
          r.tree.leaves = List.range tokens.length ∧
          r.tree.leaves.filter (fun i => (tokens.get? i).any Token.isEof) = [tokens.eofIndex]) ∧
      ∀ name source, ∃ r, (Cli.FileReport.ofSource g name source).outcome = .parsed r := by
  have hg := Dialect.recovers (d := ⟨true, language, ext⟩) rfl htop hskip
  refine ⟨_, Grammar.standard?_eq _ _, fun tokens maxDepth? hdepth => ?_, fun name source => ?_⟩
  · obtain ⟨r, children, hr, ht, hleaves⟩ := hg.parse_eq rfl tokens hdepth
    exact ⟨r, children, hr, ht, hleaves, by rw [hleaves, tokens.filter_isEof_range]⟩
  · obtain ⟨r, -, hr, -⟩ := hg.parse_eq rfl (lex language source)
      (fun limit (h : some Cli.nestingLimit = some limit) => by cases h; decide)
    refine ⟨r, ?_⟩
    unfold Cli.FileReport.ofSource
    simp only [Dialect.grammar] at hr ⊢
    rw [hr]

/-- `int x; } int y;`. -/
def strayBrace : TokenStream :=
  .terminated [⟨.keyword, "int", 1, 1, 0⟩, ⟨.identifier, "x", 1, 5, 4⟩, ⟨.punctuator, ";", 1, 6, 5⟩,
    ⟨.punctuator, "\x7d", 1, 8, 7⟩, ⟨.keyword, "int", 1, 10, 9⟩, ⟨.identifier, "y", 1, 14, 13⟩,
    ⟨.punctuator, ";", 1, 15, 14⟩] ⟨.eof, "", 1, 16, 15⟩

/-- With expressions mocked, it is read without a limit, and with no room but for one rule inside the
translation unit as well. -/
theorem Grammar.parse_strayBrace_covers :
    Rule.translationUnit ∉ [Rule.expression] ∧ Rule.recoveredDeclaration ∉ [Rule.expression] ∧
    ∃ g, Grammar.standard? ⟨true, .cxx, .full⟩ [.expression] = .ok g ∧
      (∃ r, g.parse strayBrace .translationUnit none = .ok r ∧ r.tree.leaves = List.range 8) ∧
      ∃ r, g.parse strayBrace .translationUnit (some 2) = .ok r ∧ r.tree.leaves = List.range 8 := by
  have htop : Rule.translationUnit ∉ [Rule.expression] := by decide
  have hskip : Rule.recoveredDeclaration ∉ [Rule.expression] := by decide
  obtain ⟨g, hg, hparse, -⟩ := standard_parse_covers .cxx .full htop hskip
  obtain ⟨r, -, hr, -, hleaves, -⟩ := hparse strayBrace none nofun
  obtain ⟨r', -, hr', -, hleaves', -⟩ := hparse strayBrace (some 2) fun limit h => by cases h; rfl
  exact ⟨htop, hskip, g, hg, ⟨r, hr, hleaves⟩, r', hr', hleaves'⟩

end PackratCpp
