/-
  What a limit on depth leaves of a translation unit.

  A rule that nests too deep fails where it stands, and something else may be read in its place.
  So a declaration that is kept is one that the rules allow, but another one may be read at its
  place without the limit.

  * `Runs.turns_declarations`: the declarations among the items of a translation unit, and where
    each of them is what is read without a limit: at any place up to which no declaration nests
    too deep.
  * `Grammar.limited_declarations`: so it is for every parse of a translation unit with a limit.
  * `Grammar.limit_changes_declaration`: beyond such a place, a declaration may be kept in another
    form.
-/
import PackratCpp.Proofs.Lookup
import PackratCpp.Proofs.Recovery
import PackratCpp.Proofs.Transparency

namespace PackratCpp

/-! ## Items that nest no deeper than the limit -/

namespace Runs

variable {s : Setup} {room : Nat} {r : Rule} {p q : Nat} {trees : List Tree} {st st' : Findings}

/-- Nowhere from `p` up to `q` does a declaration nest deeper than `room`. -/
def Shallow (s : Setup) (room p q : Nat) : Prop :=
  ∀ i, p ≤ i → i ≤ q →
    Settles s.grammar s.tokens room .translationUnit (.expr (.rule .declaration)) i

theorem Shallow.mono {p' q' : Nat} (h : Shallow s room p q) (hp : p ≤ p') (hq : q' ≤ q) :
    Shallow s room p' q' :=
  fun i hi hi' => h i (Nat.le_trans hp hi) (Nat.le_trans hi' hq)

theorem Shallow.skippedToken (h : Shallow s room p q) (hpq : p ≤ q) (r : Rule) :
    Settles s.grammar s.tokens room r (.expr .skippedToken) p := by
  have hdecl := (h p (Nat.le_refl p) hpq).around r
  refine .seq (.items (.notFollowedBy (.choice (.alternatives hdecl fun _ _ => ?_))) ?_)
  · exact .alternatives .token fun _ _ => .alternativesDone
  · exact fun _ _ _ _ => .items .anyToken fun _ _ _ _ => .itemsDone

theorem turns_unrefused (h : Runs s room r (.turns .skippedToken) p st (.matched q trees) st')
    (hst : st.Remembers s.grammar s.tokens) (hdeep : Shallow s room p q) :
    st'.refusals = st.refusals := by
  have hpq := ((h.yields hst.sound).2 _ _ rfl).le
  generalize ht : Task.turns Expr.skippedToken = t at h
  generalize ho : Outcome.matched q trees = o at h
  induction h generalizing trees with
  | turnsStop h _ _ | turnsEmpty h _ =>
    cases ht
    exact h.unrefused hst (hdeep.skippedToken hpq _)
  | @turnsNext _ _ _ p st q' _ st₁ o _ h₁ _ h₂ _ ih =>
    cases ht
    have hrefusals := h₁.unrefused hst (hdeep.skippedToken hpq _)
    obtain ⟨hst₁, -⟩ := h₁.derives hst hrefusals
    have hle := ((h₁.yields hst.sound).2 _ _ rfl).le
    cases o <;> cases ho
    have hle' := ((h₂.yields hst₁.sound).2 _ _ rfl).le
    exact (ih hst₁ (hdeep.mono hle (Nat.le_refl _)) hle' rfl rfl).trans hrefusals
  | _ => cases ht

theorem recovered_unrefused
    (hskip : s.grammar.find? .recoveredDeclaration = some ⟨.plus .skippedToken, false⟩)
    (h : Runs s (room + 1) r (.expr (.rule .recoveredDeclaration)) p st (.matched q trees) st')
    (hst : st.Remembers s.grammar s.tokens) (hdeep : Shallow s room p q) :
    st'.refusals = st.refusals := by
  have hpq := ((h.yields hst.sound).2 _ _ rfl).le
  generalize ho : Outcome.matched q trees = o at h
  cases h with
  | hit => rfl
  | missing | ruleFail | ruleAbort => cases ho
  | ruleMatch _ hf hbody =>
    rw [hskip] at hf
    cases hf
    cases ho
    generalize hb : Outcome.matched q _ = o at hbody
    cases hbody with
    | plusStop _ hm => rw [← hb] at hm; cases hm
    | plusEmpty h => exact h.unrefused hst (hdeep.skippedToken hpq _)
    | @plusNext _ _ _ _ _ q' _ st₁ o _ h₁ _ h₂ =>
      have henter : st.enter.Remembers s.grammar s.tokens := hst
      have hrefusals := h₁.unrefused henter (hdeep.skippedToken hpq _)
      obtain ⟨hst₁, -⟩ := h₁.derives henter hrefusals
      have hle := ((h₁.yields henter.sound).2 _ _ rfl).le
      cases o <;> cases hb
      exact (h₂.turns_unrefused hst₁ (hdeep.mono hle (Nat.le_refl _))).trans hrefusals

theorem item_unrefused
    (hskip : s.grammar.find? .recoveredDeclaration = some ⟨.plus .skippedToken, false⟩)
    (h : Runs s (room + 1) r (.expr .recoveringItem) p st (.matched q trees) st')
    (hst : st.Remembers s.grammar s.tokens) (hdeep : Shallow s room p q) :
    st'.refusals = st.refusals := by
  have hpq := ((h.yields hst.sound).2 _ _ rfl).le
  have hdecl := ((hdeep p (Nat.le_refl p) hpq).around r).mono (Nat.le_succ room)
  cases h with
  | choice h =>
    cases h with
    | alternativesTake h _ => exact h.unrefused hst hdecl
    | alternativesNext h₁ h₂ =>
      have hrefusals := h₁.unrefused hst hdecl
      obtain ⟨hst₁, -⟩ := h₁.derives hst hrefusals
      cases h₂ with
      | alternativesTake h _ => exact (h.recovered_unrefused hskip hst₁ hdeep).trans hrefusals
      | alternativesNext _ h => cases h

theorem declaration_of_item
    (hskip : s.grammar.find? .recoveredDeclaration = some ⟨.plus .skippedToken, false⟩)
    (h : Runs s (room + 1) r (.expr .recoveringItem) p st (.matched q trees) st')
    (hst : st.Sound s.grammar s.tokens) {t : Tree} (ht : t ∈ trees)
    (hrule : t.rule? = some .declaration) :
    Runs s (room + 1) r (.expr (.rule .declaration)) p st (.matched q trees) st' := by
  cases h with
  | choice h =>
    cases h with
    | alternativesTake h _ => exact h
    | alternativesNext h₁ h₂ =>
      cases h₂ with
      | alternativesNext _ h => cases h
      | alternativesTake h _ =>
        have hy := (h.yields (h₁.yields hst).1).2 _ _ rfl
        cases hy with
        | rule hf _ =>
          rw [hskip] at hf
          cases hf
          rw [Production.eq_node_of_mem_tree? rfl ht] at hrule
          cases hrule

/-- **The declarations among the items of a translation unit.**  Each is one that the rules allow,
and if no declaration up to its place nests too deep, it is the one that is read there without a
limit.  The induction is on the run; what carries it is that nothing has been refused as long
as nothing nests too deep. -/
theorem turns_declarations
    (hskip : s.grammar.find? .recoveredDeclaration = some ⟨.plus .skippedToken, false⟩)
    (h : Runs s (room + 1) r (.turns .recoveringItem) p st (.matched q trees) st')
    (hst : st.Sound s.grammar s.tokens) {t : Tree} (ht : t ∈ trees)
    (hrule : t.rule? = some .declaration) :
    p ≤ t.start ∧
      Yields s.grammar s.tokens (.expr (.rule .declaration)) t.start t.stop [t] ∧
      (st.Remembers s.grammar s.tokens → Shallow s room p t.start →
        ∃ log, Derives s.grammar s.tokens .translationUnit (.expr (.rule .declaration)) t.start
          (.matched t.stop [t]) log) := by
  generalize hroom : room + 1 = n at h
  generalize htask : Task.turns Expr.recoveringItem = task at h
  generalize ho : Outcome.matched q trees = o at h
  induction h generalizing trees with
  | @turnsStop _ _ _ _ _ o _ _ hm _ =>
    cases o with
    | matched => cases hm
    | failed => cases ho; cases ht
    | aborted => cases ho
  | turnsEmpty => cases ho; cases ht
  | @turnsNext _ _ _ p st q' trees₁ st₁ o _ h₁ _ h₂ _ ih =>
    subst hroom
    cases htask
    have hst₁ := (h₁.yields hst).1
    have hy := (h₁.yields hst).2 _ _ rfl
    cases o <;> cases ho
    rcases List.mem_append.1 ht with ht | ht
    · have hdecl := h₁.declaration_of_item hskip hst ht hrule
      have hspan := (hdecl.yields hst).2 _ _ rfl
      obtain ⟨rfl, rfl, rfl⟩ := hspan.eq_singleton ht
      refine ⟨Nat.le_refl _, hspan, fun hremembers hdeep => ?_⟩
      have hsettles := hdeep t.start (Nat.le_refl _) (Nat.le_refl _)
      have hrefusals := hdecl.unrefused hremembers ((hsettles.mono (Nat.le_succ room)).around _)
      obtain ⟨-, v, log, hv, hd, -⟩ := hdecl.derives hremembers hrefusals
      cases v <;> cases hv
      exact ⟨log, hd.around _⟩
    · obtain ⟨hle, hspan, hderives⟩ := ih hst₁ ht rfl rfl rfl
      refine ⟨Nat.le_trans hy.le hle, hspan, fun hremembers hdeep => ?_⟩
      have hrefusals := h₁.item_unrefused hskip hremembers (hdeep.mono (Nat.le_refl _) hle)
      exact hderives (h₁.derives hremembers hrefusals).1 (hdeep.mono hy.le (Nat.le_refl _))
  | _ => cases htask

theorem items_of_unit (h : Runs s room r (.expr Production.recoveringUnit.body) p st
      (.matched q trees) st') {t : Tree} (ht : t ∈ trees) (hrule : t.rule? = some .declaration) :
    ∃ stop items st₁, Runs s room r (.turns .recoveringItem) p st (.matched stop items) st₁ ∧
      t ∈ items := by
  generalize ho : Outcome.matched q trees = o at h
  cases h with
  | seq h =>
    cases h with
    | itemsStop _ hm => rw [← ho] at hm; cases hm
    | itemsNext hitems hend =>
      cases hitems with
      | star hitems =>
        cases hend with
        | itemsStop hend hm =>
          cases hend with
          | tokenPass => cases hm
          | tokenFail | tokenBeyond => cases ho
        | itemsNext hend hnil =>
          cases hnil
          cases hend
          cases ho
          refine ⟨_, _, _, hitems, (List.mem_append.1 ht).resolve_right fun hleaf => ?_⟩
          rw [List.mem_singleton.1 hleaf] at hrule
          cases hrule

end Runs

namespace Grammar

variable {g : Grammar}

/-- **What a limit on depth leaves of a translation unit.**  In any grammar whose translation unit
and skipped input are those of recovery, each declaration that is kept by a parse with a limit is
one that the rules allow at its place.  If neither there nor before does a declaration nest too
deep, it is the one that is read there without a limit, with its span and everything in it. -/
theorem limited_declarations (hunit : g.find? .translationUnit = some .recoveringUnit)
    (hskip : g.find? .recoveredDeclaration = some ⟨.plus .skippedToken, false⟩)
    {tokens : TokenStream} {limit : Nat} (hlimit : 2 ≤ limit) {r : Parse}
    (hr : g.parse tokens .translationUnit (some limit) = .ok r) :
    ∃ stop children, r.tree = .node .translationUnit 0 stop children ∧
      ∀ t ∈ children, t.rule? = some .declaration →
        Yields g tokens (.expr (.rule .declaration)) t.start t.stop [t] ∧
        ((∀ i ≤ t.start, Settles g tokens (limit - 2) .translationUnit
            (.expr (.rule .declaration)) i) →
          ∃ log, Derives g tokens .translationUnit (.expr (.rule .declaration)) t.start
            (.matched t.stop [t]) log) := by
  obtain ⟨hf, stop, trees, ho, -, htree⟩ := outcome_of_parse hunit hr
  have hrun := evaluateRoot_runs hf
  obtain ⟨room, hroom, hlimit⟩ : ∃ room, Grammar.room tokens (some limit) = room + 1 ∧
      limit - 2 = room := ⟨limit - 2, by simp only [Grammar.room]; omega, rfl⟩
  rw [ho, hroom] at hrun
  rw [hlimit]
  refine ⟨stop, trees, htree, fun t ht hrule => ?_⟩
  obtain ⟨q, items, st', hitems, ht⟩ := hrun.items_of_unit ht hrule
  obtain ⟨-, hspan, hderives⟩ := hitems.turns_declarations hskip (Findings.sound_initial g tokens)
    ht hrule
  exact ⟨hspan, fun hdeep => hderives (Findings.remembers_initial g tokens) fun i _ => hdeep i⟩

/-- With a limit of 2500 no declaration nests too deep in so few tokens, and the function is read that is
read without a limit. -/
theorem limited_declarations_ambiguous :
    ∃ g, Grammar.standard? .standard [] = .ok g ∧
      g.find? .translationUnit = some .recoveringUnit ∧
      g.find? .recoveredDeclaration = some ⟨.plus .skippedToken, false⟩ ∧ 2 ≤ 2500 ∧
      (∀ i ≤ 0, Settles g ambiguousDeclaration 2498 .translationUnit
        (.expr (.rule .declaration)) i) ∧
      ∃ r, g.parse ambiguousDeclaration .translationUnit (some 2500) = .ok r ∧
        ∃ t ∈ r.tree.children, t.rule? = some .declaration ∧ t.start = 0 ∧ t.stop = 6 ∧
          ∃ log, Derives g ambiguousDeclaration .translationUnit (.expr (.rule .declaration)) 0
            (.matched 6 [t]) log := by
  have hg : (Dialect.standard.grammar []).Recovers :=
    Dialect.recovers rfl List.not_mem_nil List.not_mem_nil
  have hsettles : ∀ i ≤ 0, Settles (Dialect.standard.grammar []) ambiguousDeclaration 2498
      .translationUnit (.expr (.rule .declaration)) i := by
    intro i hi
    have hi : i ≤ ambiguousDeclaration.length := Nat.le_trans hi (Nat.zero_le _)
    obtain ⟨v, log, hd⟩ := hg.ranked.total .translationUnit .declaration hi
    obtain ⟨n, hs⟩ := hd.settles
    exact (hs.bounded hi).mono (by decide)
  have hforecast : (Dialect.standard.forecast ambiguousDeclaration .translationUnit).map
      (·.map fun t => t.children.map fun t => (t.rule?, t.start, t.stop)) =
        some (some [(some .declaration, 0, 6), (none, 6, 7)]) := by decide +kernel
  obtain ⟨r, hr, hspans⟩ := Dialect.parse_of_forecast_map hforecast
  obtain ⟨v, log, hd⟩ := hg.ranked.body_total hg.translationUnit (Nat.zero_le _)
  have hr : (Dialect.standard.grammar []).parse ambiguousDeclaration .translationUnit (some 2500) =
      .ok r := by
    rw [parse_eq_unlimited hg.translationUnit hd (by decide), hr]
  obtain ⟨t, ts, hts, ht, -⟩ := List.map_eq_cons_iff.1 hspans
  simp only [Prod.mk.injEq] at ht
  obtain ⟨hrule, hstart, hstop⟩ := ht
  obtain ⟨stop, children, htree, hchildren⟩ := limited_declarations hg.translationUnit
    hg.recoveredDeclaration (by decide) hr
  have hmem : t ∈ r.tree.children := hts ▸ List.mem_cons_self ..
  have hderives := (hchildren t (by rwa [htree] at hmem) hrule).2
  rw [hstart, hstop] at hderives
  exact ⟨_, Grammar.standard?_eq _ _, hg.translationUnit, hg.recoveredDeclaration, by decide, hsettles,
    r, hr, t, hmem, hrule, hstart, hstop, hderives hsettles⟩

/-- What a finished parse has at the top: its size, and the rule, start and size of each child. -/
def outline (result : Except ParseError Parse) : Option (Nat × List (Option Rule × Nat × Nat)) :=
  result.toOption.map fun r =>
    (r.tree.size, r.tree.children.map fun t => (t.rule?, t.start, t.size))

theorem parse_of_outline {result : Except ParseError Parse} {size : Nat}
    {children : List (Option Rule × Nat × Nat)} (h : outline result = some (size, children)) :
    ∃ r, result = .ok r ∧ r.tree.size = size ∧
      (r.tree.children.map fun t => (t.rule?, t.start, t.size)) = children := by
  obtain ⟨r, hr, hread⟩ := exists_of_toOption h
  exact ⟨r, hr, Prod.mk.inj hread⟩

theorem eq_tree_of_derives {tokens : TokenStream} {root r : Rule} {production : Production}
    {stop : Nat} {t : Tree} {log : List Attempt} (hroot : g.find? root = some production)
    (hrun : (g.evaluateRoot tokens root production none).2.Unrefused) {result : Parse}
    (hr : g.parse tokens root none = .ok result)
    (hd : Derives g tokens r (.expr (.rule root)) 0 (.matched stop [t]) log) :
    t = result.tree := by
  obtain ⟨tree, htree⟩ : ∃ tree, result.tree = tree := ⟨_, rfl⟩
  have hreads := (((parse_iff_reads hroot none).2 hrun).1 tree).1 ⟨result, hr, htree⟩
  rw [htree]
  cases hreads with
  | intro hf hbody _ =>
    have hv := (hd.unique (.ruleMatch hf hbody)).1
    injection hv with hstop htrees
    rw [Production.tree?] at htrees
    split_ifs at htrees
    · cases htrees
    · exact (List.cons.inj htrees).1

/-- **A limit may change the reading of a declaration.**  Parameters nest deeper than a declarator in
parentheses.  Where the limit is between the two, the variable is read instead of the function,
and the declaration is kept. -/
theorem limit_changes_declaration :
    ∃ g, Grammar.standard? .standard [] = .ok g ∧
      ∃ r, g.parse ambiguousDeclaration .translationUnit (some 14) = .ok r ∧
        ∃ t ∈ r.tree.children, t.rule? = some .declaration ∧
          ¬ ∃ log, Derives g ambiguousDeclaration .translationUnit (.expr (.rule .declaration))
            t.start (.matched t.stop [t]) log := by
  have hlimited : outline (Dialect.standard.lookup.parse ambiguousDeclaration .translationUnit
      (some 14)) = some (24, [(some .declaration, 0, 23), (none, 6, 0)]) := by decide +kernel
  have hunlimited : (Dialect.standard.forecast ambiguousDeclaration .declaration).map
      (·.map Tree.size) = some (some 24) := by decide +kernel
  rw [← Dialect.parse_lookup] at hlimited
  obtain ⟨production, hroot⟩ := Dialect.standard.exists_find? [] .declaration
  obtain ⟨r, hr, -, hchildren⟩ := parse_of_outline hlimited
  obtain ⟨r', hr', hsize⟩ := Dialect.parse_of_forecast_map hunlimited
  obtain ⟨t, ts, hts, ht, -⟩ := List.map_eq_cons_iff.1 hchildren
  simp only [Prod.mk.injEq] at ht
  obtain ⟨hrule, hstart, htsize⟩ := ht
  refine ⟨_, Grammar.standard?_eq _ _, r, hr, t, by rw [hts]; exact List.mem_cons_self .., hrule, ?_⟩
  rintro ⟨log, hd⟩
  rw [hstart] at hd
  have hrun := unlimited_unrefused_iff.2
    ((Dialect.standard.ranked []).body_total hroot (Nat.zero_le ambiguousDeclaration.length))
  rw [eq_tree_of_derives hroot hrun hr' hd] at htsize
  cases hsize.symm.trans htsize

end Grammar

end PackratCpp
