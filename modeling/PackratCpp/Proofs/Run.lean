/-
  What a parse does, task by task.

  * `Runs s room r t p st o st'`: as a part of the body of the rule `r`, with room for `room`
    rules inside it, the task `t` at place `p` takes the findings `st` to `st'` and comes out as
    `o`.  Whatever holds of every run is proved by induction on it.
  * `Judgment.Closed`: what is said of matches holds of every way of putting them together.
    `Runs.judged`: then it holds of every match of a run.
  * `Runs.yields`: a run matches what can be spanned.
  * `Derives.judged`: what is said of matches holds of those in a derivation, too.
  * `Derives.seq_cons`, `Derives.exists_alternative`: what a match of a sequence or a choice is made of.
  * `Runs.ne_aborted`, `Runs.eq_of_answer?`, `Runs.turns_ne_failed`, `Runs.answer?_of_failed`:
    what comes out of a run.
-/
import PackratCpp.Proofs.Findings

namespace PackratCpp

/-- What a task does in a parse. -/
inductive Runs (s : Setup) :
    Nat → Rule → Task → Nat → Findings → Outcome → Findings → Prop
  -- Single tokens.
  | tokenPass {room r test p st t} : s.tokens.get? p = some t → test.accepts t = true →
      Runs s room r (.expr (.token test)) p st (.matched (p + 1) [.leaf p]) st
  | tokenFail {room r test p st t} : s.tokens.get? p = some t → test.accepts t = false →
      Runs s room r (.expr (.token test)) p st .failed (st.expect p (some r) (.token test))
  | tokenBeyond {room r test p st} : s.tokens.get? p = none →
      Runs s room r (.expr (.token test)) p st .failed st
  | anyPass {room r p st t} : s.tokens.get? p = some t → t.isEof = false →
      Runs s room r (.expr .anyToken) p st (.matched (p + 1) [.leaf p]) st
  | anyFail {room r p st} : (∀ t, s.tokens.get? p = some t → t.isEof = true) →
      Runs s room r (.expr .anyToken) p st .failed (st.expect p (some r) .anyToken)
  -- Rules: remembered, refused, without a body, or looked at.
  | hit {room r q p st answer} : st.answer? q p = some answer →
      Runs s room r (.expr (.rule q)) p st answer.outcome st.hit
  | refused {r q p st} : st.answer? q p = none →
      Runs s 0 r (.expr (.rule q)) p st (if s.skipping then .failed else .aborted) st.refuse
  | missing {room r q p st} : st.answer? q p = none → s.grammar.find? q = none →
      Runs s (room + 1) r (.expr (.rule q)) p st .failed st
  | ruleMatch {room r q production p st stop trees st'} : st.answer? q p = none →
      s.grammar.find? q = some production →
      Runs s room q (.expr production.body) p (st.enter)
        (.matched stop trees) st' →
      Runs s (room + 1) r (.expr (.rule q)) p st
        (.matched stop (production.tree? q p stop trees).toList)
        (st'.remember q p (.matched stop (production.tree? q p stop trees)))
  | ruleFail {room r q production p st st'} : st.answer? q p = none →
      s.grammar.find? q = some production →
      Runs s room q (.expr production.body) p (st.enter) .failed st' →
      Runs s (room + 1) r (.expr (.rule q)) p st .failed (st'.remember q p .failed)
  | ruleAbort {room r q production p st st'} : st.answer? q p = none →
      s.grammar.find? q = some production →
      Runs s room q (.expr production.body) p (st.enter) .aborted st' →
      Runs s (room + 1) r (.expr (.rule q)) p st .aborted st'
  -- Sequences and choices.
  | seq {room r es p st o st'} : Runs s room r (.items es) p st o st' →
      Runs s room r (.expr (.seq es)) p st o st'
  | itemsDone {room r p st} : Runs s room r (.items []) p st (.matched p []) st
  | itemsStop {room r e es p st o st'} : Runs s room r (.expr e) p st o st' →
      o.isMatched = false → Runs s room r (.items (e :: es)) p st o st'
  | itemsNext {room r e es p st q trees st' o st''} :
      Runs s room r (.expr e) p st (.matched q trees) st' →
      Runs s room r (.items es) q st' o st'' →
      Runs s room r (.items (e :: es)) p st (o.after trees) st''
  | choice {room r es p st o st'} : Runs s room r (.alternatives es) p st o st' →
      Runs s room r (.expr (.choice es)) p st o st'
  | alternativesDone {room r p st} : Runs s room r (.alternatives []) p st .failed st
  | alternativesTake {room r e es p st o st'} : Runs s room r (.expr e) p st o st' →
      o ≠ .failed → Runs s room r (.alternatives (e :: es)) p st o st'
  | alternativesNext {room r e es p st st' o st''} :
      Runs s room r (.expr e) p st .failed st' →
      Runs s room r (.alternatives es) p st' o st'' →
      Runs s room r (.alternatives (e :: es)) p st o st''
  -- Options and repetitions.
  | option {room r e p st o st'} : Runs s room r (.expr e) p st o st' →
      Runs s room r (.expr (.option e)) p st (o.orSkip p) st'
  | star {room r e p st o st'} : Runs s room r (.turns e) p st o st' →
      Runs s room r (.expr (.star e)) p st o st'
  | plusStop {room r e p st o st'} : Runs s room r (.expr e) p st o st' →
      o.isMatched = false → Runs s room r (.expr (.plus e)) p st o st'
  | plusEmpty {room r e p st trees st'} :
      Runs s room r (.expr e) p st (.matched p trees) st' →
      Runs s room r (.expr (.plus e)) p st (.matched p []) st'
  | plusNext {room r e p st q trees st' o st''} :
      Runs s room r (.expr e) p st (.matched q trees) st' → q ≠ p →
      Runs s room r (.turns e) q st' o st'' →
      Runs s room r (.expr (.plus e)) p st (o.after trees) st''
  | turnsStop {room r e p st o st'} : Runs s room r (.expr e) p st o st' →
      o.isMatched = false → Runs s room r (.turns e) p st (o.orSkip p) st'
  | turnsEmpty {room r e p st trees st'} :
      Runs s room r (.expr e) p st (.matched p trees) st' →
      Runs s room r (.turns e) p st (.matched p []) st'
  | turnsNext {room r e p st q trees st' o st''} :
      Runs s room r (.expr e) p st (.matched q trees) st' → q ≠ p →
      Runs s room r (.turns e) q st' o st'' →
      Runs s room r (.turns e) p st (o.after trees) st''
  -- Lookaheads.
  | followedBy {room r e p st o st'} : Runs s room r (.expr e) p st o st' →
      Runs s room r (.expr (.followedBy e)) p st (o.asAhead p) st'
  | notFollowedBy {room r e p st o st'} : Runs s room r (.expr e) p st o st' →
      Runs s room r (.expr (.notFollowedBy e)) p st (o.asNotAhead p) st'
  | epsilon {room r p st} : Runs s room r (.expr .epsilon) p st (.matched p []) st
  | never {room r p st} : Runs s room r (.expr .never) p st .failed st

/-! ## What holds of every match -/

/-- The test of a single token. -/
def Expr.test? : Expr → Option Terminal
  | .token test => some test
  | _ => none

/-- The tests that have been tried on the next token when a task fails: it is one of them, or a
choice that has them among its alternatives. -/
def Task.tests : Task → List Terminal
  | .expr (.token test) => [test]
  | .expr (.choice es) | .alternatives es => es.filterMap Expr.test?
  | _ => []

/-- Something said about matches: of a task, from one place up to another, with some trees. -/
abbrev Judgment := Task → Nat → Nat → List Tree → Prop

/-- What is said holds of a match whenever it holds of the matches that make it up. -/
structure Judgment.Closed (g : Grammar) (tokens : TokenStream) (J : Judgment) : Prop where
  token : ∀ {test p t}, tokens.get? p = some t → test.accepts t = true →
    J (.expr (.token test)) p (p + 1) [.leaf p]
  anyToken : ∀ {p t}, tokens.get? p = some t → t.isEof = false →
    J (.expr .anyToken) p (p + 1) [.leaf p]
  rule : ∀ {q production p stop trees}, g.find? q = some production →
    J (.expr production.body) p stop trees →
    J (.expr (.rule q)) p stop (production.tree? q p stop trees).toList
  seq : ∀ {es p stop trees}, J (.items es) p stop trees → J (.expr (.seq es)) p stop trees
  itemsDone : ∀ {p}, J (.items []) p p []
  itemsNext : ∀ {e es p q trees stop trees'}, J (.expr e) p q trees → J (.items es) q stop trees' →
    J (.items (e :: es)) p stop (trees ++ trees')
  choice : ∀ {es p stop trees}, J (.alternatives es) p stop trees →
    J (.expr (.choice es)) p stop trees
  alternativesTake : ∀ {e es p stop trees}, J (.expr e) p stop trees →
    J (.alternatives (e :: es)) p stop trees
  alternativesNext : ∀ {e es p stop trees}, J (.alternatives es) p stop trees →
    J (.alternatives (e :: es)) p stop trees
  option : ∀ {e p stop trees}, J (.expr e) p stop trees → J (.expr (.option e)) p stop trees
  optionSkip : ∀ {e p}, J (.expr (.option e)) p p []
  star : ∀ {e p stop trees}, J (.turns e) p stop trees → J (.expr (.star e)) p stop trees
  plusEmpty : ∀ {e p trees}, J (.expr e) p p trees → J (.expr (.plus e)) p p []
  plus : ∀ {e p q trees stop trees'}, J (.expr e) p q trees → J (.turns e) q stop trees' →
    J (.expr (.plus e)) p stop (trees ++ trees')
  turnsDone : ∀ {e p}, J (.turns e) p p []
  turnsNext : ∀ {e p q trees stop trees'}, J (.expr e) p q trees → J (.turns e) q stop trees' →
    J (.turns e) p stop (trees ++ trees')
  followedBy : ∀ {e p stop trees}, J (.expr e) p stop trees → J (.expr (.followedBy e)) p p []
  notFollowedBy : ∀ {e p}, (∀ test ∈ (Task.expr e).tests, ∀ t, tokens.get? p = some t →
    test.accepts t = false) → J (.expr (.notFollowedBy e)) p p []
  epsilon : ∀ {p}, J (.expr .epsilon) p p []

/-- What is said holds of every match that is remembered. -/
def Findings.Judged (J : Judgment) (f : Findings) : Prop :=
  ∀ q p stop tree?, f.answer? q p = some (.matched stop tree?) →
    J (.expr (.rule q)) p stop tree?.toList

theorem Findings.Judged.remember {J : Judgment} {f : Findings} (h : f.Judged J) {q : Rule} {p : Nat}
    {answer : Answer}
    (ha : ∀ stop tree?, answer = .matched stop tree? → J (.expr (.rule q)) p stop tree?.toList) :
    (f.remember q p answer).Judged J := by
  intro s i stop tree? hi
  rw [answer?_remember] at hi
  split at hi
  · next he =>
    obtain ⟨rfl, rfl⟩ := he
    exact ha _ _ (Option.some.inj hi)
  · exact h _ _ _ _ hi

theorem Runs.accepts_eq_false {s : Setup} {room : Nat} {r : Rule} {t : Task} {p : Nat}
    {st st' : Findings} {o : Outcome} (h : Runs s room r t p st o st') (ho : o = .failed)
    {test : Terminal} (htest : test ∈ t.tests) {u : Token} (hu : s.tokens.get? p = some u) :
    test.accepts u = false := by
  induction h with
  | tokenFail ht ha =>
    cases List.mem_singleton.1 htest
    rw [hu] at ht
    cases ht
    exact ha
  | tokenBeyond ht => rw [hu] at ht; cases ht
  | choice _ ih => exact ih ho htest hu
  | alternativesTake _ hne => exact absurd ho hne
  | @alternativesNext _ _ e _ _ _ _ _ _ _ _ ih₁ ih₂ =>
    obtain ⟨d, hd, hdtest⟩ := List.mem_filterMap.1 htest
    rcases List.mem_cons.1 hd with rfl | hd
    · cases d <;> cases hdtest
      exact ih₁ rfl (List.mem_singleton_self _) hu
    · exact ih₂ ho (List.mem_filterMap.2 ⟨d, hd, hdtest⟩) hu
  | tokenPass | itemsDone | plusEmpty | turnsEmpty | epsilon => cases ho
  | _ => cases htest

/-- **What is said of matches holds of every match of a run**, and of all that it remembers. -/
theorem Runs.judged {J : Judgment} {s : Setup} (hJ : J.Closed s.grammar s.tokens) {room : Nat}
    {r : Rule} {t : Task} {p : Nat} {st st' : Findings} {o : Outcome}
    (h : Runs s room r t p st o st') (hst : st.Judged J) :
    st'.Judged J ∧ ∀ stop trees, o = .matched stop trees → J t p stop trees := by
  induction h with
  | tokenPass ht ha => exact ⟨hst, fun _ _ ho => by cases ho; exact hJ.token ht ha⟩
  | anyPass ht he => exact ⟨hst, fun _ _ ho => by cases ho; exact hJ.anyToken ht he⟩
  | tokenFail | tokenBeyond | anyFail | missing | alternativesDone | never =>
    exact ⟨hst, fun _ _ ho => by cases ho⟩
  | @hit _ _ q p st answer ha =>
    refine ⟨hst, fun stop trees ho => ?_⟩
    cases answer with
    | matched => cases ho; exact hst _ _ _ _ ha
    | failed => cases ho
  | refused => exact ⟨hst, fun _ _ ho => by split at ho <;> cases ho⟩
  | ruleMatch _ hf _ ih =>
    obtain ⟨hst', hy⟩ := ih hst
    have hrule := hJ.rule hf (hy _ _ rfl)
    exact ⟨hst'.remember fun _ _ ha => by cases ha; exact hrule,
      fun _ _ ho => by cases ho; exact hrule⟩
  | ruleFail _ _ _ ih =>
    exact ⟨(ih hst).1.remember fun _ _ ha => by (cases ha), fun _ _ ho => by cases ho⟩
  | ruleAbort _ _ _ ih => exact ⟨(ih hst).1, fun _ _ ho => by cases ho⟩
  | seq _ ih => exact ⟨(ih hst).1, fun _ _ ho => hJ.seq ((ih hst).2 _ _ ho)⟩
  | itemsDone => exact ⟨hst, fun _ _ ho => by cases ho; exact hJ.itemsDone⟩
  | itemsStop _ hm ih | plusStop _ hm ih =>
    exact ⟨(ih hst).1, fun _ _ ho => by rw [ho] at hm; cases hm⟩
  | @itemsNext _ _ _ _ _ _ _ _ _ o _ _ _ ih₁ ih₂ =>
    obtain ⟨hst₁, hy₁⟩ := ih₁ hst
    obtain ⟨hst₂, hy₂⟩ := ih₂ hst₁
    refine ⟨hst₂, fun _ _ ho => ?_⟩
    cases o <;> cases ho
    exact hJ.itemsNext (hy₁ _ _ rfl) (hy₂ _ _ rfl)
  | choice _ ih => exact ⟨(ih hst).1, fun _ _ ho => hJ.choice ((ih hst).2 _ _ ho)⟩
  | alternativesTake _ _ ih =>
    exact ⟨(ih hst).1, fun _ _ ho => hJ.alternativesTake ((ih hst).2 _ _ ho)⟩
  | alternativesNext _ _ ih₁ ih₂ =>
    obtain ⟨hst₂, hy₂⟩ := ih₂ (ih₁ hst).1
    exact ⟨hst₂, fun _ _ ho => hJ.alternativesNext (hy₂ _ _ ho)⟩
  | @option _ _ _ _ _ o _ _ ih =>
    refine ⟨(ih hst).1, fun _ _ ho => ?_⟩
    cases o with
    | matched => exact hJ.option ((ih hst).2 _ _ ho)
    | failed => cases ho; exact hJ.optionSkip
    | aborted => cases ho
  | star _ ih => exact ⟨(ih hst).1, fun _ _ ho => hJ.star ((ih hst).2 _ _ ho)⟩
  | plusEmpty _ ih =>
    exact ⟨(ih hst).1, fun _ _ ho => by cases ho; exact hJ.plusEmpty ((ih hst).2 _ _ rfl)⟩
  | @plusNext _ _ _ _ _ _ _ _ o _ _ _ _ ih₁ ih₂ =>
    obtain ⟨hst₁, hy₁⟩ := ih₁ hst
    obtain ⟨hst₂, hy₂⟩ := ih₂ hst₁
    refine ⟨hst₂, fun _ _ ho => ?_⟩
    cases o <;> cases ho
    exact hJ.plus (hy₁ _ _ rfl) (hy₂ _ _ rfl)
  | @turnsStop _ _ _ _ _ o _ _ hm ih =>
    refine ⟨(ih hst).1, fun _ _ ho => ?_⟩
    cases o with
    | matched => cases hm
    | failed => cases ho; exact hJ.turnsDone
    | aborted => cases ho
  | turnsEmpty _ ih => exact ⟨(ih hst).1, fun _ _ ho => by cases ho; exact hJ.turnsDone⟩
  | @turnsNext _ _ _ _ _ _ _ _ o _ _ _ _ ih₁ ih₂ =>
    obtain ⟨hst₁, hy₁⟩ := ih₁ hst
    obtain ⟨hst₂, hy₂⟩ := ih₂ hst₁
    refine ⟨hst₂, fun _ _ ho => ?_⟩
    cases o <;> cases ho
    exact hJ.turnsNext (hy₁ _ _ rfl) (hy₂ _ _ rfl)
  | @followedBy _ _ _ _ _ o _ _ ih =>
    refine ⟨(ih hst).1, fun _ _ ho => ?_⟩
    cases o <;> cases ho
    exact hJ.followedBy ((ih hst).2 _ _ rfl)
  | @notFollowedBy _ _ _ _ _ o _ h ih =>
    refine ⟨(ih hst).1, fun _ _ ho => ?_⟩
    cases o <;> cases ho
    exact hJ.notFollowedBy fun _ htest _ hu => h.accepts_eq_false rfl htest hu
  | epsilon => exact ⟨hst, fun _ _ ho => by cases ho; exact hJ.epsilon⟩

theorem Yields.closed (g : Grammar) (tokens : TokenStream) :
    Judgment.Closed g tokens (Yields g tokens) where
  token := .token
  anyToken := .anyToken
  rule := .rule
  seq := .seq
  itemsDone := .itemsDone
  itemsNext := .itemsNext
  choice := .choice
  alternativesTake := .alternatives (List.mem_cons_self ..)
  alternativesNext h := by
    cases h with | alternatives hm h => exact .alternatives (List.mem_cons_of_mem _ hm) h
  option := .option
  optionSkip := .optionSkip
  star := .star
  plusEmpty := .plusEmpty
  plus := .plus
  turnsDone := .turnsDone
  turnsNext := .turnsNext
  followedBy := .followedBy
  notFollowedBy _ := .notFollowedBy
  epsilon := .epsilon

/-- **A run matches what can be spanned**, and all that it remembers can be. -/
theorem Runs.yields {s : Setup} {room : Nat} {r : Rule} {t : Task} {p : Nat} {st st' : Findings}
    {o : Outcome} (h : Runs s room r t p st o st') (hst : st.Sound s.grammar s.tokens) :
    st'.Sound s.grammar s.tokens ∧ ∀ stop trees, o = .matched stop trees →
      Yields s.grammar s.tokens t p stop trees :=
  h.judged (Yields.closed s.grammar s.tokens) hst

/-! ## Derivations -/

section
variable {g : Grammar} {tokens : TokenStream} {r : Rule} {t : Task} {p : Nat} {log : List Attempt}

theorem Derives.accepts_eq_false (h : Derives g tokens r t p .failed log) {test : Terminal}
    (htest : test ∈ t.tests) {u : Token} (hu : tokens.get? p = some u) : test.accepts u = false := by
  generalize hv : Verdict.failed = v at h
  induction h with
  | tokenFail ht ha =>
    cases List.mem_singleton.1 htest
    cases hu.symm.trans ht
    exact ha
  | tokenBeyond ht => cases hu.symm.trans ht
  | choice _ ih => exact ih htest hu hv
  | alternativesNext _ _ ih₁ ih₂ =>
    obtain ⟨d, hd, hdtest⟩ := List.mem_filterMap.1 htest
    rcases List.mem_cons.1 hd with rfl | hd
    · cases d <;> cases hdtest
      exact ih₁ (List.mem_singleton_self _) hu rfl
    · exact ih₂ (List.mem_filterMap.2 ⟨d, hd, hdtest⟩) hu hv
  | tokenPass | alternativesMatch => cases hv
  | _ => cases htest

theorem Derives.token_matched {test : Terminal} {stop : Nat} {trees : List Tree}
    (h : Derives g tokens r (.expr (.token test)) p (.matched stop trees) log) :
    stop = p + 1 ∧ trees = [.leaf p] ∧ ∃ u, tokens.get? p = some u ∧ test.accepts u = true := by
  cases h with
  | tokenPass ht ha => exact ⟨rfl, rfl, _, ht, ha⟩

theorem Derives.seq_cons {e : Expr} {es : List Expr} {stop : Nat} {trees : List Tree}
    (h : Derives g tokens r (.expr (.seq (e :: es))) p (.matched stop trees) log) :
    ∃ q ts us log₁ log₂, trees = ts ++ us ∧ Derives g tokens r (.expr e) p (.matched q ts) log₁ ∧
      Derives g tokens r (.expr (.seq es)) q (.matched stop us) log₂ := by
  cases h with
  | seq h => cases h with
    | itemsMatch hfirst hrest => exact ⟨_, _, _, _, _, rfl, hfirst, .seq hrest⟩

theorem Derives.seq_nil {stop : Nat} {trees : List Tree}
    (h : Derives g tokens r (.expr (.seq [])) p (.matched stop trees) log) : stop = p ∧ trees = [] := by
  cases h with
  | seq h => cases h with
    | itemsDone => exact ⟨rfl, rfl⟩

theorem Derives.exists_alternative {es : List Expr} {stop : Nat} {trees : List Tree}
    (h : Derives g tokens r (.expr (.choice es)) p (.matched stop trees) log) :
    ∃ e ∈ es, ∃ log', Derives g tokens r (.expr e) p (.matched stop trees) log' := by
  cases h with
  | choice h =>
    induction es generalizing log with
    | nil => cases h
    | cons e es ih =>
      cases h with
      | alternativesMatch h => exact ⟨e, List.mem_cons_self .., _, h⟩
      | alternativesNext _ h =>
        obtain ⟨e', hm, hd⟩ := ih h
        exact ⟨e', List.mem_cons_of_mem _ hm, hd⟩

/-- **What is said of matches holds of every match in a derivation.** -/
theorem Derives.judged {J : Judgment} (hJ : J.Closed g tokens) {stop : Nat} {trees : List Tree}
    (h : Derives g tokens r t p (.matched stop trees) log) : J t p stop trees := by
  generalize hv : Verdict.matched stop trees = v at h
  induction h generalizing stop trees with
  | tokenPass ht ha => cases hv; exact hJ.token ht ha
  | anyPass ht he => cases hv; exact hJ.anyToken ht he
  | ruleMatch hf _ ih => cases hv; exact hJ.rule hf (ih rfl)
  | seq _ ih => exact hJ.seq (ih hv)
  | itemsDone => cases hv; exact hJ.itemsDone
  | itemsMatch _ _ ih₁ ih₂ => cases hv; exact hJ.itemsNext (ih₁ rfl) (ih₂ rfl)
  | choice _ ih => exact hJ.choice (ih hv)
  | alternativesMatch _ ih => cases hv; exact hJ.alternativesTake (ih rfl)
  | alternativesNext _ _ _ ih => exact hJ.alternativesNext (ih hv)
  | optionMatch _ ih => cases hv; exact hJ.option (ih rfl)
  | optionSkip => cases hv; exact hJ.optionSkip
  | star _ ih => exact hJ.star (ih hv)
  | plusEmpty _ ih => cases hv; exact hJ.plusEmpty (ih rfl)
  | plusMatch _ _ _ ih₁ ih₂ => cases hv; exact hJ.plus (ih₁ rfl) (ih₂ rfl)
  | turnsStop | turnsEmpty => cases hv; exact hJ.turnsDone
  | turnsMatch _ _ _ ih₁ ih₂ => cases hv; exact hJ.turnsNext (ih₁ rfl) (ih₂ rfl)
  | aheadMatch _ ih => cases hv; exact hJ.followedBy (ih rfl)
  | notAheadFail hd =>
    cases hv
    exact hJ.notFollowedBy fun _ htest _ hu => hd.accepts_eq_false htest hu
  | epsilon => cases hv; exact hJ.epsilon
  | tokenFail | tokenBeyond | anyFail | ruleFail | ruleMissing | itemsStop | itemsFail
  | alternativesDone | plusFail | aheadFail | notAheadMatch | never => cases hv

end

/-! ## What comes out of a run -/

namespace Runs

variable {s : Setup} {room : Nat} {r q : Rule} {t : Task} {p : Nat} {st st' : Findings}
  {o : Outcome}

theorem ne_aborted (h : Runs s room r t p st o st') (hs : s.skipping = true) :
    o ≠ .aborted := by
  induction h with
  | hit => exact Answer.outcome_ne_aborted _
  | refused => simp [hs]
  | ruleAbort _ _ _ ih | seq _ ih | choice _ ih | star _ ih | itemsStop _ _ ih
  | plusStop _ _ ih | alternativesTake _ _ ih | alternativesNext _ _ _ ih => exact ih
  | itemsNext _ _ _ ih | plusNext _ _ _ _ ih | turnsNext _ _ _ _ ih =>
    exact mt Outcome.after_eq_aborted.1 ih
  | option _ ih | turnsStop _ _ ih => exact mt Outcome.orSkip_eq_aborted.1 ih
  | followedBy _ ih => exact mt Outcome.asAhead_eq_aborted.1 ih
  | notFollowedBy _ ih => exact mt Outcome.asNotAhead_eq_aborted.1 ih
  | _ => exact Outcome.noConfusion

theorem eq_of_answer? (h : Runs s room r (.expr (.rule q)) p st o st') {answer : Answer}
    (ha : st.answer? q p = some answer) : o = answer.outcome := by
  cases h with
  | hit hq => rw [ha] at hq; cases hq; rfl
  | refused hq | missing hq _ | ruleMatch hq | ruleFail hq | ruleAbort hq => rw [ha] at hq; cases hq

theorem turns_ne_failed {e : Expr} (h : Runs s room r (.turns e) p st o st') :
    o ≠ .failed := by
  generalize ht : Task.turns e = t at h
  induction h with
  | @turnsStop _ _ _ _ _ o =>
    cases o <;> exact Outcome.noConfusion
  | turnsEmpty => exact Outcome.noConfusion
  | @turnsNext _ _ _ _ _ _ _ _ o _ _ _ _ _ ih =>
    cases o with
    | failed => exact absurd rfl (ih ht)
    | matched | aborted => exact Outcome.noConfusion
  | _ => cases ht

theorem answer?_of_failed (h : Runs s (room + 1) r (.expr (.rule q)) p st .failed st')
    {production : Production} (hf : s.grammar.find? q = some production) :
    st'.answer? q p = some .failed := by
  generalize ho : Outcome.failed = o at h
  cases h with
  | @hit _ _ _ _ _ answer ha =>
    cases answer with
    | matched => cases ho
    | failed => exact ha
  | missing _ hn => rw [hf] at hn; cases hn
  | ruleMatch | ruleAbort => cases ho
  | ruleFail => rw [Findings.answer?_remember, if_pos ⟨rfl, rfl⟩]

end Runs

end PackratCpp
