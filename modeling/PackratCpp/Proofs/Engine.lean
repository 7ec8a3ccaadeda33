/-
  Evaluation follows a run.

  * `State.findings`: what a state says about rules and places, with each element read as the
    tree that it stands for.
  * `State.AtWork`: a state in which a part of the body of a rule is evaluated at a place.
  * `Follows s room r t p st result`: a run of the task `t` from the findings of `st` comes out
    as what evaluation came to.  Once the parse is given up, only that the run gives up as well
    is known of it.
  * `Expr.evaluate_follows`, `Setup.invoke_follows`, `Grammar.evaluateRoot_follows`: so it is for
    every evaluation.  What is proved of runs (`Runs`) holds of it.
  * `Grammar.evaluateRoot_runs`, `Grammar.parse_of_outcome`, `Grammar.outcome_of_parse`: a parse
    that is not given up, and the tree that it finds.
  * `Grammar.parse_of_fatal`, `Grammar.parse_of_rootFailed`, `Grammar.parse_of_rootPartial`: the
    errors of the other ones.
-/
import PackratCpp.Proofs.Frame
import PackratCpp.Proofs.Run

namespace PackratCpp

/-- What a rule does at a place, with its element read in an arena. -/
def Memo.answer (arena : Layout.Arena) : Memo → Answer
  | .matched stop element? => .matched stop (element?.map arena.tree)
  | .failed => .failed

namespace State

/-- What a state says about rules and places. -/
def findings (st : State) : Findings where
  answer? q p := (st.memo? q p).map (·.answer st.arena)
  furthest := st.furthest
  evaluations := st.evaluations
  hits := st.hits
  refusals := st.refusals

variable {st st' : State}

theorem findings_initial (root : Rule) :
    (initial.enter root 0).findings = Findings.initial.enter := by
  have hanswer : (initial.enter root 0).findings.answer? = fun _ _ => none := by
    funext q p
    show (initial.memo? q p).map (·.answer (initial.enter root 0).arena) = none
    rw [memo?_initial]
    rfl
  simp only [findings] at hanswer ⊢
  rw [hanswer]
  rfl

@[simp] theorem findings_yield (st : State) (element? : Option Element) :
    (st.yield element?).findings = st.findings := by
  cases element? <;> rfl

theorem findings_expect {r : Rule} (h : st.active.head? = some r) (p : Nat) (e : Expectation) :
    (st.expect p e).findings = st.findings.expect p (some r) e := by
  rw [← h]
  rfl

theorem findings_remember (st : State) (q : Rule) (p : Nat) (m : Memo) :
    (st.remember q p m).findings = st.findings.remember q p (m.answer st.arena) := by
  have hanswer : (st.remember q p m).findings.answer? =
      (st.findings.remember q p (m.answer st.arena)).answer? := by
    funext q' p'
    rw [Findings.answer?_remember]
    show ((st.remember q p m).memo? q' p').map _ = _
    rw [memo?_remember]
    split_ifs <;> rfl
  simp only [findings] at hanswer ⊢
  rw [hanswer]
  rfl

theorem Sound.findings_growArena {g : Grammar} {tokens : TokenStream} (h : st.Sound g tokens)
    {arena : Layout.Arena} (ha : st.arena.Grows arena) :
    { st with arena := arena }.findings = st.findings := by
  have hanswer : { st with arena := arena }.findings.answer? = st.findings.answer? := by
    funext q p
    show (st.memo? q p).map _ = (st.memo? q p).map _
    cases hm : st.memo? q p with
    | none => rfl
    | some m =>
      cases m with
      | failed => rfl
      | matched stop element? =>
        cases element? with
        | none => rfl
        | some e =>
          have he := (h.memo q p stop _ hm).1 e rfl
          simp only [Option.map_some, Memo.answer, ha.tree_eq h.arena he]
  simp only [findings] at hanswer ⊢
  rw [hanswer]
  rfl

/-- A part of the body of the rule `r` is evaluated at place `p`. -/
structure AtWork (s : Setup) (r : Rule) (p : Nat) (st : State) : Prop where
  sound : st.Sound s.grammar s.tokens
  active : st.active.head? = some r
  fatal : st.fatal = false
  place : p ≤ s.tokens.length

theorem AtWork.next {s : Setup} {r : Rule} {t : Task} {p : Nat} {stop? : Option Nat}
    (h : st.AtWork s r p) (hk : Keeps s.grammar s.tokens t p st (stop?, st'))
    (hf : st'.fatal = false) : st'.AtWork s r (stop?.getD p) := by
  refine ⟨hk.sound, by rw [hk.grows.active, h.active], hf, ?_⟩
  cases stop? with
  | none => exact h.place
  | some stop => exact (hk.yields stop rfl).le_length h.place

end State

/-- Evaluation came to what a run comes out as. -/
inductive Follows (s : Setup) (room : Nat) (r : Rule) (t : Task) (p : Nat) (st : State) :
    Option Nat × State → Prop
  | matched {stop st'} : st'.fatal = false →
      Runs s room r t p st.findings (.matched stop (st'.above st.scratch.size)) st'.findings →
      Follows s room r t p st (some stop, st')
  | failed {st'} : st'.fatal = false → Runs s room r t p st.findings .failed st'.findings →
      Follows s room r t p st (none, st')
  | aborted {result f} : result.2.fatal = true → Runs s room r t p st.findings .aborted f →
      Follows s room r t p st result

section
variable {s : Setup} {room : Nat} {r : Rule} {t : Task} {p stop : Nat} {st st' : State}

namespace Follows

theorem matched_nothing (hf : st'.fatal = false) (habove : st'.above st.scratch.size = [])
    (hr : Runs s room r t p st.findings (.matched stop []) st'.findings) :
    Follows s room r t p st (some stop, st') :=
  .matched hf (habove ▸ hr)

theorem yield {element? : Option Element} (hf : st'.fatal = false)
    (hscratch : st'.scratch = st.scratch)
    (hr : Runs s room r t p st.findings
      (.matched stop (element?.map st'.arena.tree).toList) st'.findings) :
    Follows s room r t p st (some stop, st'.yield element?) := by
  refine .matched (by cases element? <;> exact hf) ?_
  rw [← hscratch, State.above_yield, State.findings_yield]
  exact hr

theorem append {t' u : Task} {q : Nat} {result : Option Nat × State}
    (hk : Keeps s.grammar s.tokens t p st (some q, st'))
    (hk' : Keeps s.grammar s.tokens t' q st' result) (h : Follows s room r t' q st' result)
    (hrun : ∀ {o f}, Runs s room r t' q st'.findings o f →
      Runs s room r u p st.findings (o.after (st'.above st.scratch.size)) f) :
    Follows s room r u p st result := by
  cases h with
  | matched hf hr =>
    refine .matched hf ?_
    rw [hk.above_append hk']
    exact hrun hr
  | failed hf hr => exact .failed hf (hrun hr)
  | aborted hf hr => exact .aborted hf (hrun hr)

end Follows

theorem Terminal.evaluate_follows (test : Terminal) (hst : st.AtWork s r p) :
    Follows s room r (.expr (.token test)) p st (test.evaluate s.tokens p st) := by
  unfold Terminal.evaluate
  cases ht : s.tokens.get? p with
  | none => exact .failed hst.fatal (.tokenBeyond ht)
  | some t =>
    simp only
    split_ifs with ha
    · exact .yield hst.fatal rfl (.tokenPass ht ha)
    · refine .failed hst.fatal ?_
      rw [State.findings_expect hst.active]
      exact .tokenFail ht (by simpa using ha)

theorem evaluateAnyToken_follows (hst : st.AtWork s r p) :
    Follows s room r (.expr .anyToken) p st (evaluateAnyToken s.tokens p st) := by
  have hfail (h : ∀ t, s.tokens.get? p = some t → t.isEof = true) :
      Follows s room r (.expr .anyToken) p st (none, st.expect p .anyToken) := by
    refine .failed hst.fatal ?_
    rw [State.findings_expect hst.active]
    exact .anyFail h
  unfold evaluateAnyToken
  cases ht : s.tokens.get? p with
  | none => exact hfail fun t h => by rw [ht] at h; cases h
  | some t =>
    simp only
    split_ifs with he
    · exact hfail fun u h => by rw [ht] at h; cases h; exact he
    · exact .yield hst.fatal rfl (.anyPass ht (by simpa using he))

/-- The turns of a repetition.  Each of them but the last gets further, so that the places that
are left from `p` on are turns enough. -/
theorem repeatStep_follows {e : Expr} {step : Nat → State → Option Nat × State}
    (hkeeps : ∀ p st, st.Sound s.grammar s.tokens → p ≤ s.tokens.length →
      Keeps s.grammar s.tokens (.expr e) p st (step p st))
    (hstep : ∀ p st, st.AtWork s r p → Follows s room r (.expr e) p st (step p st)) :
    ∀ (turns p : Nat) (st : State), st.AtWork s r p → s.tokens.length + 1 - p ≤ turns →
      Follows s room r (.turns e) p st
        (some (repeatStep step turns p st).1, (repeatStep step turns p st).2)
  | 0, p, st, hst, hturns => by
    have := hst.place
    omega
  | turns + 1, p, st, hst, hturns => by
    have hk := hkeeps p st hst.sound hst.place
    have he := hstep p st hst
    rcases hs : step p st with ⟨stop?, st'⟩
    rw [hs] at hk he
    simp only [repeatStep, hs]
    cases he with
    | failed hf hr =>
      exact .matched_nothing hf (State.above_of_scratch_eq (hk.restored rfl rfl))
        (.turnsStop hr rfl)
    | @matched stop _ hf hr =>
      simp only
      split_ifs with hstop
      · subst hstop
        exact .matched_nothing hf hk.above_eq_nil (.turnsEmpty hr)
      · have hle := (hk.yields stop rfl).le
        have hst' : st'.AtWork s r stop := hst.next hk hf
        have hkrest := repeatStep_keeps hkeeps turns stop st' hst'.sound hst'.place
        have hrest := repeatStep_follows hkeeps hstep turns stop st' hst' (by omega)
        exact .append hk hkrest hrest (.turnsNext hr hstop)
    | aborted hf hr =>
      refine .aborted ?_ (.turnsStop hr rfl)
      cases stop? with
      | none => exact hf
      | some stop =>
        simp only
        split_ifs with hstop
        · exact hf
        · have hplace := (hk.yields stop rfl).le_length hst.place
          exact (repeatStep_keeps hkeeps turns stop st' hk.sound hplace).grows.fatal hf

namespace Expr

variable {call : RuleCall}

/-- What has to be known of the rules that a part of the body of `r` mentions. -/
structure CallFollows (s : Setup) (room : Nat) (r : Rule) (call : RuleCall) : Prop where
  keeps : CallKeeps s.grammar s.tokens call
  follows : ∀ q p st, st.AtWork s r p →
    Follows s room r (.expr (.rule q)) p st ((Expr.rule q).evaluate s.tokens call p st)

mutual

theorem evaluate_follows (hcall : CallFollows s room r call) :
    ∀ (e : Expr) (p : Nat) (st : State), st.AtWork s r p →
      Follows s room r (.expr e) p st (e.evaluate s.tokens call p st)
  | .token test, p, st, hst => by
    rw [evaluate, if_neg (by simp [hst.fatal])]
    exact test.evaluate_follows hst
  | .anyToken, p, st, hst => by
    rw [evaluate, if_neg (by simp [hst.fatal])]
    exact evaluateAnyToken_follows hst
  | .rule q, p, st, hst => hcall.follows q p st hst
  | .seq es, p, st, hst => by
    have hes := evaluateSeq_follows hcall es p st hst
    rw [evaluate, if_neg (by simp [hst.fatal])]
    rcases hs : evaluateSeq s.tokens call es p st with ⟨stop?, st'⟩
    rw [hs] at hes
    cases hes with
    | matched hf hr => exact .matched hf (.seq hr)
    | failed hf hr => exact .failed hf (.seq hr)
    | aborted hf hr => cases stop? <;> exact .aborted hf (.seq hr)
  | .choice es, p, st, hst => by
    have hes := evaluateChoice_follows hcall es p st hst
    rw [evaluate, if_neg (by simp [hst.fatal])]
    generalize evaluateChoice s.tokens call es p st = result at hes ⊢
    cases hes with
    | matched hf hr => exact .matched hf (.choice hr)
    | failed hf hr => exact .failed hf (.choice hr)
    | aborted hf hr => exact .aborted hf (.choice hr)
  | .option e, p, st, hst => by
    have hk := evaluate_keeps hcall.keeps e p st hst.sound hst.place
    have he := evaluate_follows hcall e p st hst
    rw [evaluate, if_neg (by simp [hst.fatal])]
    rcases hs : evaluate s.tokens call e p st with ⟨stop?, st'⟩
    rw [hs] at hk he
    cases he with
    | matched hf hr => exact .matched hf (.option hr)
    | failed hf hr =>
      exact .matched_nothing hf (State.above_of_scratch_eq (hk.restored rfl rfl)) (.option hr)
    | aborted hf hr => cases stop? <;> exact .aborted hf (.option hr)
  | .star e, p, st, hst => by
    have hturns := repeatStep_follows (evaluate_keeps hcall.keeps e) (evaluate_follows hcall e)
      (s.tokens.length + 1 - p) p st hst (Nat.le_refl _)
    rw [evaluate, if_neg (by simp [hst.fatal])]
    cases hturns with
    | matched hf hr => exact .matched hf (.star hr)
    | aborted hf hr => exact .aborted hf (.star hr)
  | .plus e, p, st, hst => by
    have hkeeps := evaluate_keeps hcall.keeps e
    have hk := hkeeps p st hst.sound hst.place
    have he := evaluate_follows hcall e p st hst
    rw [evaluate, if_neg (by simp [hst.fatal])]
    rcases hs : evaluate s.tokens call e p st with ⟨stop?, st'⟩
    rw [hs] at hk he
    cases he with
    | failed hf hr => exact .failed hf (.plusStop hr rfl)
    | @matched q _ hf hr =>
      simp only
      split_ifs with hq
      · subst hq
        exact .matched_nothing hf hk.above_eq_nil (.plusEmpty hr)
      · have hst' : st'.AtWork s r q := hst.next hk hf
        have hkturns := repeatStep_keeps hkeeps (s.tokens.length + 1 - q) q st' hst'.sound
          hst'.place
        have hturns := repeatStep_follows hkeeps (evaluate_follows hcall e)
          (s.tokens.length + 1 - q) q st' hst' (Nat.le_refl _)
        exact .append hk hkturns hturns (.plusNext hr hq)
    | aborted hf hr =>
      refine .aborted ?_ (.plusStop hr rfl)
      cases stop? with
      | none => exact hf
      | some q =>
        simp only
        split_ifs with hq
        · exact hf
        · have hplace := (hk.yields q rfl).le_length hst.place
          exact (repeatStep_keeps hkeeps _ q st' hk.sound hplace).grows.fatal hf
  | .followedBy e, p, st, hst => by
    have hk := evaluate_keeps hcall.keeps e p st hst.sound hst.place
    have he := evaluate_follows hcall e p st hst
    rw [evaluate, if_neg (by simp [hst.fatal])]
    rcases hs : evaluate s.tokens call e p st with ⟨stop?, st'⟩
    rw [hs] at hk he
    cases he with
    | matched hf hr =>
      exact .matched_nothing hf (State.above_of_scratch_eq hk.grows.shrink_eq) (.followedBy hr)
    | failed hf hr => exact .failed hf (.followedBy hr)
    | aborted hf hr => cases stop? <;> exact .aborted hf (.followedBy hr)
  | .notFollowedBy e, p, st, hst => by
    have hk := evaluate_keeps hcall.keeps e p st hst.sound hst.place
    have he := evaluate_follows hcall e p st hst
    rw [evaluate, if_neg (by simp [hst.fatal])]
    rcases hs : evaluate s.tokens call e p st with ⟨stop?, st'⟩
    rw [hs] at hk he
    cases he with
    | matched hf hr => exact .failed hf (.notFollowedBy hr)
    | failed hf hr =>
      exact .matched_nothing hf (State.above_of_scratch_eq hk.grows.shrink_eq) (.notFollowedBy hr)
    | aborted hf hr => cases stop? <;> exact .aborted hf (.notFollowedBy hr)
  | .epsilon, p, st, hst => by
    rw [evaluate, if_neg (by simp [hst.fatal])]
    exact .matched_nothing hst.fatal st.above_size .epsilon
  | .never, p, st, hst => by
    rw [evaluate, if_neg (by simp [hst.fatal])]
    exact .failed hst.fatal .never

theorem evaluateSeq_follows (hcall : CallFollows s room r call) :
    ∀ (es : List Expr) (p : Nat) (st : State), st.AtWork s r p →
      Follows s room r (.items es) p st (evaluateSeq s.tokens call es p st)
  | [], p, st, hst => .matched_nothing hst.fatal st.above_size .itemsDone
  | e :: es, p, st, hst => by
    have hk := evaluate_keeps hcall.keeps e p st hst.sound hst.place
    have he := evaluate_follows hcall e p st hst
    rw [evaluateSeq]
    rcases hs : evaluate s.tokens call e p st with ⟨stop?, st'⟩
    rw [hs] at hk he
    cases he with
    | failed hf hr => exact .failed hf (.itemsStop hr rfl)
    | @matched q _ hf hr =>
      have hst' : st'.AtWork s r q := hst.next hk hf
      exact .append hk (evaluateSeq_keeps hcall.keeps es q st' hst'.sound hst'.place)
        (evaluateSeq_follows hcall es q st' hst') (.itemsNext hr)
    | aborted hf hr =>
      refine .aborted ?_ (.itemsStop hr rfl)
      cases stop? with
      | none => exact hf
      | some q =>
        have hplace := (hk.yields q rfl).le_length hst.place
        exact (evaluateSeq_keeps hcall.keeps es q st' hk.sound hplace).grows.fatal hf

theorem evaluateChoice_follows (hcall : CallFollows s room r call) :
    ∀ (es : List Expr) (p : Nat) (st : State), st.AtWork s r p →
      Follows s room r (.alternatives es) p st (evaluateChoice s.tokens call es p st)
  | [], p, st, hst => .failed hst.fatal .alternativesDone
  | e :: es, p, st, hst => by
    have hk := evaluate_keeps hcall.keeps e p st hst.sound hst.place
    have he := evaluate_follows hcall e p st hst
    rw [evaluateChoice]
    rcases hs : evaluate s.tokens call e p st with ⟨stop?, st'⟩
    rw [hs] at hk he
    cases he with
    | matched hf hr => exact .matched hf (.alternativesTake hr Outcome.noConfusion)
    | failed hf hr =>
      have hscratch : st'.scratch = st.scratch := hk.restored rfl rfl
      have hes := evaluateChoice_follows hcall es p st' (hst.next hk hf)
      simp only
      generalize evaluateChoice s.tokens call es p st' = result at hes ⊢
      cases hes with
      | matched hf' hr' =>
        rw [hscratch] at hr'
        exact .matched hf' (.alternativesNext hr hr')
      | failed hf' hr' => exact .failed hf' (.alternativesNext hr hr')
      | aborted hf' hr' => exact .aborted hf' (.alternativesNext hr hr')
    | aborted hf hr =>
      refine .aborted ?_ (.alternativesTake hr Outcome.noConfusion)
      cases stop? with
      | some q => exact hf
      | none => exact (evaluateChoice_keeps hcall.keeps es p st' hk.sound hst.place).grows.fatal hf

end

end Expr

/-- **Invoking a rule follows a run.** -/
theorem Setup.invoke_follows (s : Setup) :
    ∀ (room : Nat) (r q : Rule) (p : Nat) (st : State), st.AtWork s r p →
      Follows s room r (.expr (.rule q)) p st
        ((Expr.rule q).evaluate s.tokens (s.invoke room) p st)
  | room, r, q, p, st, hst => by
    rw [Expr.evaluate, if_neg (by simp [hst.fatal]), invoke.eq_def]
    cases hm : st.memo? q p with
    | some memo =>
      have hanswer : st.findings.answer? q p = some (memo.answer st.arena) := by
        simp only [State.findings, hm, Option.map_some]
      have hrun : Runs s room r (.expr (.rule q)) p st.findings (memo.answer st.arena).outcome
          st.hit.findings := .hit hanswer
      cases memo with
      | failed => exact .failed hst.fatal hrun
      | matched stop element? => exact .yield hst.fatal rfl hrun
    | none =>
      have hanswer : st.findings.answer? q p = none := by
        simp only [State.findings, hm, Option.map_none]
      cases room with
      | zero =>
        have hrun : Runs s 0 r (.expr (.rule q)) p st.findings
            (if s.skipping then .failed else .aborted) st.findings.refuse := .refused hanswer
        cases hskip : s.skipping with
        | true =>
          rw [hskip] at hrun
          exact .failed hst.fatal hrun
        | false =>
          rw [hskip] at hrun
          exact .aborted rfl hrun
      | succ room =>
        cases hf : s.grammar.find? q with
        | none => exact .failed hst.fatal (.missing hanswer hf)
        | some production =>
          have henter : (st.enter q p).AtWork s q p :=
            ⟨hst.sound.congr rfl rfl rfl, rfl, hst.fatal, hst.place⟩
          have hkbody := Expr.evaluate_keeps (s.invoke_keeps room) production.body p (st.enter q p)
            henter.sound hst.place
          have hbody := Expr.evaluate_follows ⟨s.invoke_keeps room, invoke_follows s room q⟩
            production.body p (st.enter q p) henter
          simp only
          rcases hs : production.body.evaluate s.tokens (s.invoke room) p (st.enter q p) with
            ⟨stop?, st'⟩
          rw [hs] at hkbody hbody
          have hgrows : st.Grows st'.leave := hkbody.grows.leave
          have hsound : st'.leave.Sound s.grammar s.tokens := hkbody.sound.congr rfl rfl rfl
          cases hbody with
          | failed hfatal hr =>
            refine .failed hfatal ?_
            rw [State.findings_remember]
            exact .ruleFail hanswer hf hr
          | @matched stop _ hfatal hr =>
            obtain ⟨element?, arena, hnode, harena, -, -, htree⟩ :=
              hsound.finishNode production q p stop st.scratch.size false
            simp only [hnode]
            refine .yield hfatal hgrows.shrink_eq ?_
            have hsame : { st'.leave with arena := arena }.findings = st'.findings :=
              hsound.findings_growArena harena
            rw [State.findings_remember]
            show Runs s (room + 1) r (.expr (.rule q)) p st.findings
              (.matched stop (element?.map arena.tree).toList)
              ({ st'.leave with arena := arena }.findings.remember q p
                (.matched stop (element?.map arena.tree)))
            rw [hsame, htree]
            exact .ruleMatch hanswer hf hr
          | aborted hfatal hr =>
            have habort : Runs s (room + 1) r (.expr (.rule q)) p st.findings .aborted _ :=
              .ruleAbort hanswer hf hr
            cases stop? with
            | none => exact .aborted hfatal habort
            | some stop =>
              obtain ⟨element?, arena, hnode, -⟩ :=
                hsound.finishNode production q p stop st.scratch.size false
              simp only [hnode]
              exact .aborted (by cases element? <;> exact hfatal) habort

end

namespace Grammar

variable (g : Grammar) (tokens : TokenStream) (root : Rule) (production : Production)
  (maxDepth? : Option Nat)

theorem atWork_initial :
    (State.initial.enter root 0).AtWork (g.setup tokens root maxDepth?) root 0 :=
  ⟨State.Sound.initial.congr rfl rfl rfl, rfl, rfl, Nat.zero_le _⟩

theorem evaluateRoot_keeps : Keeps g tokens (.expr production.body) 0 (State.initial.enter root 0)
    (g.evaluateRoot tokens root production maxDepth?) :=
  Expr.evaluate_keeps ((g.setup tokens root maxDepth?).invoke_keeps (room tokens maxDepth?))
    production.body 0 _ (g.atWork_initial tokens root maxDepth?).sound (Nat.zero_le _)

/-- **A parse follows a run of the body of its root rule.** -/
theorem evaluateRoot_follows :
    Follows (g.setup tokens root maxDepth?) (room tokens maxDepth?) root (.expr production.body) 0
      (State.initial.enter root 0) (g.evaluateRoot tokens root production maxDepth?) :=
  Expr.evaluate_follows (s := g.setup tokens root maxDepth?)
    ⟨(g.setup tokens root maxDepth?).invoke_keeps (room tokens maxDepth?),
      (g.setup tokens root maxDepth?).invoke_follows (room tokens maxDepth?) root⟩
    production.body 0 _ (g.atWork_initial tokens root maxDepth?)

/-- What the evaluation of the root rule came to, unless the parse was given up. -/
def rootOutcome : Option Nat × State → Outcome
  | (some stop, st) => .matched stop (st.above 0)
  | (none, _) => .failed

theorem rootOutcome_ne_aborted (result : Option Nat × State) : rootOutcome result ≠ .aborted := by
  rcases result with ⟨_ | _, _⟩ <;> exact Outcome.noConfusion

variable {g tokens root production maxDepth?}

theorem evaluateRoot_runs (hf : (g.evaluateRoot tokens root production maxDepth?).2.fatal = false) :
    Runs (g.setup tokens root maxDepth?) (room tokens maxDepth?) root (.expr production.body) 0
      Findings.initial.enter (rootOutcome (g.evaluateRoot tokens root production maxDepth?))
      (g.evaluateRoot tokens root production maxDepth?).2.findings := by
  have h := g.evaluateRoot_follows tokens root production maxDepth?
  rcases he : g.evaluateRoot tokens root production maxDepth? with ⟨stop?, st⟩
  rw [he] at h hf
  rw [← State.findings_initial root]
  cases h with
  | matched _ hr => exact hr
  | failed _ hr => exact hr
  | aborted hf' => exact absurd (hf.symm.trans hf') Bool.noConfusion

theorem parse_of_fatal (hroot : g.find? root = some production)
    (hfatal : (g.evaluateRoot tokens root production maxDepth?).2.fatal = true) :
    g.parse tokens root maxDepth? =
      .error (if maxDepth?.isSome then .recursionLimit else .leftRecursion) := by
  rcases he : g.evaluateRoot tokens root production maxDepth? with ⟨stop?, st⟩
  rw [he] at hfatal
  unfold parse
  simp only [hroot, he, State.leave]
  rw [if_pos hfatal]

/-- Why a parse that has come to its end does not read all tokens. -/
def errorOf (tokens : TokenStream) (f : Findings) : ParseError :=
  if 0 < f.refusals then .recursionLimit else .recognition (diagnose tokens f.furthest)

theorem parse_of_rootFailed (hroot : g.find? root = some production)
    (hfatal : (g.evaluateRoot tokens root production maxDepth?).2.fatal = false)
    (ho : rootOutcome (g.evaluateRoot tokens root production maxDepth?) = .failed) :
    g.parse tokens root maxDepth? =
      .error (errorOf tokens (g.evaluateRoot tokens root production maxDepth?).2.findings) := by
  rcases he : g.evaluateRoot tokens root production maxDepth? with ⟨_ | stop, st⟩
  · have hst : st.fatal = false := by rw [he] at hfatal; exact hfatal
    unfold parse
    simp only [hroot, he, State.leave]
    rw [if_neg (by simp [hst]), errorOf, apply_ite Except.error]
    rfl
  · rw [he] at ho
    cases ho

/-- A parse whose root rule does not match all tokens. -/
theorem parse_of_rootPartial (hroot : g.find? root = some production)
    (hfatal : (g.evaluateRoot tokens root production maxDepth?).2.fatal = false) {stop : Nat}
    {trees : List Tree}
    (ho : rootOutcome (g.evaluateRoot tokens root production maxDepth?) = .matched stop trees)
    (hstop : ¬ (stop = tokens.eofIndex ∨ stop = tokens.length)) :
    g.parse tokens root maxDepth? =
      .error (errorOf tokens ((g.evaluateRoot tokens root production maxDepth?).2.findings.expect
        stop none .endOfInput)) := by
  have hactive := (g.evaluateRoot_keeps tokens root production maxDepth?).grows.active
  rcases he : g.evaluateRoot tokens root production maxDepth? with ⟨_ | stop, st⟩
  · rw [he] at ho
    cases ho
  · have hst : st.fatal = false := by rw [he] at hfatal; exact hfatal
    have hnone : st.active.tail.head? = none := by rw [he] at hactive; rw [hactive]; rfl
    rw [he] at ho
    cases ho
    unfold parse
    simp only [hroot, he, State.leave, State.expect]
    rw [if_neg (by simp [hst]), if_neg (by simpa using hstop), errorOf, apply_ite Except.error,
      hnone]
    rfl

theorem parse_of_outcome (hroot : g.find? root = some production)
    (hf : (g.evaluateRoot tokens root production maxDepth?).2.fatal = false) {stop : Nat}
    {trees : List Tree}
    (ho : rootOutcome (g.evaluateRoot tokens root production maxDepth?) = .matched stop trees)
    (hstop : stop = tokens.eofIndex ∨ stop = tokens.length) :
    ∃ r, g.parse tokens root maxDepth? = .ok r ∧ r.tree = production.node root 0 stop trees ∧
      r.tokens = tokens := by
  have hk := g.evaluateRoot_keeps tokens root production maxDepth?
  rcases he : g.evaluateRoot tokens root production maxDepth? with ⟨stop?, st⟩
  rw [he] at hk hf ho
  cases stop? with
  | none => cases ho
  | some stop =>
    cases ho
    have hsound : st.leave.Sound g tokens := hk.sound.congr rfl rfl rfl
    obtain ⟨element?, arena, hnode, -, -, -, htree⟩ :=
      hsound.finishNode production root 0 stop 0 true
    unfold parse
    simp only [hroot, he]
    rw [if_neg (by simpa [State.leave] using hf), if_pos (by simpa using hstop)]
    simp only [hnode]
    refine ⟨_, rfl, ?_, rfl⟩
    cases element? with
    | none => cases htree
    | some e => exact Option.some.inj htree

theorem outcome_of_parse (hroot : g.find? root = some production) {r : Parse}
    (hr : g.parse tokens root maxDepth? = .ok r) :
    (g.evaluateRoot tokens root production maxDepth?).2.fatal = false ∧ ∃ stop trees,
      rootOutcome (g.evaluateRoot tokens root production maxDepth?) = .matched stop trees ∧
      (stop = tokens.eofIndex ∨ stop = tokens.length) ∧
      r.tree = production.node root 0 stop trees := by
  obtain ⟨result, he⟩ : ∃ result, g.evaluateRoot tokens root production maxDepth? = result :=
    ⟨_, rfl⟩
  have hparse := hr
  unfold parse at hr
  rcases result with ⟨_ | stop, st⟩
  · simp only [hroot, he] at hr
    split_ifs at hr
  · simp only [hroot, he] at hr
    split_ifs at hr with hfatal hstop
    have hf : (g.evaluateRoot tokens root production maxDepth?).2.fatal = false := by
      rw [he]
      simpa [State.leave] using hfatal
    have ho : rootOutcome (g.evaluateRoot tokens root production maxDepth?) =
        .matched stop (st.above 0) := by rw [he]; rfl
    have hstop' : stop = tokens.eofIndex ∨ stop = tokens.length := by simpa using hstop
    obtain ⟨r', hr', htree, -⟩ := parse_of_outcome hroot hf ho hstop'
    rw [hparse] at hr'
    cases hr'
    exact ⟨hf, stop, _, ho, hstop', htree⟩

end Grammar

end PackratCpp
