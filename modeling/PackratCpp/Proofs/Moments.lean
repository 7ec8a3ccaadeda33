/-
  The moments of a parse.

  * `Leads`: some steps from one moment to another, through sound states only.
  * `Expr.evaluate_leads`, `Setup.invoke_leads`: with a limit, evaluating an expression step by step
    leads to what `Expr.evaluate` says, for as long as the repetitions and the rules take.
  * `Setup.next?_active_le`: no step goes beyond the limit.
  * `Grammar.limited_parse_ends`: so a parse with a limit ends, and no more rules are at work at any
    moment than the limit allows.
  * `Setup.after_leftRecursive`: without a limit it may go on forever.
-/
import PackratCpp.Parse.Moment
import PackratCpp.Proofs.Frame

namespace PackratCpp

/-! ## Steps through sound states -/

/-- Some steps lead from one moment to another, and the states on the way are sound. -/
inductive Leads (s : Setup) (maxDepth? : Option Nat) : Moment → Moment → Prop
  | refl {m : Moment} : m.state.Sound s.grammar s.tokens → Leads s maxDepth? m m
  | step {m m' m'' : Moment} : m.state.Sound s.grammar s.tokens →
      s.next? maxDepth? m = some m' → Leads s maxDepth? m' m'' → Leads s maxDepth? m m''

variable {s : Setup} {maxDepth? : Option Nat} {limit room depth n : Nat} {m m' m'' : Moment}
  {frames : List Frame} {st st' : State} {p : Nat}

namespace Leads

theorem trans (h : Leads s maxDepth? m m') (h' : Leads s maxDepth? m' m'') :
    Leads s maxDepth? m m'' := by
  induction h with
  | refl => exact h'
  | step hm hnext _ ih => exact .step hm hnext (ih h')

theorem sound (h : Leads s maxDepth? m m') : m'.state.Sound s.grammar s.tokens := by
  induction h with
  | refl hm => exact hm
  | step _ _ _ ih => exact ih

theorem start {e : Expr} (hst : st.Sound s.grammar s.tokens) (hfatal : ¬ st.fatal = true)
    (h : Leads s maxDepth? (s.start maxDepth? e p frames st) m) :
    Leads s maxDepth? ⟨.evaluate e p, frames, st⟩ m :=
  .step hst (by rw [Setup.next?, if_neg hfatal]) h

theorem resume {stop? : Option Nat} {frame : Frame}
    (h : Leads s maxDepth? m ⟨.answer stop?, frame :: frames, st⟩)
    (h' : Leads s maxDepth? (frame.resume frames stop? st) m') : Leads s maxDepth? m m' :=
  h.trans (.step h.sound rfl h')

theorem exists_after (h : Leads s maxDepth? m m') : ∃ n, s.after maxDepth? n m = some m' := by
  induction h with
  | refl => exact ⟨0, rfl⟩
  | step _ hnext _ ih =>
    obtain ⟨n, hn⟩ := ih
    exact ⟨n + 1, by rw [Setup.after, hnext]; exact hn⟩

theorem sound_after (h : Leads s maxDepth? m m') (hend : s.next? maxDepth? m' = none)
    (hn : s.after maxDepth? n m = some m'') : m''.state.Sound s.grammar s.tokens := by
  induction h generalizing n with
  | refl hm =>
    cases n with
    | zero => cases hn; exact hm
    | succ n =>
      rw [Setup.after, hend] at hn
      cases hn
  | step hm hnext _ ih =>
    cases n with
    | zero => cases hn; exact hm
    | succ n =>
      rw [Setup.after, hnext] at hn
      exact ih hend hn

end Leads

/-! ## Evaluation takes these steps -/

/-- An expression is evaluated at place `p` while `depth` rules are at work. -/
structure State.Ready (s : Setup) (depth p : Nat) (st : State) : Prop where
  sound : st.Sound s.grammar s.tokens
  active : st.active.length = depth
  place : p ≤ s.tokens.length

theorem State.Ready.next {t : Task} {stop? : Option Nat} (h : st.Ready s depth p)
    (hk : Keeps s.grammar s.tokens t p st (stop?, st')) : st'.Ready s depth (stop?.getD p) := by
  refine ⟨hk.sound, by rw [hk.grows.active, h.active], ?_⟩
  cases stop? with
  | none => exact h.place
  | some stop => exact (hk.yields stop rfl).le_length h.place

/-- What has to be known of the rules that an expression mentions, while `depth` rules are at
work. -/
structure CallLeads (s : Setup) (maxDepth? : Option Nat) (depth : Nat) (call : RuleCall) :
    Prop where
  keeps : CallKeeps s.grammar s.tokens call
  leads : ∀ q p st, st.Ready s depth p → ∀ frames, Leads s maxDepth?
    ⟨.evaluate (.rule q) p, frames, st⟩ (.answered frames ((Expr.rule q).evaluate s.tokens call p st))

/-- The turns of a repetition.  Each of them but the last gets further, so that the places that
are left from `p` on are turns enough. -/
theorem repeatStep_leads {e : Expr} {step : Nat → State → Option Nat × State}
    (hkeeps : ∀ p st, st.Sound s.grammar s.tokens → p ≤ s.tokens.length →
      Keeps s.grammar s.tokens (.expr e) p st (step p st))
    (hstep : ∀ p st, st.Ready s depth p → ∀ frames,
      Leads s maxDepth? ⟨.evaluate e p, frames, st⟩ (.answered frames (step p st))) :
    ∀ (turns p : Nat) (st : State), st.Ready s depth p → s.tokens.length + 1 - p ≤ turns →
      ∀ frames, Leads s maxDepth? (.turn e p frames st)
        ⟨.answer (some (repeatStep step turns p st).1), frames, (repeatStep step turns p st).2⟩
  | 0, p, st, hst, hturns, _ => by
    have := hst.place
    omega
  | turns + 1, p, st, hst, hturns, frames => by
    have hk := hkeeps p st hst.sound hst.place
    have he := hstep p st hst (.turn e p :: frames)
    rcases hs : step p st with ⟨stop?, st'⟩
    rw [hs] at hk he
    simp only [repeatStep, hs]
    refine he.resume ?_
    cases stop? with
    | none => exact .refl hk.sound
    | some stop =>
      simp only [Frame.resume]
      split_ifs with hstop
      · exact .refl hk.sound
      · have hle := (hk.yields stop rfl).le
        exact repeatStep_leads hkeeps hstep turns stop st' (hst.next hk) (by omega) frames

namespace Expr

variable {call : RuleCall}

mutual

theorem evaluate_leads (hcall : CallLeads s maxDepth? depth call) :
    ∀ (e : Expr) (p : Nat) (st : State), st.Ready s depth p → ∀ frames, Leads s maxDepth?
      ⟨.evaluate e p, frames, st⟩ (.answered frames (e.evaluate s.tokens call p st))
  | e, p, st, hst, frames => by
    by_cases hfatal : st.fatal = true
    · rw [evaluate_of_fatal hfatal]
      exact .step hst.sound (by rw [Setup.next?, if_pos hfatal]; rfl) (.refl hst.sound)
    cases e with
    | token test =>
      refine .start hst.sound hfatal ?_
      rw [evaluate, if_neg hfatal]
      exact .refl (test.evaluate_keeps p hst.sound).sound
    | anyToken =>
      refine .start hst.sound hfatal ?_
      rw [evaluate, if_neg hfatal]
      exact .refl (evaluateAnyToken_keeps p hst.sound).sound
    | rule q => exact hcall.leads q p st hst frames
    | seq es =>
      have hes := evaluateSeq_leads hcall es p st hst st.scratch.size frames
      refine .start hst.sound hfatal (hes.trans ?_)
      rw [evaluate, if_neg hfatal]
      rcases hs : evaluateSeq s.tokens call es p st with ⟨_ | stop, st'⟩ <;>
      · rw [hs] at hes
        exact .refl hes.sound
    | choice es =>
      refine .start hst.sound hfatal ?_
      rw [evaluate, if_neg hfatal]
      exact evaluateChoice_leads hcall es p st hst frames
    | option e =>
      have he := evaluate_leads hcall e p st hst (.option p :: frames)
      refine .start hst.sound hfatal ?_
      rw [evaluate, if_neg hfatal]
      rcases hs : evaluate s.tokens call e p st with ⟨_ | stop, st'⟩ <;>
      · rw [hs] at he
        exact he.resume (.refl he.sound)
    | star e =>
      refine .start hst.sound hfatal ?_
      rw [evaluate, if_neg hfatal]
      exact repeatStep_leads (evaluate_keeps hcall.keeps e) (evaluate_leads hcall e) _ p st hst
        (Nat.le_refl _) frames
    | plus e =>
      have hkeeps := evaluate_keeps hcall.keeps e
      have hk := hkeeps p st hst.sound hst.place
      have he := evaluate_leads hcall e p st hst (.firstTurn e p :: frames)
      refine .start hst.sound hfatal ?_
      rw [evaluate, if_neg hfatal]
      rcases hs : evaluate s.tokens call e p st with ⟨_ | stop, st'⟩
      · rw [hs] at he
        exact he.resume (.refl he.sound)
      · rw [hs] at hk he
        refine he.resume ?_
        simp only [Frame.resume]
        split_ifs with hstop
        · exact .refl he.sound
        · exact repeatStep_leads hkeeps (evaluate_leads hcall e) _ stop st' (hst.next hk)
            (Nat.le_refl _) frames
    | followedBy e =>
      have hk := evaluate_keeps hcall.keeps e p st hst.sound hst.place
      have he := evaluate_leads hcall e p st hst (.followedBy p st.scratch.size :: frames)
      refine .start hst.sound hfatal ?_
      rw [evaluate, if_neg hfatal]
      rcases hs : evaluate s.tokens call e p st with ⟨_ | stop, st'⟩ <;>
      · rw [hs] at hk he
        exact he.resume (.refl (hk.sound.truncate _))
    | notFollowedBy e =>
      have hk := evaluate_keeps hcall.keeps e p st hst.sound hst.place
      have he := evaluate_leads hcall e p st hst (.notFollowedBy p st.scratch.size :: frames)
      refine .start hst.sound hfatal ?_
      rw [evaluate, if_neg hfatal]
      rcases hs : evaluate s.tokens call e p st with ⟨_ | stop, st'⟩ <;>
      · rw [hs] at hk he
        exact he.resume (.refl (hk.sound.truncate _))
    | epsilon | never =>
      refine .start hst.sound hfatal ?_
      rw [evaluate, if_neg hfatal]
      exact .refl hst.sound

theorem evaluateSeq_leads (hcall : CallLeads s maxDepth? depth call) :
    ∀ (es : List Expr) (p : Nat) (st : State), st.Ready s depth p → ∀ (height : Nat) frames,
      Leads s maxDepth? (.items es p height frames st) (.answered frames
        (match evaluateSeq s.tokens call es p st with
          | (some stop, st) => (some stop, st)
          | (none, st) => (none, st.truncate height)))
  | [], p, st, hst, height, frames => .refl hst.sound
  | e :: es, p, st, hst, height, frames => by
    have hk := evaluate_keeps hcall.keeps e p st hst.sound hst.place
    have he := evaluate_leads hcall e p st hst (.items es height :: frames)
    rw [evaluateSeq]
    rcases hs : evaluate s.tokens call e p st with ⟨_ | stop, st'⟩
    · rw [hs] at hk he
      exact he.resume (.refl (hk.sound.truncate height))
    · rw [hs] at hk he
      exact he.resume (evaluateSeq_leads hcall es stop st' (hst.next hk) height frames)

theorem evaluateChoice_leads (hcall : CallLeads s maxDepth? depth call) :
    ∀ (es : List Expr) (p : Nat) (st : State), st.Ready s depth p → ∀ frames,
      Leads s maxDepth? (.alternatives es p frames st)
        (.answered frames (evaluateChoice s.tokens call es p st))
  | [], p, st, hst, frames => .refl hst.sound
  | e :: es, p, st, hst, frames => by
    have hk := evaluate_keeps hcall.keeps e p st hst.sound hst.place
    have he := evaluate_leads hcall e p st hst (.alternatives es p :: frames)
    rw [evaluateChoice]
    rcases hs : evaluate s.tokens call e p st with ⟨_ | stop, st'⟩
    · rw [hs] at hk he
      exact he.resume (evaluateChoice_leads hcall es p st' (hst.next hk) frames)
    · rw [hs] at he
      exact he.resume (.refl he.sound)

end

end Expr

/-- **Invoking a rule takes these steps**, if there is room for as many rules as the limit still
admits.  The induction is on that room. -/
theorem Setup.invoke_leads (s : Setup) (limit : Nat) :
    ∀ room depth : Nat, room = limit - depth → CallLeads s (some limit) depth (s.invoke room)
  | room, depth, hroom => by
    refine ⟨s.invoke_keeps room, fun q p st hst frames => ?_⟩
    by_cases hfatal : st.fatal = true
    · rw [Expr.evaluate_of_fatal hfatal]
      exact .step hst.sound (by rw [next?, if_pos hfatal]; rfl) (.refl hst.sound)
    refine .start hst.sound hfatal ?_
    have hkeeps := s.invoke_keeps room q p st hst.sound hst.place
    rw [Expr.evaluate, if_neg hfatal, invoke.eq_def] at hkeeps ⊢
    simp only [Setup.start, startRule]
    cases hm : st.memo? q p with
    | some memo =>
      rw [hm] at hkeeps
      cases memo <;> exact .refl hkeeps.sound
    | none =>
      rw [hm] at hkeeps
      cases room with
      | zero =>
        have hfull : full (some limit) st = true := by
          simp only [full, Option.any_some, hst.active, decide_eq_true_eq]
          omega
        simp only [hfull, if_true]
        exact .refl hkeeps.sound
      | succ room =>
        have hfull : full (some limit) st = false := by
          simp only [full, Option.any_some, hst.active, decide_eq_false_iff_not]
          omega
        simp only [hfull, Bool.false_eq_true, if_false]
        cases hf : s.grammar.find? q with
        | none => exact .refl hst.sound
        | some production =>
          have hcall := s.invoke_leads limit room (depth + 1) (by omega)
          have henter : (st.enter q p).Ready s (depth + 1) p :=
            ⟨hst.sound.congr rfl rfl rfl, by simp [State.enter, hst.active], hst.place⟩
          have hbody := Expr.evaluate_leads hcall production.body p (st.enter q p) henter
            (.rule q production p st.scratch.size :: frames)
          simp only [hf] at hkeeps ⊢
          rcases hs : production.body.evaluate s.tokens (s.invoke room) p (st.enter q p) with
            ⟨_ | stop, st'⟩ <;>
          · rw [hs] at hkeeps hbody
            exact hbody.resume (.refl hkeeps.sound)

/-! ## The rules at work -/

@[simp] theorem Moment.state_items (es : List Expr) (p height : Nat) (frames : List Frame)
    (st : State) : (items es p height frames st).state = st := by
  cases es <;> rfl

@[simp] theorem Moment.state_alternatives (es : List Expr) (p : Nat) (frames : List Frame)
    (st : State) : (alternatives es p frames st).state = st := by
  cases es <;> rfl

@[simp] theorem State.active_yield (st : State) (element? : Option Element) :
    (st.yield element?).active = st.active := by
  cases element? <;> rfl

theorem Frame.active_resume (frames : List Frame) (frame : Frame) (stop? : Option Nat) (st : State) :
    (frame.resume frames stop? st).state.active = st.active ∨
      (frame.resume frames stop? st).state.active = st.active.tail := by
  cases frame with
  | items rest height => cases stop? <;> simp [resume, State.truncate]
  | alternatives rest place => cases stop? <;> simp [resume]
  | option place => cases stop? <;> exact Or.inl rfl
  | turn body place | firstTurn body place =>
    cases stop? with
    | none => exact Or.inl rfl
    | some stop =>
      simp only [resume]
      split_ifs <;> exact Or.inl rfl
  | followedBy place height | notFollowedBy place height => cases stop? <;> exact Or.inl rfl
  | rule q production place height =>
    refine Or.inr ?_
    cases stop? with
    | none => rfl
    | some stop =>
      simp only [resume, State.active_yield, State.remember, State.finishNode]
      split_ifs <;> rfl

namespace Setup

/-- **What a step does to the rules at work**: it leaves them as they were, ends the innermost one,
or starts one, which needs room. -/
theorem active_next? (h : s.next? maxDepth? m = some m') :
    m'.state.active = m.state.active ∨ m'.state.active = m.state.active.tail ∨
      full maxDepth? m.state = false ∧ ∃ q, m'.state.active = q :: m.state.active := by
  rcases m with ⟨⟨e, p⟩ | stop?, frames, st⟩
  · simp only [next?, Option.some.injEq] at h
    subst h
    split_ifs
    · exact Or.inl rfl
    cases e with
    | token test =>
      refine Or.inl ?_
      simp only [start, Moment.answered, Terminal.evaluate]
      split
      · rfl
      · split_ifs <;> rfl
    | anyToken =>
      refine Or.inl ?_
      simp only [start, Moment.answered, evaluateAnyToken]
      split
      · split_ifs <;> rfl
      · rfl
    | rule q =>
      simp only [start, startRule]
      split
      · exact Or.inl (State.active_yield ..)
      · exact Or.inl rfl
      · split_ifs with hfull
        · exact Or.inl rfl
        · exact Or.inl rfl
        · split
          · exact Or.inl rfl
          · exact Or.inr (Or.inr ⟨by simpa using hfull, q, rfl⟩)
    | seq es => exact Or.inl (congrArg State.active (Moment.state_items ..))
    | choice es => exact Or.inl (congrArg State.active (Moment.state_alternatives ..))
    | option | star | plus | followedBy | notFollowedBy | epsilon | never => exact Or.inl rfl
  · cases frames with
    | nil => cases h
    | cons frame frames =>
      cases h
      exact (frame.active_resume frames stop? st).imp_right Or.inl

theorem length_active_next? (h : s.next? maxDepth? m = some m') :
    m'.state.active.length ≤ m.state.active.length + 1 := by
  rcases active_next? h with h | h | ⟨-, q, h⟩
  · rw [h]
    exact Nat.le_succ _
  · rw [h, List.length_tail]
    omega
  · exact Nat.le_of_eq (congrArg List.length h)

/-- **A step does not go beyond the limit.** -/
theorem next?_active_le (h : s.next? (some limit) m = some m')
    (hm : m.state.active.length ≤ max 1 limit) : m'.state.active.length ≤ max 1 limit := by
  rcases active_next? h with h | h | ⟨hfull, q, h⟩
  · rwa [h]
  · rw [h, List.length_tail]
    omega
  · simp only [full, Option.any_some, decide_eq_false_iff_not] at hfull
    rw [h, List.length_cons]
    omega

theorem after_active_le (h : s.after (some limit) n m = some m')
    (hm : m.state.active.length ≤ max 1 limit) : m'.state.active.length ≤ max 1 limit := by
  induction n generalizing m with
  | zero => cases h; exact hm
  | succ n ih =>
    obtain ⟨m₁, hnext, hrest⟩ := Option.bind_eq_some_iff.1 h
    exact ih hrest (next?_active_le hnext hm)

/-! ## Without a limit -/

theorem next?_limit (h : m.state.active.length < limit) :
    s.next? (some limit) m = s.next? none m := by
  have hfull : full (some limit) m.state = full none m.state := by
    simpa [full] using h
  rcases m with ⟨⟨e, p⟩ | stop?, frames, st⟩
  · cases e with
    | rule q => simp only [next?, start, startRule, hfull]
    | _ => rfl
  · cases frames <;> rfl

theorem after_limit (h : m.state.active.length + n ≤ limit) :
    s.after (some limit) n m = s.after none n m := by
  induction n generalizing m with
  | zero => rfl
  | succ n ih =>
    rw [after, after, next?_limit (by omega)]
    cases hnext : s.next? none m with
    | none => rfl
    | some m₁ =>
      have := length_active_next? hnext
      exact ih (by omega)

theorem exists_limit (s : Setup) (maxDepth? : Option Nat) (m : Moment) (n : Nat) :
    ∃ limit, s.after (some limit) n m = s.after maxDepth? n m := by
  cases maxDepth? with
  | none => exact ⟨_, after_limit (Nat.le_refl _)⟩
  | some limit => exact ⟨limit, rfl⟩

theorem after_eq_none {k : Nat} (h : s.after maxDepth? n m = some m')
    (hend : s.next? maxDepth? m' = none) (hk : n < k) : s.after maxDepth? k m = none := by
  obtain ⟨k, rfl⟩ : ∃ j, k = j + 1 := ⟨k - 1, by omega⟩
  induction n generalizing m k with
  | zero =>
    cases h
    rw [after, hend]
    rfl
  | succ n ih =>
    obtain ⟨m₁, hnext, hrest⟩ := Option.bind_eq_some_iff.1 h
    obtain ⟨k, rfl⟩ : ∃ j, k = j + 1 := ⟨k - 1, by omega⟩
    rw [after, hnext]
    exact ih hrest k (by omega)

theorem after_unique {k : Nat} (h : s.after maxDepth? n m = some m')
    (hend : s.next? maxDepth? m' = none) (h' : s.after maxDepth? k m = some m'')
    (hend' : s.next? maxDepth? m'' = none) : m' = m'' := by
  rcases Nat.lt_trichotomy n k with hlt | rfl | hlt
  · cases (after_eq_none h hend hlt).symm.trans h'
  · exact Option.some.inj (h.symm.trans h')
  · cases (after_eq_none h' hend' hlt).symm.trans h

/-- **Without a limit a parse may go on forever**: a rule that is its own body is never done. -/
theorem after_leftRecursive {root : Rule} {collapse : Bool}
    (hroot : s.grammar.find? root = some ⟨.rule root, collapse⟩) (n : Nat) :
    ∃ m, s.after none n (.initial root ⟨.rule root, collapse⟩) = some m := by
  -- the rule is started again and again, as no answer of it is ever kept
  have hforever : ∀ (n : Nat) (frames : List Frame) (st : State), st.fatal = false →
      st.memo? root 0 = none →
      ∃ m, s.after none n ⟨.evaluate (.rule root) 0, frames, st⟩ = some m := by
    intro n
    induction n with
    | zero => exact fun _ _ _ _ => ⟨_, rfl⟩
    | succ n ih =>
      intro frames st hfatal hmemo
      simp only [after, next?, hfatal, Bool.false_eq_true, if_false, start, startRule, hmemo, full,
        Option.any_none, hroot, Option.bind_some]
      exact ih _ (st.enter root 0) hfatal hmemo
  exact hforever n [] _ rfl (State.memo?_initial root 0)

end Setup

/-! ## A whole parse -/

theorem Setup.initial_leads (s : Setup) (root : Rule) (production : Production) (limit : Nat) :
    Leads s (some limit) (.initial root production) (.answered []
      (production.body.evaluate s.tokens (s.invoke (limit - 1)) 0 (State.initial.enter root 0))) :=
  Expr.evaluate_leads (s.invoke_leads limit (limit - 1) 1 rfl) production.body 0
    (State.initial.enter root 0) ⟨State.Sound.initial.congr rfl rfl rfl, rfl, Nat.zero_le _⟩ []

theorem Setup.sound_after {root : Rule} {production : Production}
    (h : s.after maxDepth? n (.initial root production) = some m) :
    m.state.Sound s.grammar s.tokens := by
  obtain ⟨limit, hlimit⟩ := s.exists_limit maxDepth? (.initial root production) n
  exact (s.initial_leads root production limit).sound_after rfl (hlimit.trans h)

namespace Grammar

variable {g : Grammar} {tokens : TokenStream} {root : Rule} {production : Production}

theorem limited_parse_cases (hroot : g.find? root = some production) (tokens : TokenStream)
    (limit : Nat) : (∃ r, g.parse tokens root (some limit) = .ok r) ∨
      g.parse tokens root (some limit) = .error .recursionLimit ∨
      ∃ diagnosis, g.parse tokens root (some limit) = .error (.recognition diagnosis) := by
  unfold parse
  simp only [hroot, Option.isSome_some, if_true]
  rcases g.evaluateRoot tokens root production (some limit) with ⟨_ | stop, st⟩
  · simp only
    split_ifs <;> simp
  · simp only
    split_ifs <;> simp

/-- **A parse with a limit ends.**  For every grammar, one whose rules wait for themselves included,
every stream, every root and every limit, whether rules that nest too deep are skipped or end the
parse: if the root has a body, evaluating it step by step comes to an end, which is what the parse
goes by, so that there is a tree, a diagnosis, or the limit was exceeded; and at no moment of the
run are more rules at work than the limit allows, the root apart. -/
theorem limited_parse_ends (g : Grammar) (tokens : TokenStream) (root : Rule) (limit : Nat) :
    (g.find? root = none ∧ g.parse tokens root (some limit) = .error (.undefinedRoot root)) ∨
    ∃ production, g.find? root = some production ∧
      (∃ n, (g.setup tokens root (some limit)).after (some limit) n (.initial root production) =
          some (.answered [] (g.evaluateRoot tokens root production (some limit))) ∧
        ∀ k, n < k →
          (g.setup tokens root (some limit)).after (some limit) k (.initial root production) =
            none) ∧
      (∀ n m, (g.setup tokens root (some limit)).after (some limit) n (.initial root production) =
          some m → m.state.active.length ≤ max 1 limit) ∧
      ((∃ r, g.parse tokens root (some limit) = .ok r) ∨
        g.parse tokens root (some limit) = .error .recursionLimit ∨
        ∃ diagnosis, g.parse tokens root (some limit) = .error (.recognition diagnosis)) := by
  cases hroot : g.find? root with
  | none =>
    refine Or.inl ⟨rfl, ?_⟩
    unfold parse
    simp only [hroot]
  | some production =>
    obtain ⟨n, hn⟩ := ((g.setup tokens root (some limit)).initial_leads root production
      limit).exists_after
    exact Or.inr ⟨production, rfl, ⟨n, hn, fun k hk => Setup.after_eq_none hn rfl hk⟩,
      fun n m h => Setup.after_active_le h (Nat.le_max_left 1 limit),
      limited_parse_cases hroot tokens limit⟩

end Grammar

end PackratCpp
