/-
  How often the body of a rule is looked at.

  * `State.Explores`: what is looked at from one state to another: rules in places where they had
    no answer before, each once, and each with an answer in the end.
  * `Grammar.Orderly`: no rule waits for itself, and none is looked at behind the end of input.
  * `Ahead`: where rules are looked at while another one is at work.
  * `Setup.invoke_explores`: a rule that is at work somewhere is not looked at there again.
  * `Grammar.standard_visits_once`: in every dialect, a parse comes to an end without a limit, and
    with any limit it looks at the body of a rule at most once in a place.
-/
import PackratCpp.Proofs.Agreement
import PackratCpp.Proofs.Standard

namespace PackratCpp

namespace State

/-- From the state `st` to the state `st'` the rule bodies `visits` are looked at, latest first,
all of them `inside`. -/
structure Explored (inside : Rule → Nat → Prop) (visits : List (Rule × Nat)) (st st' : State) :
    Prop where
  visits_eq : st'.visits = visits ++ st.visits
  nodup : visits.Nodup
  inside : ∀ q i, (q, i) ∈ visits → inside q i
  fresh : ∀ q i, (q, i) ∈ visits → st.memo? q i = none
  known : ∀ q i, (st'.memo? q i).isSome = true ↔ (st.memo? q i).isSome = true ∨ (q, i) ∈ visits
  size_eq : st'.memo.size = st.memo.size + visits.length

/-- From one state to the other the bodies of some rules are looked at. -/
def Explores (inside : Rule → Nat → Prop) (st st' : State) : Prop :=
  ∃ visits, Explored inside visits st st'

variable {inside inside' : Rule → Nat → Prop} {st st' st'' : State}

namespace Explores

theorem of_eq (hvisits : st'.visits = st.visits) (hmemo : st'.memo = st.memo) :
    Explores inside st st' := by
  refine ⟨[], hvisits, List.nodup_nil, ?_, ?_, ?_, by rw [hmemo]; rfl⟩
  · simp
  · simp
  · simp [memo?, hmemo]

theorem refl (st : State) : Explores inside st st :=
  of_eq rfl rfl

theorem trans (h : Explores inside st st') (h' : Explores inside st' st'') :
    Explores inside st st'' := by
  obtain ⟨visits, h⟩ := h
  obtain ⟨visits', h'⟩ := h'
  have hnew : ∀ q i, (q, i) ∈ visits' → st.memo? q i = none ∧ (q, i) ∉ visits := by
    intro q i hm
    have hnot : ¬ ((st.memo? q i).isSome = true ∨ (q, i) ∈ visits) := by
      rw [← h.known, h'.fresh q i hm]
      exact Bool.false_ne_true
    rw [not_or, Bool.not_eq_true, Option.isSome_eq_false_iff, Option.isNone_iff_eq_none] at hnot
    exact hnot
  refine ⟨visits' ++ visits, ?_, ?_, fun q i hm => ?_, fun q i hm => ?_, fun q i => ?_, ?_⟩
  · rw [h'.visits_eq, h.visits_eq, List.append_assoc]
  · exact List.nodup_append'.2 ⟨h'.nodup, h.nodup, fun x hx hx' => (hnew x.1 x.2 hx).2 hx'⟩
  · exact (List.mem_append.1 hm).elim (h'.inside q i) (h.inside q i)
  · exact (List.mem_append.1 hm).elim (fun hm => (hnew q i hm).1) (h.fresh q i)
  · rw [h'.known, h.known, List.mem_append, or_assoc, or_comm (a := (q, i) ∈ visits)]
  · rw [h'.size_eq, h.size_eq, List.length_append]
    omega

theorem yield (h : Explores inside st st') (element? : Option Element) :
    Explores inside st (st'.yield element?) := by
  cases element? with
  | none => exact h
  | some e => exact h.trans (of_eq rfl rfl)

/-- **Looking at the body of a rule and keeping its answer.**  If the rule is not looked at within
its own body, it is looked at once. -/
theorem visit {q : Rule} {i : Nat} {m : Memo} (h : Explores inside (st.enter q i) st')
    (hm : st.memo? q i = none) (hout : ¬ inside q i) (hq : inside' q i)
    (hsub : ∀ r j, inside r j → inside' r j)
    (hvisits : st''.visits = st'.visits) (hmemo : st''.memo = st'.memo) :
    Explores inside' st (st''.remember q i m) := by
  obtain ⟨visits, h⟩ := h
  have hnew : (q, i) ∉ visits := fun hmem => hout (h.inside q i hmem)
  have hnone : st''.memo? q i = none := by
    have hnot : ¬ (st'.memo? q i).isSome = true := by
      rw [h.known]
      exact not_or.2 ⟨by rw [show (st.enter q i).memo? q i = none from hm]; simp, hnew⟩
    simpa [memo?, hmemo] using hnot
  refine ⟨visits ++ [(q, i)], ?_, ?_, fun r j hr => ?_, fun r j hr => ?_, fun r j => ?_, ?_⟩
  · show st''.visits = _
    rw [hvisits, h.visits_eq, List.append_assoc]
    rfl
  · rw [List.nodup_append']
    exact ⟨h.nodup, List.nodup_singleton _, fun x hx hx' => hnew (List.mem_singleton.1 hx' ▸ hx)⟩
  · rcases List.mem_append.1 hr with hr | hr
    · exact hsub r j (h.inside r j hr)
    · cases List.mem_singleton.1 hr
      exact hq
  · rcases List.mem_append.1 hr with hr | hr
    · exact h.fresh r j hr
    · cases List.mem_singleton.1 hr
      exact hm
  · have hknown : (st''.memo? r j).isSome = true ↔
        (st.memo? r j).isSome = true ∨ (r, j) ∈ visits := by
      rw [← show (st.enter q i).memo? r j = st.memo? r j from rfl, ← h.known, memo?, hmemo]
      rfl
    rw [memo?_remember, List.mem_append, List.mem_singleton, Prod.mk.injEq]
    split_ifs with hrj
    · simp [hrj]
    · simp [hknown, hrj]
  · have hslot : st''.memo.contains (slot q i) = false := by
      rw [Std.TreeMap.contains_eq_isSome_getElem?, Option.isSome_eq_false_iff,
        Option.isNone_iff_eq_none]
      exact hnone
    show (st''.memo.insert (slot q i) m).size = _
    rw [Std.TreeMap.size_insert, if_neg (by simp [hslot]), hmemo, h.size_eq, List.length_append,
      List.length_singleton]
    rfl

end Explores

end State

/-! ## Orderly grammars -/

/-- Whether all rules that a task gets to without consuming anything are ranked below `n`. -/
def Task.startsBelow (empty : Rule → Bool) (rank : Rule → Nat) (n : Nat) : Task → Bool
  | .expr e | .turns e => e.startsBelow empty rank n
  | .items es => Expr.startBelowInTurn empty rank n es
  | .alternatives es => Expr.startBelow empty rank n es

/-- Whether no rule of a task comes behind something that may take the end of input. -/
def Task.callsEarly : Task → Bool
  | .expr e => e.callsEarly
  | .items es => Expr.callEarlyInTurn es
  | .alternatives es => Expr.callEarly es
  | .turns e => e.callsEarly && (e.sparesEof || e.within (fun _ => false))

/-- No rule waits for itself, only rules of `inside` are mentioned and these take no end of input,
and none of them is mentioned behind it. -/
structure Grammar.Orderly (g : Grammar) (inside empty : Rule → Bool) (rank : Rule → Nat) :
    Prop where
  ranked : g.Ranked empty rank
  parts : ∀ r production, g.find? r = some production → production.body.within inside = true
  spares : g.SparesEof inside
  early : ∀ r production, g.find? r = some production → production.body.callsEarly = true

/-- Where rules are looked at while a rule ranked `n` is at work at `p`: no further than the end of
input, and at `p` itself rules of a lower rank only. -/
def Ahead (tokens : TokenStream) (rank : Rule → Nat) (n p : Nat) (q : Rule) (i : Nat) : Prop :=
  p ≤ i ∧ i ≤ tokens.eofIndex ∧ (i = p → rank q < n)

/-- A task that comes up at `i` while a rule ranked `n` is at work at `p`. -/
structure Task.Due (tokens : TokenStream) (inside empty : Rule → Bool) (rank : Rule → Nat)
    (n p : Nat) (t : Task) (i : Nat) : Prop where
  place : p ≤ i
  length : i ≤ tokens.length
  starts : i = p → t.startsBelow empty rank n = true
  within : t.within inside = true
  early : t.callsEarly = true
  before : i ≤ tokens.eofIndex ∨ t.within (fun _ => false) = true

variable {g : Grammar} {tokens : TokenStream} {inside empty : Rule → Bool} {rank : Rule → Nat}
  {n p i : Nat}

namespace Task.Due

variable {q : Nat} {r : Rule} {trees : List Tree} {e : Expr} {es : List Expr}

theorem ahead (h : Due tokens inside empty rank n p (.expr (.rule r)) i) :
    Ahead tokens rank n p r i :=
  ⟨h.place, h.before.resolve_right Bool.false_ne_true, fun hi => of_decide_eq_true (h.starts hi)⟩

theorem part {t u : Task} (h : Due tokens inside empty rank n p t i)
    (hstarts : t.startsBelow empty rank n = true → u.startsBelow empty rank n = true)
    (hwithin : ∀ inside : Rule → Bool, t.within inside = true → u.within inside = true)
    (hearly : t.callsEarly = true → u.callsEarly = true) :
    Due tokens inside empty rank n p u i :=
  ⟨h.place, h.length, fun hi => hstarts (h.starts hi), hwithin _ h.within, hearly h.early,
    h.before.imp_right (hwithin _)⟩

theorem turn (h : Due tokens inside empty rank n p (.turns e) i) :
    Due tokens inside empty rank n p (.expr e) i :=
  h.part id (fun _ => id) fun he => (Bool.and_eq_true_iff.1 he).1

theorem item (h : Due tokens inside empty rank n p (.items (e :: es)) i) :
    Due tokens inside empty rank n p (.expr e) i :=
  h.part (fun hs => (Bool.and_eq_true_iff.1 hs).1) (fun _ hw => (Bool.and_eq_true_iff.1 hw).1)
    fun he => (Bool.and_eq_true_iff.1 (Bool.and_eq_true_iff.1 he).1).1

theorem alternative (h : Due tokens inside empty rank n p (.alternatives (e :: es)) i) :
    Due tokens inside empty rank n p (.expr e) i :=
  h.part (fun hs => (Bool.and_eq_true_iff.1 hs).1) (fun _ hw => (Bool.and_eq_true_iff.1 hw).1)
    fun he => (Bool.and_eq_true_iff.1 he).1

theorem alternatives (h : Due tokens inside empty rank n p (.alternatives (e :: es)) i) :
    Due tokens inside empty rank n p (.alternatives es) i :=
  h.part (fun hs => (Bool.and_eq_true_iff.1 hs).2) (fun _ hw => (Bool.and_eq_true_iff.1 hw).2)
    fun he => (Bool.and_eq_true_iff.1 he).2

theorem before_next (hg : g.Orderly inside empty rank) {rest : Task}
    (hy : Yields g tokens (.expr e) i q trees) (hw : e.within inside = true)
    (hspares : e.sparesEof = true ∨ rest.within (fun _ => false) = true)
    (hbefore : i ≤ tokens.eofIndex ∨ rest.within (fun _ => false) = true) :
    q ≤ tokens.eofIndex ∨ rest.within (fun _ => false) = true := by
  rcases hspares with hs | hnone
  · exact hbefore.imp_left (hy.le_eofIndex (fun _ _ _ => hg.parts _ _) hg.spares hw hs)
  · exact Or.inr hnone

theorem nextTurn (hg : g.Orderly inside empty rank)
    (h : Due tokens inside empty rank n p (.turns e) i)
    (hy : Yields g tokens (.expr e) i q trees) :
    Due tokens inside empty rank n p (.turns e) q := by
  have hle := hy.le
  have hplace := h.place
  refine ⟨by omega, hy.le_length h.length, fun hq => h.starts (by omega), h.within, h.early, ?_⟩
  exact before_next hg hy h.within (Bool.or_eq_true_iff.1 (Bool.and_eq_true_iff.1 h.early).2)
    h.before

theorem nextItem (hg : g.Orderly inside empty rank)
    (h : Due tokens inside empty rank n p (.items (e :: es)) i)
    (hy : Yields g tokens (.expr e) i q trees) :
    Due tokens inside empty rank n p (.items es) q := by
  have hle := hy.le
  have hplace := h.place
  obtain ⟨hwithin, hrest⟩ := Task.within_items.1 h.within
  obtain ⟨hcalls, hearly⟩ := Bool.and_eq_true_iff.1 h.early
  refine ⟨by omega, hy.le_length h.length, fun hq => ?_, hrest, hearly, ?_⟩
  · obtain ⟨-, hstarts⟩ := Bool.and_eq_true_iff.1 (h.starts (by omega))
    have hempty : e.mayBeEmpty empty = true :=
      (hy.lt_or_mayBeEmpty hg.ranked.empty_of).resolve_left (by omega)
    rw [hempty] at hstarts
    exact hstarts
  · exact before_next hg hy hwithin (Bool.or_eq_true_iff.1 (Bool.and_eq_true_iff.1 hcalls).2)
      (h.before.imp_right fun hnone => (Task.within_items.1 hnone).2)

end Task.Due

/-! ## Evaluation -/

/-- What has to be known of the rules that an expression mentions. -/
structure CallExplores (g : Grammar) (tokens : TokenStream) (rank : Rule → Nat) (n p : Nat)
    (call : RuleCall) : Prop where
  keeps : CallKeeps g tokens call
  explores : ∀ q i st, st.Sound g tokens → Ahead tokens rank n p q i →
    State.Explores (Ahead tokens rank n p) st ((Expr.rule q).evaluate tokens call i st).2

open State

theorem Terminal.evaluate_explores {R : Rule → Nat → Prop} (test : Terminal) (i : Nat)
    (st : State) : Explores R st (test.evaluate tokens i st).2 := by
  unfold Terminal.evaluate
  cases tokens.get? i with
  | none => exact .refl st
  | some t =>
    simp only
    split_ifs <;> exact .of_eq rfl rfl

theorem evaluateAnyToken_explores {R : Rule → Nat → Prop} (i : Nat) (st : State) :
    Explores R st (evaluateAnyToken tokens i st).2 := by
  unfold evaluateAnyToken
  cases tokens.get? i with
  | none => exact .of_eq rfl rfl
  | some t =>
    simp only
    split_ifs <;> exact .of_eq rfl rfl

/-- The turns of a repetition. -/
theorem repeatStep_explores (hg : g.Orderly inside empty rank) {e : Expr}
    {step : Nat → State → Option Nat × State}
    (hstepKeeps : ∀ i st, st.Sound g tokens → i ≤ tokens.length →
      Keeps g tokens (.expr e) i st (step i st))
    (hstep : ∀ i st, st.Sound g tokens → Task.Due tokens inside empty rank n p (.expr e) i →
      Explores (Ahead tokens rank n p) st (step i st).2) :
    ∀ (turns i : Nat) (st : State), st.Sound g tokens →
      Task.Due tokens inside empty rank n p (.turns e) i →
      Explores (Ahead tokens rank n p) st (repeatStep step turns i st).2
  | 0, i, st, _, _ => .refl st
  | turns + 1, i, st, hst, hdue => by
    have hk := hstepKeeps i st hst hdue.length
    have he := hstep i st hst hdue.turn
    rcases hs : step i st with ⟨stop?, st'⟩
    rw [hs] at hk he
    simp only [repeatStep, hs]
    cases stop? with
    | none => exact he
    | some stop =>
      simp only
      split_ifs with hstop
      · exact he
      · have hnext := hdue.nextTurn hg (hk.yields stop rfl)
        exact he.trans (repeatStep_explores hg hstepKeeps hstep turns stop st' hk.sound hnext)

namespace Expr

variable {call : RuleCall}

mutual

theorem evaluate_explores (hg : g.Orderly inside empty rank)
    (hcall : CallExplores g tokens rank n p call) :
    ∀ (e : Expr) (i : Nat) (st : State), st.Sound g tokens →
      Task.Due tokens inside empty rank n p (.expr e) i →
      Explores (Ahead tokens rank n p) st (e.evaluate tokens call i st).2
  | e, i, st, hst, hdue => by
    by_cases hfatal : st.fatal = true
    · rw [evaluate_of_fatal hfatal]
      exact .refl st
    cases e with
    | token test =>
      rw [evaluate, if_neg hfatal]
      exact test.evaluate_explores i st
    | anyToken =>
      rw [evaluate, if_neg hfatal]
      exact evaluateAnyToken_explores i st
    | rule q => exact hcall.explores q i st hst hdue.ahead
    | seq es =>
      have hes := evaluateSeq_explores hg hcall es i st hst (hdue.part id (fun _ => id) id)
      rw [evaluate, if_neg hfatal]
      rcases hs : evaluateSeq tokens call es i st with ⟨stop?, st'⟩
      rw [hs] at hes
      cases stop? with
      | none => exact hes.trans (.of_eq rfl rfl)
      | some stop => exact hes
    | choice es =>
      rw [evaluate, if_neg hfatal]
      exact evaluateChoice_explores hg hcall es i st hst (hdue.part id (fun _ => id) id)
    | option e =>
      have he := evaluate_explores hg hcall e i st hst (hdue.part id (fun _ => id) id)
      rw [evaluate, if_neg hfatal]
      rcases hs : evaluate tokens call e i st with ⟨stop?, st'⟩
      rw [hs] at he
      cases stop? <;> exact he
    | star e =>
      rw [evaluate, if_neg hfatal]
      exact repeatStep_explores hg (evaluate_keeps hcall.keeps e) (evaluate_explores hg hcall e) _ i
        st hst (hdue.part id (fun _ => id) id)
    | plus e =>
      have hturns : Task.Due tokens inside empty rank n p (.turns e) i :=
        hdue.part id (fun _ => id) id
      have hk := evaluate_keeps hcall.keeps e i st hst hdue.length
      have he := evaluate_explores hg hcall e i st hst hturns.turn
      rw [evaluate, if_neg hfatal]
      rcases hs : evaluate tokens call e i st with ⟨stop?, st'⟩
      rw [hs] at hk he
      cases stop? with
      | none => exact he
      | some q =>
        simp only
        split_ifs with hq
        · exact he
        · exact he.trans (repeatStep_explores hg (evaluate_keeps hcall.keeps e)
            (evaluate_explores hg hcall e) _ q st' hk.sound (hturns.nextTurn hg (hk.yields q rfl)))
    | followedBy e | notFollowedBy e =>
      have he := evaluate_explores hg hcall e i st hst (hdue.part id (fun _ => id) id)
      rw [evaluate, if_neg hfatal]
      rcases hs : evaluate tokens call e i st with ⟨stop?, st'⟩
      rw [hs] at he
      cases stop? <;> exact he.trans (.of_eq rfl rfl)
    | epsilon | never =>
      rw [evaluate, if_neg hfatal]
      exact .refl st

theorem evaluateSeq_explores (hg : g.Orderly inside empty rank)
    (hcall : CallExplores g tokens rank n p call) :
    ∀ (es : List Expr) (i : Nat) (st : State), st.Sound g tokens →
      Task.Due tokens inside empty rank n p (.items es) i →
      Explores (Ahead tokens rank n p) st (evaluateSeq tokens call es i st).2
  | [], i, st, _, _ => .refl st
  | e :: es, i, st, hst, hdue => by
    have hk := evaluate_keeps hcall.keeps e i st hst hdue.length
    have he := evaluate_explores hg hcall e i st hst hdue.item
    rw [evaluateSeq]
    rcases hs : evaluate tokens call e i st with ⟨stop?, st'⟩
    rw [hs] at hk he
    cases stop? with
    | none => exact he
    | some q =>
      exact he.trans (evaluateSeq_explores hg hcall es q st' hk.sound
        (hdue.nextItem hg (hk.yields q rfl)))

theorem evaluateChoice_explores (hg : g.Orderly inside empty rank)
    (hcall : CallExplores g tokens rank n p call) :
    ∀ (es : List Expr) (i : Nat) (st : State), st.Sound g tokens →
      Task.Due tokens inside empty rank n p (.alternatives es) i →
      Explores (Ahead tokens rank n p) st (evaluateChoice tokens call es i st).2
  | [], i, st, _, _ => .refl st
  | e :: es, i, st, hst, hdue => by
    have hk := evaluate_keeps hcall.keeps e i st hst hdue.length
    have he := evaluate_explores hg hcall e i st hst hdue.alternative
    rw [evaluateChoice]
    rcases hs : evaluate tokens call e i st with ⟨stop?, st'⟩
    rw [hs] at hk he
    cases stop? with
    | some stop => exact he
    | none => exact he.trans (evaluateChoice_explores hg hcall es i st' hk.sound hdue.alternatives)

end

end Expr

theorem Ahead.mono {q : Rule} (hq : Ahead tokens rank n p q i) {r : Rule} {j : Nat}
    (hr : Ahead tokens rank (rank q) i r j) : Ahead tokens rank n p r j := by
  obtain ⟨hp, -, hrank⟩ := hq
  obtain ⟨hi, hj, hrank'⟩ := hr
  refine ⟨Nat.le_trans hp hi, hj, fun h => ?_⟩
  have hlow := hrank' (by omega)
  have hlow' := hrank (by omega)
  omega

theorem not_ahead (tokens : TokenStream) (rank : Rule → Nat) (q : Rule) (i : Nat) :
    ¬ Ahead tokens rank (rank q) i q i :=
  fun h => Nat.lt_irrefl _ (h.2.2 rfl)

theorem Grammar.Orderly.due_body (hg : g.Orderly inside empty rank) {q : Rule}
    {production : Production} (hf : g.find? q = some production) (hi : i ≤ tokens.eofIndex) :
    Task.Due tokens inside empty rank (rank q) i (.expr production.body) i where
  place := Nat.le_refl i
  length := Nat.le_trans hi (Nat.le_of_lt tokens.eofIndex_lt_length)
  starts _ := hg.ranked.starts_below q production hf
  within := hg.parts q production hf
  early := hg.early q production hf
  before := Or.inl hi

/-- **A rule that is at work somewhere is not looked at there again**, at any depth and whether
the parse has been given up or not.  The induction is on the room that is left. -/
theorem Setup.invoke_explores (s : Setup) (hg : s.grammar.Orderly inside empty rank) :
    ∀ room n p : Nat, CallExplores s.grammar s.tokens rank n p (s.invoke room)
  | room, n, p => by
    refine ⟨s.invoke_keeps room, fun q i st hst hahead => ?_⟩
    by_cases hfatal : st.fatal = true
    · rw [Expr.evaluate_of_fatal hfatal]
      exact .refl st
    rw [Expr.evaluate, if_neg hfatal, invoke.eq_def]
    cases hm : st.memo? q i with
    | some memo =>
      cases memo with
      | failed => exact .of_eq rfl rfl
      | matched stop element? =>
        have hhit : Explores (Ahead s.tokens rank n p) st st.hit := .of_eq rfl rfl
        exact hhit.yield element?
    | none =>
      cases room with
      | zero => cases s.skipping <;> exact .of_eq rfl rfl
      | succ room =>
        cases hf : s.grammar.find? q with
        | none => exact .refl st
        | some production =>
          have hcall := s.invoke_explores hg room (rank q) i
          have hsound : (st.enter q i).Sound s.grammar s.tokens := hst.congr rfl rfl rfl
          have hbody := Expr.evaluate_explores hg hcall production.body i (st.enter q i) hsound
            (hg.due_body hf hahead.2.1)
          have hk := Expr.evaluate_keeps hcall.keeps production.body i (st.enter q i) hsound
            (Nat.le_trans hahead.2.1 (Nat.le_of_lt s.tokens.eofIndex_lt_length))
          simp only
          rcases hs : production.body.evaluate s.tokens (s.invoke room) i (st.enter q i) with
            ⟨stop?, st'⟩
          rw [hs] at hbody hk
          have hvisit : ∀ {st'' : State} {m : Memo}, st''.visits = st'.visits →
              st''.memo = st'.memo →
              Explores (Ahead s.tokens rank n p) st (st''.remember q i m) := fun hvisits hmemo =>
            hbody.visit hm (not_ahead _ _ _ _) hahead (fun _ _ => hahead.mono) hvisits hmemo
          cases stop? with
          | none => exact hvisit rfl rfl
          | some stop =>
            obtain ⟨element?, arena, hnode, -⟩ :=
              (hk.sound.congr rfl rfl rfl : st'.leave.Sound s.grammar s.tokens).finishNode
                production q i stop st.scratch.size false
            simp only [hnode]
            refine Explores.yield ?_ element?
            exact hvisit rfl rfl

/-! ## A whole parse -/

theorem length_le_of_nodup {visits : List (Rule × Nat)} (h : visits.Nodup) {n : Nat}
    (hlt : ∀ x ∈ visits, x.2 < n) : visits.length ≤ Rule.count * n := by
  have hslots : (visits.map fun x => State.slot x.1 x.2).Nodup :=
    h.map fun _ _ hxy => Prod.ext_iff.2 (State.slot_injective hxy)
  have hsub : (visits.map fun x => State.slot x.1 x.2) ⊆ List.range (Rule.count * n) := by
    intro k hk
    obtain ⟨⟨r, i⟩, hx, rfl⟩ := List.mem_map.1 hk
    have hindex := r.index_lt_count
    have hi : i + 1 ≤ n := hlt _ hx
    rw [List.mem_range, State.slot]
    calc i * Rule.count + r.index < i * Rule.count + Rule.count := Nat.add_lt_add_left hindex _
      _ = Rule.count * (i + 1) := by rw [Nat.mul_comm, Nat.mul_succ]
      _ ≤ Rule.count * n := Nat.mul_le_mul_left _ hi
  have hlen := (List.subperm_of_subset hslots hsub).length_le
  rwa [List.length_map, List.length_range] at hlen

variable {root : Rule} {production : Production}

theorem State.finishNode_counts (st : State) (p : Production) (rule : Rule)
    (start stop height : Nat) (isRoot : Bool) :
    (st.finishNode p rule start stop height isRoot).2.visits = st.visits ∧
      (st.finishNode p rule start stop height isRoot).2.memo = st.memo ∧
      (st.finishNode p rule start stop height isRoot).2.hits = st.hits ∧
      (st.finishNode p rule start stop height isRoot).2.refusals = st.refusals := by
  unfold finishNode
  split_ifs <;> exact ⟨rfl, rfl, rfl, rfl⟩

theorem Grammar.counts_of_parse {maxDepth? : Option Nat} {r : Parse}
    (hroot : g.find? root = some production) (hr : g.parse tokens root maxDepth? = .ok r) :
    r.evaluations = (g.evaluateRoot tokens root production maxDepth?).2.visits.length ∧
      r.entries = (g.evaluateRoot tokens root production maxDepth?).2.memo.size ∧
      r.hits = (g.evaluateRoot tokens root production maxDepth?).2.hits ∧
      r.refusals = (g.evaluateRoot tokens root production maxDepth?).2.refusals := by
  rcases he : g.evaluateRoot tokens root production maxDepth? with ⟨stop?, st⟩
  unfold parse at hr
  cases stop? with
  | none =>
    simp only [hroot, he] at hr
    split_ifs at hr
  | some stop =>
    simp only [hroot, he] at hr
    split_ifs at hr
    obtain ⟨hvisits, hmemo, hhits, hrefusals⟩ :=
      st.leave.finishNode_counts production root 0 stop 0 true
    cases hr
    exact ⟨congrArg List.length hvisits, congrArg Std.TreeMap.size hmemo, hhits, hrefusals⟩

namespace Grammar.Orderly

/-- **In an orderly grammar no rule body is looked at twice in one place**, that of the root
included, nor behind the end of input; and every other one that is looked at has an answer in
the end. -/
theorem evaluateRoot_visits (hg : g.Orderly inside empty rank)
    (hroot : g.find? root = some production) (tokens : TokenStream) (maxDepth? : Option Nat) :
    (g.evaluateRoot tokens root production maxDepth?).2.visits.Nodup ∧
      (∀ x ∈ (g.evaluateRoot tokens root production maxDepth?).2.visits, x.2 < tokens.length) ∧
      (g.evaluateRoot tokens root production maxDepth?).2.visits.length =
        (g.evaluateRoot tokens root production maxDepth?).2.memo.size + 1 := by
  have hcall : CallExplores g tokens rank (rank root) 0
      ((g.setup tokens root maxDepth?).invoke (room tokens maxDepth?)) :=
    (g.setup tokens root maxDepth?).invoke_explores hg _ _ _
  obtain ⟨visits, h⟩ := Expr.evaluate_explores hg hcall production.body 0
    (State.initial.enter root 0) (State.Sound.initial.congr rfl rfl rfl)
    (hg.due_body hroot (Nat.zero_le _))
  have heq : (g.evaluateRoot tokens root production maxDepth?).2.visits =
      visits ++ [(root, 0)] := h.visits_eq
  have hsize : (g.evaluateRoot tokens root production maxDepth?).2.memo.size = visits.length := by
    refine h.size_eq.trans ?_
    show (∅ : Std.TreeMap Nat Memo).size + _ = _
    rw [Std.TreeMap.size_emptyc, Nat.zero_add]
  have hnot : (root, 0) ∉ visits := fun hm => not_ahead _ _ _ _ (h.inside root 0 hm)
  refine ⟨?_, fun x hx => ?_, by rw [heq, hsize, List.length_append]; rfl⟩
  · rw [heq, List.nodup_append']
    exact ⟨h.nodup, List.nodup_singleton _, fun x hx hx' => hnot (List.mem_singleton.1 hx' ▸ hx)⟩
  · rw [heq] at hx
    rcases List.mem_append.1 hx with hx | hx
    · exact Nat.lt_of_le_of_lt (h.inside x.1 x.2 hx).2.1 tokens.eofIndex_lt_length
    · rw [List.mem_singleton.1 hx]
      exact tokens.length_pos

end Grammar.Orderly

theorem Dialect.orderly (d : Dialect) (mocks : List Rule) :
    (d.grammar mocks).Orderly Rule.isPart Rule.mayBeEmpty Rule.startRank where
  ranked := d.ranked mocks
  parts r production hf := by
    rcases mem_rules_of_find? hf with rfl | hr
    · rfl
    · exact (rules_sound hr).parts
  spares r production hr hf := by
    rcases mem_rules_of_find? hf with rfl | hd
    · rfl
    · exact (rules_sound hd).spares hr
  early r production hf := by
    rcases mem_rules_of_find? hf with rfl | hr
    · rfl
    · exact (rules_sound hr).early

/-- **The grammar of every dialect needs no limit, and no rule body is looked at twice in one
place.**  Whatever is mocked and whatever the root, a parse without a limit refuses no rule:
there is a verdict on the root, which the parse finds or diagnoses.  With any limit, even one
that ends the parse, the rule bodies that are looked at are all different as pairs of a rule and
a place.  So a finished parse has looked at one more than it has answers in the end, the root,
and at no more than there are pairs of a rule and a token. -/
theorem Grammar.standard_visits_once (d : Dialect) (mocks : List Rule) (root : Rule)
    (tokens : TokenStream) :
    ∃ g production, Grammar.standard? d mocks = .ok g ∧ g.find? root = some production ∧
      ((g.evaluateRoot tokens root production none).2.Unrefused ∧
        (∃ v log, Derives g tokens root (.expr production.body) 0 v log) ∧
        ((∃ r, g.parse tokens root none = .ok r) ∨
          ∃ diagnosis, g.parse tokens root none = .error (.recognition diagnosis))) ∧
      ∀ maxDepth?, (g.evaluateRoot tokens root production maxDepth?).2.visits.Nodup ∧
        ∀ r, g.parse tokens root maxDepth? = .ok r →
          r.evaluations = (g.evaluateRoot tokens root production maxDepth?).2.visits.length ∧
          r.evaluations = r.entries + 1 ∧ r.evaluations ≤ Rule.count * tokens.length := by
  have hg := d.orderly mocks
  obtain ⟨production, hroot⟩ := d.exists_find? mocks root
  refine ⟨d.grammar mocks, production, Grammar.standard?_eq d mocks, hroot, ?_, fun maxDepth? => ?_⟩
  · have hverdict := hg.ranked.body_total hroot (Nat.zero_le tokens.length)
    have hrun := unlimited_unrefused_iff.2 hverdict
    refine ⟨hrun, hverdict, ?_⟩
    rcases parse_cases hroot hrun with ⟨r, hr, -⟩ | ⟨hd, -⟩
    · exact Or.inl ⟨r, hr⟩
    · exact Or.inr hd
  · obtain ⟨hnodup, hplaces, hsize⟩ := hg.evaluateRoot_visits hroot tokens maxDepth?
    refine ⟨hnodup, fun r hr => ?_⟩
    obtain ⟨hvisits, hentries, -⟩ := counts_of_parse hroot hr
    rw [hvisits, hentries]
    exact ⟨rfl, hsize, length_le_of_nodup hnodup hplaces⟩

end PackratCpp
