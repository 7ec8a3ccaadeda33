/-
  A limit that is not exceeded is not noticed.

  * `State.Admits st result result'`: if nothing has been refused by the end of `result`, nothing
    had been refused in `st` either, and `result'` is the same.
  * `Setup.invoke_admits`: so it is for two runs of which the second has at least as much room.
  * `Grammar.evaluateRoot_transparent`: a parse that refuses nothing goes on in the same way with
    any larger limit, and with none.
  * `Runs.refusals_eq`: a parse that does not skip what nests too deep is given up where it refuses.
  * `Grammar.limit_transparent`: a limit that is not exceeded changes nothing about a parse.
-/
import PackratCpp.Proofs.Forecast

namespace PackratCpp

/-! ## Runs with more room -/

/-- If `result` has refused nothing, nothing had been refused before, and `result'` is the same. -/
def State.Admits {α : Type} (st : State) (result result' : α × State) : Prop :=
  result.2.Unrefused → st.Unrefused ∧ result' = result

section
variable {tokens : TokenStream} {call call' : RuleCall}

open State

theorem State.Admits.refl {α : Type} {st st' : State} (h : st'.Unrefused → st.Unrefused) (a : α) :
    Admits st (a, st') (a, st') :=
  fun hrun => ⟨h hrun, rfl⟩

theorem Terminal.evaluate_admits (test : Terminal) (p : Nat) (st : State) :
    Admits st (test.evaluate tokens p st) (test.evaluate tokens p st) := by
  unfold evaluate
  cases tokens.get? p with
  | none => exact .refl id _
  | some t =>
    simp only
    split_ifs <;> exact .refl id _

theorem evaluateAnyToken_admits (p : Nat) (st : State) :
    Admits st (evaluateAnyToken tokens p st) (evaluateAnyToken tokens p st) := by
  unfold evaluateAnyToken
  cases tokens.get? p with
  | none => exact .refl id _
  | some t =>
    simp only
    split_ifs <;> exact .refl id _

theorem repeatStep_admits {step step' : Nat → State → Option Nat × State}
    (hstep : ∀ p st, Admits st (step p st) (step' p st)) :
    ∀ (turns p : Nat) (st : State),
      Admits st (repeatStep step turns p st) (repeatStep step' turns p st)
  | 0, p, st => .refl id _
  | turns + 1, p, st => by
    have he := hstep p st
    intro hrun
    simp only [repeatStep] at hrun ⊢
    rcases hs : step p st with ⟨_ | q, st'⟩
    · rw [hs] at he hrun
      obtain ⟨hst, heq⟩ := he hrun
      rw [heq]
      exact ⟨hst, rfl⟩
    · rw [hs] at he hrun
      simp only at hrun ⊢
      split_ifs at hrun ⊢ with hq
      · obtain ⟨hst, heq⟩ := he hrun
        rw [heq]
        simp only [hq, if_true, and_true]
        exact hst
      · obtain ⟨hst', hrest⟩ := repeatStep_admits hstep turns q st' hrun
        obtain ⟨hst, heq⟩ := he hst'
        rw [heq]
        simp only [hq, if_false]
        exact ⟨hst, hrest⟩

namespace Expr

mutual

theorem evaluate_admits (hcall : ∀ q p st, Admits st (call q p st) (call' q p st)) :
    ∀ (e : Expr) (p : Nat) (st : State),
      Admits st (e.evaluate tokens call p st) (e.evaluate tokens call' p st)
  | e, p, st => by
    by_cases hfatal : st.fatal = true
    · rw [evaluate_of_fatal hfatal, evaluate_of_fatal hfatal]
      exact .refl id _
    intro hrun
    cases e with
    | token test =>
      rw [evaluate, if_neg hfatal] at hrun ⊢
      rw [evaluate, if_neg hfatal]
      exact test.evaluate_admits p st hrun
    | anyToken =>
      rw [evaluate, if_neg hfatal] at hrun ⊢
      rw [evaluate, if_neg hfatal]
      exact evaluateAnyToken_admits p st hrun
    | rule r =>
      have hr := hcall r p st
      rw [evaluate, if_neg hfatal] at hrun ⊢
      rw [evaluate, if_neg hfatal]
      rcases hs : call r p st with ⟨_ | ⟨q, element?⟩, st'⟩
      · rw [hs] at hr hrun
        obtain ⟨hst, heq⟩ := hr hrun
        rw [heq]
        exact ⟨hst, rfl⟩
      · rw [hs] at hr hrun
        obtain ⟨hst, heq⟩ := hr (by cases element? <;> exact hrun)
        rw [heq]
        exact ⟨hst, rfl⟩
    | seq es =>
      have hes := evaluateSeq_admits hcall es p st
      rw [evaluate, if_neg hfatal] at hrun ⊢
      rw [evaluate, if_neg hfatal]
      rcases hs : evaluateSeq tokens call es p st with ⟨_ | q, st'⟩ <;>
      · rw [hs] at hes hrun
        obtain ⟨hst, heq⟩ := hes hrun
        rw [heq]
        exact ⟨hst, rfl⟩
    | choice es =>
      rw [evaluate, if_neg hfatal] at hrun ⊢
      rw [evaluate, if_neg hfatal]
      exact evaluateChoice_admits hcall es p st hrun
    | star e =>
      have hturns := repeatStep_admits (evaluate_admits hcall e) (tokens.length + 1 - p) p st
      rw [evaluate, if_neg hfatal] at hrun ⊢
      rw [evaluate, if_neg hfatal]
      obtain ⟨hst, heq⟩ := hturns hrun
      rw [heq]
      exact ⟨hst, rfl⟩
    | plus e =>
      have he := evaluate_admits hcall e p st
      rw [evaluate, if_neg hfatal] at hrun ⊢
      rw [evaluate, if_neg hfatal]
      rcases hs : evaluate tokens call e p st with ⟨_ | q, st'⟩
      · rw [hs] at he hrun
        obtain ⟨hst, heq⟩ := he hrun
        rw [heq]
        exact ⟨hst, rfl⟩
      · rw [hs] at he hrun
        simp only at hrun ⊢
        split_ifs at hrun ⊢ with hq
        · obtain ⟨hst, heq⟩ := he hrun
          rw [heq]
          simp only [hq, if_true, and_true]
          exact hst
        · obtain ⟨hst', hrest⟩ := repeatStep_admits (evaluate_admits hcall e) _ q st' hrun
          obtain ⟨hst, heq⟩ := he hst'
          rw [heq]
          simp only [hq, if_false, hrest]
          exact ⟨hst, trivial⟩
    | option e | followedBy e | notFollowedBy e =>
      have he := evaluate_admits hcall e p st
      rw [evaluate, if_neg hfatal] at hrun ⊢
      rw [evaluate, if_neg hfatal]
      rcases hs : evaluate tokens call e p st with ⟨_ | q, st'⟩ <;>
      · rw [hs] at he hrun
        obtain ⟨hst, heq⟩ := he hrun
        rw [heq]
        exact ⟨hst, rfl⟩
    | epsilon | never =>
      rw [evaluate, if_neg hfatal] at hrun ⊢
      rw [evaluate, if_neg hfatal]
      exact ⟨hrun, rfl⟩

theorem evaluateSeq_admits (hcall : ∀ q p st, Admits st (call q p st) (call' q p st)) :
    ∀ (es : List Expr) (p : Nat) (st : State),
      Admits st (evaluateSeq tokens call es p st) (evaluateSeq tokens call' es p st)
  | [], p, st => .refl id _
  | e :: es, p, st => by
    have he := evaluate_admits hcall e p st
    intro hrun
    rw [evaluateSeq] at hrun ⊢
    rw [evaluateSeq]
    rcases hs : evaluate tokens call e p st with ⟨_ | q, st'⟩
    · rw [hs] at he hrun
      obtain ⟨hst, heq⟩ := he hrun
      rw [heq]
      exact ⟨hst, rfl⟩
    · rw [hs] at he hrun
      obtain ⟨hst', hrest⟩ := evaluateSeq_admits hcall es q st' hrun
      obtain ⟨hst, heq⟩ := he hst'
      rw [heq]
      exact ⟨hst, hrest⟩

theorem evaluateChoice_admits (hcall : ∀ q p st, Admits st (call q p st) (call' q p st)) :
    ∀ (es : List Expr) (p : Nat) (st : State),
      Admits st (evaluateChoice tokens call es p st) (evaluateChoice tokens call' es p st)
  | [], p, st => .refl id _
  | e :: es, p, st => by
    have he := evaluate_admits hcall e p st
    intro hrun
    rw [evaluateChoice] at hrun ⊢
    rw [evaluateChoice]
    rcases hs : evaluate tokens call e p st with ⟨_ | q, st'⟩
    · rw [hs] at he hrun
      obtain ⟨hst', hrest⟩ := evaluateChoice_admits hcall es p st' hrun
      obtain ⟨hst, heq⟩ := he hst'
      rw [heq]
      exact ⟨hst, hrest⟩
    · rw [hs] at he hrun
      obtain ⟨hst, heq⟩ := he hrun
      rw [heq]
      exact ⟨hst, rfl⟩

end

end Expr

end

namespace State

@[simp] theorem unrefused_enter {st : State} {r : Rule} {p : Nat} :
    (st.enter r p).Unrefused ↔ st.Unrefused := Iff.rfl

@[simp] theorem unrefused_leave {st : State} : st.leave.Unrefused ↔ st.Unrefused := Iff.rfl

@[simp] theorem unrefused_hit {st : State} : st.hit.Unrefused ↔ st.Unrefused := Iff.rfl

@[simp] theorem unrefused_remember {st : State} {r : Rule} {p : Nat} {memo : Memo} :
    (st.remember r p memo).Unrefused ↔ st.Unrefused := Iff.rfl

@[simp] theorem unrefused_finishNode {st : State} {production : Production} {r : Rule}
    {start stop height : Nat} {isRoot : Bool} :
    (st.finishNode production r start stop height isRoot).2.Unrefused ↔ st.Unrefused := by
  unfold finishNode
  split_ifs <;> rfl

theorem not_unrefused_refuse (st : State) : ¬ st.refuse.Unrefused :=
  fun h => Nat.succ_ne_zero _ h.2

theorem not_unrefused_giveUp (st : State) : ¬ st.giveUp.Unrefused :=
  fun h => Bool.noConfusion h.1

end State

theorem Setup.invoke_of_memo? (s : Setup) (room : Nat) {r : Rule} {p : Nat} {st : State}
    {memo : Memo} (hm : st.memo? r p = some memo) :
    s.invoke room r p st = (memo.result, st.hit) := by
  cases room <;> simp only [invoke, hm]

/-- **More room changes nothing** about what a rule does, unless it refuses one. -/
theorem Setup.invoke_admits {g : Grammar} {tokens : TokenStream} (skipping skipping' : Bool)
    {room room' : Nat} (hroom : room ≤ room') (r : Rule) (p : Nat) (st : State) :
    st.Admits ((Setup.mk g tokens skipping).invoke room r p st)
      ((Setup.mk g tokens skipping').invoke room' r p st) := by
  cases hm : st.memo? r p with
  | some memo =>
    rw [invoke_of_memo? _ _ hm, invoke_of_memo? _ _ hm]
    exact .refl id _
  | none =>
    intro hrun
    match room, room' with
    | 0, _ =>
      simp only [invoke, hm] at hrun
      split_ifs at hrun
      · exact absurd hrun st.not_unrefused_refuse
      · exact absurd hrun st.not_unrefused_giveUp
    | room + 1, 0 => exact absurd hroom (Nat.not_succ_le_zero room)
    | room + 1, room' + 1 =>
      cases hf : g.find? r with
      | none =>
        simp only [invoke, hm, hf] at hrun ⊢
        exact ⟨hrun, trivial⟩
      | some production =>
        have hless : room ≤ room' := Nat.le_of_succ_le_succ hroom
        have hcall : ∀ q i st', State.Admits st' _ _ := fun q i st' =>
          @invoke_admits g tokens skipping skipping' room room' hless q i st'
        have hbody := @Expr.evaluate_admits tokens _ _ hcall production.body p (st.enter r p)
        simp only [invoke, hm, hf] at hrun ⊢
        rcases hs : production.body.evaluate tokens ((Setup.mk g tokens skipping).invoke room) p
          (st.enter r p) with ⟨_ | stop, st'⟩ <;>
        · rw [hs] at hbody hrun
          obtain ⟨hst, heq⟩ := hbody (by simpa using hrun)
          rw [heq]
          exact ⟨hst, rfl⟩

namespace Grammar

variable {g : Grammar} {tokens : TokenStream} {root : Rule} {production : Production}

/-- A limit that is at least as large as `limit`, or none. -/
def AtLeast (limit : Nat) : Option Nat → Prop
  | some limit' => limit ≤ limit'
  | none => True

theorem evaluateRoot_eq_of_room_le {maxDepth? maxDepth'? : Option Nat}
    (hrun : (g.evaluateRoot tokens root production maxDepth?).2.Unrefused)
    (hroom : room tokens maxDepth? ≤ room tokens maxDepth'?) :
    g.evaluateRoot tokens root production maxDepth'? =
      g.evaluateRoot tokens root production maxDepth? :=
  (Expr.evaluate_admits (fun r p st => Setup.invoke_admits _ _ hroom r p st) production.body 0 _
    hrun).2

/-- **A parse that refuses nothing** goes the same way with any larger limit, and with none. -/
theorem evaluateRoot_transparent {limit : Nat}
    (hrun : (g.evaluateRoot tokens root production (some limit)).2.Unrefused)
    {maxDepth? : Option Nat} (hlimit : AtLeast limit maxDepth?) :
    g.evaluateRoot tokens root production maxDepth? =
      g.evaluateRoot tokens root production (some limit) := by
  cases maxDepth? with
  | some limit' => exact evaluateRoot_eq_of_room_le hrun (Nat.sub_le_sub_right hlimit 1)
  | none =>
    -- Without a limit there may be less room, but then that is enough: there is a verdict.
    obtain ⟨-, v, log, -, hd, -⟩ := evaluateRoot_derives hrun
    have hfree := unlimited_unrefused_iff.2 ⟨v, log, hd⟩
    rcases Nat.le_total (room tokens (some limit)) (room tokens none) with h | h
    · exact evaluateRoot_eq_of_room_le hrun h
    · exact (evaluateRoot_eq_of_room_le hfree h).symm

end Grammar

/-! ## Parses that may be given up -/

/-- **A run that does not skip what nests too deep** is given up where it refuses a rule. -/
theorem Runs.refusals_eq {s : Setup} {room : Nat} {r : Rule} {t : Task} {p : Nat}
    {st st' : Findings} {o : Outcome} (h : Runs s room r t p st o st')
    (hskip : s.skipping = false) (ho : o ≠ .aborted) : st'.refusals = st.refusals := by
  induction h with
  | refused => rw [hskip] at ho; exact absurd rfl ho
  | ruleAbort => exact absurd rfl ho
  | ruleMatch _ _ _ ih | ruleFail _ _ _ ih | plusEmpty _ ih | turnsEmpty _ ih =>
    exact ih Outcome.noConfusion
  | seq _ ih | itemsStop _ _ ih | choice _ ih | alternativesTake _ _ ih | star _ ih
  | plusStop _ _ ih => exact ih ho
  | itemsNext _ _ ih₁ ih₂ | plusNext _ _ _ ih₁ ih₂ | turnsNext _ _ _ ih₁ ih₂ =>
    exact (ih₂ (mt Outcome.after_eq_aborted.2 ho)).trans (ih₁ Outcome.noConfusion)
  | alternativesNext _ _ ih₁ ih₂ => exact (ih₂ ho).trans (ih₁ Outcome.noConfusion)
  | option _ ih | turnsStop _ _ ih => exact ih (mt Outcome.orSkip_eq_aborted.2 ho)
  | followedBy _ ih => exact ih (mt Outcome.asAhead_eq_aborted.2 ho)
  | notFollowedBy _ ih => exact ih (mt Outcome.asNotAhead_eq_aborted.2 ho)
  | _ => rfl

namespace Grammar

variable {g : Grammar} {tokens : TokenStream} {root : Rule} {production : Production} {limit : Nat}

theorem unrefused_of_parse (hroot : g.find? root = some production)
    (hskip : g.skipsTooDeep root (some limit) = false)
    (hparse : g.parse tokens root (some limit) ≠ .error .recursionLimit) :
    (g.evaluateRoot tokens root production (some limit)).2.Unrefused := by
  have hfatal : (g.evaluateRoot tokens root production (some limit)).2.fatal = false := by
    by_contra hfatal
    exact hparse (parse_of_fatal hroot (Bool.eq_true_of_not_eq_false hfatal))
  exact ⟨hfatal, (evaluateRoot_runs hfatal).refusals_eq hskip (rootOutcome_ne_aborted _)⟩

theorem not_fatal_of_skips (hskip : g.skipsTooDeep root (some limit) = true) :
    (g.evaluateRoot tokens root production (some limit)).2.fatal = false := by
  have h := g.evaluateRoot_follows tokens root production (some limit)
  generalize g.evaluateRoot tokens root production (some limit) = result at h ⊢
  cases h with
  | matched hfatal | failed hfatal => exact hfatal
  | aborted _ hr => exact absurd rfl (hr.ne_aborted hskip)

theorem parse_eq_of_unrefused (hroot : g.find? root = some production)
    (hrun : (g.evaluateRoot tokens root production (some limit)).2.Unrefused)
    {maxDepth? : Option Nat} (hlimit : AtLeast limit maxDepth?) :
    g.parse tokens root maxDepth? = g.parse tokens root (some limit) := by
  have heq := evaluateRoot_transparent hrun hlimit
  have hfatal : (g.evaluateRoot tokens root production (some limit)).2.leave.fatal = false := hrun.1
  unfold parse
  simp only [hroot, heq, hfatal, Bool.false_eq_true, if_false]

theorem parse_eq_unlimited (hroot : g.find? root = some production) {v : Verdict}
    {log : List Attempt} (hd : Derives g tokens root (.expr production.body) 0 v log)
    (hlimit : Rule.count * (tokens.length + 1) < limit) :
    g.parse tokens root (some limit) = g.parse tokens root none := by
  have hnone : AtLeast limit none := trivial
  exact (parse_eq_of_unrefused hroot
    (unrefused_of_derives hd (Nat.le_sub_one_of_lt hlimit)) hnone).symm

/-- **A limit on depth is not noticed until it is exceeded.**  Where a parse does not skip what
nests too deep, and does not end at the limit, it has the same result with any larger limit and
with none.  Where it does skip, so it is if it refuses no rule. -/
theorem limit_transparent (g : Grammar) (tokens : TokenStream) (root : Rule) (limit : Nat) :
    ((g.dialect.errorRecovery = false ∨ root ≠ .translationUnit) →
      g.parse tokens root (some limit) ≠ .error .recursionLimit →
      ∀ maxDepth?, AtLeast limit maxDepth? →
        g.parse tokens root maxDepth? = g.parse tokens root (some limit)) ∧
    (g.dialect.errorRecovery = true → root = .translationUnit →
      (∀ production, g.find? root = some production →
        (g.evaluateRoot tokens root production (some limit)).2.refusals = 0) →
      ∀ maxDepth?, AtLeast limit maxDepth? →
        g.parse tokens root maxDepth? = g.parse tokens root (some limit)) := by
  cases hroot : g.find? root with
  | none =>
    have hparse : ∀ maxDepth?, g.parse tokens root maxDepth? = .error (.undefinedRoot root) := by
      intro maxDepth?
      unfold parse
      rw [hroot]
    simp only [hparse, implies_true, and_self]
  | some production =>
    constructor
    · intro hmode hparse maxDepth? hlimit
      have hskip : g.skipsTooDeep root (some limit) = false := by
        rcases hmode with h | h <;> simp [skipsTooDeep, h]
      exact parse_eq_of_unrefused hroot (unrefused_of_parse hroot hskip hparse) hlimit
    · intro hrecovery hunit hrefusals maxDepth? hlimit
      have hskip : g.skipsTooDeep root (some limit) = true := by
        simp [skipsTooDeep, hrecovery, hunit]
      exact parse_eq_of_unrefused hroot ⟨not_fatal_of_skips hskip, hrefusals production rfl⟩ hlimit

/-- A function `x` with a parameter that has no type, or a variable `y` of type `x`. -/
def ambiguousDeclaration : TokenStream :=
  .terminated [⟨.keyword, "int", 1, 1, 0⟩, ⟨.identifier, "x", 1, 5, 4⟩,
    ⟨.punctuator, "(", 1, 6, 5⟩, ⟨.identifier, "y", 1, 7, 6⟩, ⟨.punctuator, ")", 1, 8, 7⟩,
    ⟨.punctuator, ";", 1, 9, 8⟩] ⟨.eof, "", 1, 10, 9⟩

/-- It is read alike with a limit of 2500, with one of 5000 and without one, as a declaration and as a
translation unit with recovery. -/
theorem limit_transparent_declaration :
    ∃ g, standard? .standard [] = .ok g ∧
      (∃ r, g.parse ambiguousDeclaration .declaration (some 2500) = .ok r) ∧
      g.parse ambiguousDeclaration .declaration (some 2500) ≠ .error .recursionLimit ∧
      g.parse ambiguousDeclaration .declaration none =
        g.parse ambiguousDeclaration .declaration (some 2500) ∧
      (∀ production, g.find? .translationUnit = some production →
        (g.evaluateRoot ambiguousDeclaration .translationUnit production (some 2500)).2.refusals =
          0) ∧
      g.parse ambiguousDeclaration .translationUnit (some 5000) =
        g.parse ambiguousDeclaration .translationUnit (some 2500) := by
  have htotal : ∀ root production, (Dialect.standard.grammar []).find? root = some production →
      ∃ v log, Derives (Dialect.standard.grammar []) ambiguousDeclaration root
        (.expr production.body) 0 v log :=
    fun root production hf => (Dialect.standard.ranked []).body_total hf (Nat.zero_le _)
  have hforecast : (Dialect.standard.forecast ambiguousDeclaration .declaration).map (·.isSome) =
      some true := by decide +kernel
  obtain ⟨_, hforecast⟩ := Dialect.exists_forecast hforecast
  obtain ⟨r, hr, -⟩ := Dialect.parse_of_forecast hforecast
  obtain ⟨production, hroot⟩ := Dialect.standard.exists_find? [] .declaration
  obtain ⟨v, log, hd⟩ := htotal _ _ hroot
  have hread : (Dialect.standard.grammar []).parse ambiguousDeclaration .declaration (some 2500) =
      .ok r := by
    rw [parse_eq_unlimited hroot hd (by decide), hr]
  have hparse : (Dialect.standard.grammar []).parse ambiguousDeclaration .declaration (some 2500) ≠
      .error .recursionLimit := by
    rw [hread]
    simp only [ne_eq, reduceCtorEq, not_false_eq_true]
  have hrefusals : ∀ production, (Dialect.standard.grammar []).find? .translationUnit =
      some production → ((Dialect.standard.grammar []).evaluateRoot ambiguousDeclaration
        .translationUnit production (some 2500)).2.refusals = 0 := by
    intro production hf
    obtain ⟨v, log, hd⟩ := htotal _ _ hf
    have hrun : ((Dialect.standard.grammar []).evaluateRoot ambiguousDeclaration .translationUnit
      production (some 2500)).2.Unrefused := unrefused_of_derives hd (by decide)
    exact hrun.2
  exact ⟨_, standard?_eq _ _, ⟨r, hread⟩, hparse,
    (limit_transparent _ ambiguousDeclaration .declaration 2500).1 (Or.inr (by decide)) hparse none
      trivial, hrefusals,
    (limit_transparent _ ambiguousDeclaration .translationUnit 2500).2 rfl rfl hrefusals (some 5000)
      (by decide : 2500 ≤ 5000)⟩

end Grammar

end PackratCpp
