/-
  Putting a table of rules together.

  * `Expr.mentions`, `Expr.find?_references`: the rules that an expression mentions from left to
    right; the list without repetitions keeps their order.
  * `GrammarStep.FirstRepeat`, `RuleTable.head?_duplicates`: the first step that gives a body to a
    rule that is registered already is the duplicate that is found.
  * `RuleTable.map_fst_entries`: rules stand in the order of their first registration.
  * `GrammarStep.Dangles`, `RuleTable.firstUndefined?_eq_some`: the first mention of a rule that is
    not registered.
  * `RuleTable.finish?_spec`: what the check of a table finds, for every list of steps.
  * `Setup.invokeElse`, `Grammar.evaluateRootElse_eq`: in a table that passes its check a parse
    never comes to a rule without a body.
-/
import PackratCpp.Proofs.Diagnosis
import PackratCpp.Proofs.Reachable

namespace PackratCpp

/-! ## Mentions from left to right -/

namespace Expr

mutual

/-- The rules that an expression mentions, from left to right, as often as it mentions them. -/
def mentions : Expr → List Rule
  | .rule r => [r]
  | .seq items => allMentions items
  | .choice alternatives => allMentions alternatives
  | .option body | .star body | .plus body | .followedBy body | .notFollowedBy body =>
    mentions body
  | .token _ | .anyToken | .epsilon | .never => []

/-- The rules that some expressions mention, from left to right. -/
def allMentions : List Expr → List Rule
  | [] => []
  | e :: es => mentions e ++ allMentions es

end

mutual

theorem find?_addReferences (test : Rule → Bool) (seen : List Rule) :
    ∀ e : Expr, (addReferences seen e).find? test = (seen ++ e.mentions).find? test
  | .rule r => by
    rw [addReferences, mentions]
    split_ifs with hr
    · rw [List.find?_append]
      cases hseen : seen.find? test with
      | some s => rfl
      | none =>
        have hrt : test r = false := by simpa using List.find?_eq_none.1 hseen r hr
        simp [hrt]
    · rfl
  | .seq es | .choice es => by
    rw [addReferences, mentions]
    exact find?_addReferencesAll test seen es
  | .option e | .star e | .plus e | .followedBy e | .notFollowedBy e => by
    rw [addReferences, mentions]
    exact find?_addReferences test seen e
  | .token _ | .anyToken | .epsilon | .never => by
    rw [addReferences, mentions, List.append_nil]

theorem find?_addReferencesAll (test : Rule → Bool) (seen : List Rule) :
    ∀ es : List Expr, (addReferencesAll seen es).find? test = (seen ++ allMentions es).find? test
  | [] => by rw [addReferencesAll, allMentions, List.append_nil]
  | e :: es => by
    rw [addReferencesAll, allMentions, find?_addReferencesAll test _ es, List.find?_append,
      find?_addReferences test seen e, ← List.find?_append, List.append_assoc]

end

/-- **The first of the rules that are listed is the one that is mentioned first.** -/
theorem find?_references (test : Rule → Bool) (e : Expr) :
    e.references.find? test = e.mentions.find? test :=
  find?_addReferences test [] e

end Expr

/-! ## What some steps say -/

namespace GrammarStep

/-- The rules that some steps register, in the order of their first registration. -/
def registered (steps : List GrammarStep) : List Rule :=
  (steps.map (·.subject)).eraseDups

/-- No step gives a body to a rule that a step before it registers. -/
def NoRepeats (steps : List GrammarStep) : Prop :=
  ∀ before r body collapse after, steps = before ++ .define r body collapse :: after →
    r ∉ registered before

/-- The first step that gives a body to a rule registered before it does so for `r`. -/
def FirstRepeat (steps : List GrammarStep) (r : Rule) : Prop :=
  ∃ before body collapse after, steps = before ++ .define r body collapse :: after ∧
    r ∈ registered before ∧ NoRepeats before

/-- The body of a rule is its stand-in if it is mocked anywhere, and else the one that it is
given. -/
def Holds (steps : List GrammarStep) (r : Rule) (p : Production) : Prop :=
  .mock r ∈ steps ∧ p = .standIn r ∨ .mock r ∉ steps ∧ .define r p.body p.collapse ∈ steps

/-- The first rule that the body of `r` mentions and that is not registered is `q`. -/
def Dangles (steps : List GrammarStep) (r q : Rule) : Prop :=
  ∃ p before after, Holds steps r p ∧ p.body.mentions = before ++ q :: after ∧
    q ∉ registered steps ∧ ∀ s ∈ before, s ∈ registered steps

/-- The first registered rule whose body mentions one that is not registered is `r`, and it
mentions `q` first. -/
def FirstDangling (steps : List GrammarStep) (q r : Rule) : Prop :=
  ∃ before after, registered steps = before ++ r :: after ∧ Dangles steps r q ∧
    ∀ s ∈ before, ∀ q', ¬ Dangles steps s q'

variable {steps : List GrammarStep} {r : Rule}

theorem mem_registered : r ∈ registered steps ↔ ∃ step ∈ steps, step.subject = r := by
  rw [registered, List.mem_eraseDups, List.mem_map]

theorem registered_append (steps : List GrammarStep) (last : GrammarStep) :
    registered (steps ++ [last]) =
      if last.subject ∈ registered steps then registered steps
      else registered steps ++ [last.subject] := by
  rw [registered, List.map_append, List.map_singleton, eraseDups_concat]
  simp only [registered, List.mem_eraseDups]

theorem NoRepeats.of_append {more : List GrammarStep} (h : NoRepeats (steps ++ more)) :
    NoRepeats steps := by
  rintro before r body collapse after rfl
  exact h before r body collapse (after ++ more) (by simp)

theorem noRepeats_or_firstRepeat (steps : List GrammarStep) :
    NoRepeats steps ∨ ∃ r, FirstRepeat steps r := by
  induction steps using List.reverseRecOn with
  | nil =>
    refine Or.inl fun before r body collapse after h => ?_
    simp at h
  | append_singleton steps last ih =>
    rcases ih with hclean | ⟨r, before, body, collapse, after, rfl, hr, hbefore⟩
    · by_cases hlast : ∃ r body collapse, last = .define r body collapse ∧ r ∈ registered steps
      · obtain ⟨r, body, collapse, rfl, hr⟩ := hlast
        exact Or.inr ⟨r, steps, body, collapse, [], rfl, hr, hclean⟩
      · refine Or.inl fun before r body collapse after h hr => ?_
        rcases List.eq_nil_or_concat after with rfl | ⟨after, x, rfl⟩
        · obtain ⟨rfl, hx⟩ := List.append_inj' h rfl
          exact hlast ⟨r, body, collapse, List.singleton_inj.1 hx, hr⟩
        · rw [List.concat_eq_append, ← List.cons_append, ← List.append_assoc] at h
          exact hclean before r body collapse after (List.append_inj' h rfl).1 hr
    · exact Or.inr ⟨r, before, body, collapse, after ++ [last], by simp, hr, hbefore⟩

theorem NoRepeats.findSome?_body? (h : NoRepeats steps) {p : Production} :
    steps.findSome? (·.body? r) = some p ↔ .define r p.body p.collapse ∈ steps := by
  constructor
  · intro hp
    obtain ⟨step, hstep, hbody⟩ := List.exists_of_findSome?_eq_some hp
    cases step with
    | mock => cases hbody
    | define q body collapse =>
      simp only [body?] at hbody
      split_ifs at hbody with hq
      cases hbody
      exact hq ▸ hstep
  · intro hp
    obtain ⟨before, after, rfl⟩ := List.append_of_mem hp
    have hbefore : before.findSome? (·.body? r) = none := by
      rw [List.findSome?_eq_none_iff]
      intro step hstep
      cases step with
      | mock => rfl
      | define q body collapse =>
        refine if_neg fun hq => ?_
        exact h before r p.body p.collapse after rfl (mem_registered.2 ⟨_, hstep, hq⟩)
    rw [List.findSome?_append, hbefore, Option.none_or, List.findSome?_cons]
    simp [body?]

end GrammarStep

/-! ## The table that some steps give -/

namespace RuleTable

open GrammarStep

variable {t : RuleTable} {steps : List GrammarStep} {q r : Rule} {p : Production}

theorem ofSteps_append (steps : List GrammarStep) (last : GrammarStep) :
    ofSteps (steps ++ [last]) = (ofSteps steps).apply last := by
  rw [ofSteps, List.foldl_append]
  rfl

theorem find?_eq_some_iff (h : NoRepeats steps) :
    (ofSteps steps).find? r = some p ↔ Holds steps r p := by
  rw [Holds]
  by_cases hr : GrammarStep.mock r ∈ steps
  · rw [find?_of_mock hr, Option.some_inj, eq_comm]
    simp only [hr, true_and, not_true_eq_false, false_and, or_false]
  · rw [find?_of_not_mock hr, h.findSome?_body?]
    simp only [hr, false_and, not_false_eq_true, true_and, false_or]

theorem contains_ofSteps : (ofSteps steps).contains r = true ↔ r ∈ registered steps := by
  rw [contains_iff, mem_registered]
  by_cases hr : GrammarStep.mock r ∈ steps
  · rw [find?_of_mock hr]
    exact iff_of_true ⟨_, rfl⟩ ⟨_, hr, rfl⟩
  · rw [find?_of_not_mock hr, ← Option.isSome_iff_exists, List.isSome_findSome?,
      List.any_eq_true]
    refine exists_congr fun step => and_congr_right fun hstep => ?_
    cases step with
    | define s body collapse => simp [body?, subject]
    | mock s =>
      refine iff_of_false Bool.false_ne_true ?_
      rintro rfl
      exact hr hstep

/-! ### The order of the rules -/

theorem map_fst_insert : (t.insert r p).entries.map Prod.fst =
    if t.contains r then t.entries.map Prod.fst else t.entries.map Prod.fst ++ [r] := by
  unfold insert
  split_ifs
  · simp only [List.map_map]
    refine List.map_congr_left fun entry _ => ?_
    simp only [Function.comp_apply]
    split_ifs with hentry
    · exact hentry.symm
    · rfl
  · simp only [List.map_append, List.map_cons, List.map_nil]

theorem map_fst_apply (step : GrammarStep) : (t.apply step).entries.map Prod.fst =
    if t.contains step.subject then t.entries.map Prod.fst
    else t.entries.map Prod.fst ++ [step.subject] := by
  cases step with
  | mock r => exact map_fst_insert
  | define r body collapse =>
    cases hr : t.contains r with
    | true => simp only [apply, subject, hr, if_true]
    | false =>
      simp only [apply, subject, hr, Bool.false_eq_true, if_false]
      rw [map_fst_insert, hr]
      rfl

/-- **Rules stand in the order of their first registration.** -/
theorem map_fst_entries (steps : List GrammarStep) :
    (ofSteps steps).entries.map Prod.fst = registered steps := by
  induction steps using List.reverseRecOn with
  | nil => rfl
  | append_singleton steps last ih =>
    rw [ofSteps_append, map_fst_apply, ih, registered_append]
    simp only [contains_ofSteps]

theorem nodup_entries (steps : List GrammarStep) :
    ((ofSteps steps).entries.map Prod.fst).Nodup := by
  induction steps using List.reverseRecOn with
  | nil => exact List.nodup_nil
  | append_singleton steps last ih =>
    rw [ofSteps_append, map_fst_apply]
    split_ifs with hlast
    · exact ih
    · rw [contains_ofSteps, ← map_fst_entries] at hlast
      rw [← List.concat_eq_append]
      exact ih.concat hlast

theorem find?_of_mem_entries (h : (r, p) ∈ (ofSteps steps).entries) :
    (ofSteps steps).find? r = some p := by
  have hnodup := nodup_entries steps
  obtain ⟨before, after, heq⟩ := List.append_of_mem h
  rw [heq, List.map_append, List.map_cons] at hnodup
  refine List.lookup_eq_some_iff.2 ⟨before, after, heq, fun entry hentry => ?_⟩
  have hne : r ≠ entry.1 := by
    rintro rfl
    exact (List.nodup_append.1 hnodup).2.2 _ (List.mem_map_of_mem hentry) _
      (List.mem_cons_self ..) rfl
  exact bne_iff_ne.2 hne

/-! ### The two faults -/

/-- The first rule that the body of `r` mentions and that the table does not contain. -/
def dangling? (t : RuleTable) (r : Rule) : Option Rule :=
  (t.find? r).bind fun p => p.body.references.find? fun q => !t.contains q

theorem dangling?_eq_some (h : NoRepeats steps) :
    (ofSteps steps).dangling? r = some q ↔ Dangles steps r q := by
  simp only [dangling?, Option.bind_eq_some_iff, find?_eq_some_iff h, Expr.find?_references,
    List.find?_eq_some_iff_append, Dangles, Bool.not_eq_true', Bool.not_not,
    ← Bool.not_eq_true, contains_ofSteps]
  refine exists_congr fun p => ⟨?_, ?_⟩
  · rintro ⟨hp, hq, before, after, heq, hbefore⟩
    exact ⟨before, after, hp, heq, hq, hbefore⟩
  · rintro ⟨before, after, hp, heq, hq, hbefore⟩
    exact ⟨hp, hq, before, after, heq, hbefore⟩

theorem firstUndefined?_eq (steps : List GrammarStep) :
    (ofSteps steps).firstUndefined? = (registered steps).findSome? fun r =>
      ((ofSteps steps).dangling? r).map (.undefinedRule · r) := by
  rw [firstUndefined?, ← map_fst_entries, List.findSome?_map, ← List.head?_filterMap,
    ← List.head?_filterMap]
  refine congrArg List.head? (List.filterMap_congr fun entry hentry => ?_)
  simp only [Function.comp_apply, dangling?, find?_of_mem_entries hentry, Option.bind_some]

/-- **The first mention of a rule that is not registered.** -/
theorem firstUndefined?_eq_some (h : NoRepeats steps) :
    (ofSteps steps).firstUndefined? = some (.undefinedRule q r) ↔ FirstDangling steps q r := by
  have hnone : ∀ s, (ofSteps steps).dangling? s = none ↔ ∀ q', ¬ Dangles steps s q' := fun s => by
    simp only [Option.eq_none_iff_forall_ne_some, ne_eq, dangling?_eq_some h]
  simp only [firstUndefined?_eq, List.findSome?_eq_some_iff, Option.map_eq_some_iff,
    Option.map_eq_none_iff, GrammarError.undefinedRule.injEq, dangling?_eq_some h, hnone,
    FirstDangling]
  constructor
  · rintro ⟨before, s, after, heq, ⟨q', hq', rfl, rfl⟩, hbefore⟩
    exact ⟨before, after, heq, hq', hbefore⟩
  · rintro ⟨before, after, heq, hq, hbefore⟩
    exact ⟨before, r, after, heq, ⟨q, hq, rfl, rfl⟩, hbefore⟩

theorem duplicates_of_noRepeats (h : NoRepeats steps) : (ofSteps steps).duplicates = [] := by
  induction steps using List.reverseRecOn with
  | nil => rfl
  | append_singleton steps last ih =>
    rw [ofSteps_append]
    cases last with
    | mock r => exact insert_duplicates.trans (ih h.of_append)
    | define r body collapse =>
      have hr : ¬ (ofSteps steps).contains r = true := fun hr =>
        h steps r body collapse [] rfl (contains_ofSteps.1 hr)
      simp only [apply, if_neg hr, insert_duplicates, ih h.of_append]

theorem duplicates_prefix_foldl (t : RuleTable) (steps : List GrammarStep) :
    t.duplicates <+: (steps.foldl apply t).duplicates := by
  induction steps generalizing t with
  | nil => exact List.prefix_rfl
  | cons step steps ih =>
    refine List.IsPrefix.trans ?_ (ih (t.apply step))
    cases step with
    | mock r => simp only [apply, insert_duplicates, List.prefix_rfl]
    | define r body collapse =>
      simp only [apply]
      split_ifs
      · exact List.prefix_append ..
      · simp only [insert_duplicates, List.prefix_rfl]

/-- **The first duplicate** is the rule of the first step that repeats one. -/
theorem head?_duplicates (h : FirstRepeat steps r) :
    (ofSteps steps).duplicates.head? = some r := by
  obtain ⟨before, body, collapse, after, rfl, hr, hbefore⟩ := h
  have hstep : ((ofSteps before).apply (.define r body collapse)).duplicates = [r] := by
    simp only [apply, contains_ofSteps.2 hr, if_true, duplicates_of_noRepeats hbefore,
      List.nil_append]
  have hprefix := duplicates_prefix_foldl ((ofSteps before).apply (.define r body collapse)) after
  rw [hstep] at hprefix
  obtain ⟨rest, hrest⟩ := hprefix
  rw [ofSteps, List.foldl_append, List.foldl_cons]
  exact (congrArg List.head? hrest).symm

/-! ### The check -/

theorem finish?_of_firstRepeat (h : FirstRepeat steps r) :
    (ofSteps steps).finish? = .error (.duplicateRule r) := by
  obtain ⟨rest, hrest⟩ := List.head?_eq_some_iff.1 (head?_duplicates h)
  rw [finish?, hrest]

theorem finish?_of_undefined (h : NoRepeats steps) {fault : GrammarError}
    (hf : (ofSteps steps).firstUndefined? = some fault) :
    (ofSteps steps).finish? = .error fault := by
  simp only [finish?, duplicates_of_noRepeats h, hf]

theorem finish?_of_closed (h : NoRepeats steps) (hf : (ofSteps steps).firstUndefined? = none) :
    (ofSteps steps).finish? = .ok (ofSteps steps).toArray := by
  simp only [finish?, duplicates_of_noRepeats h, hf]

theorem eq_undefinedRule {fault : GrammarError}
    (h : (ofSteps steps).firstUndefined? = some fault) : ∃ q r, fault = .undefinedRule q r := by
  rw [firstUndefined?_eq] at h
  obtain ⟨r, -, hr⟩ := List.exists_of_findSome?_eq_some h
  obtain ⟨q, -, rfl⟩ := Option.map_eq_some_iff.1 hr
  exact ⟨q, r, rfl⟩

theorem firstUndefined?_eq_none_iff (h : NoRepeats steps) :
    (ofSteps steps).firstUndefined? = none ↔ ∀ r q, ¬ Dangles steps r q := by
  rw [firstUndefined?_eq, List.findSome?_eq_none_iff]
  constructor
  · intro hnone r q hq
    obtain ⟨p, -, -, hp, -⟩ := id hq
    have hr : r ∈ registered steps :=
      contains_ofSteps.1 (contains_iff.2 ⟨p, (find?_eq_some_iff h).2 hp⟩)
    have hmap := hnone r hr
    rw [(dangling?_eq_some h).2 hq] at hmap
    cases hmap
  · intro hnone r _
    cases hq : (ofSteps steps).dangling? r with
    | none => rfl
    | some q => exact absurd ((dangling?_eq_some h).1 hq) (hnone r q)

/-- **The three outcomes of the check**: a repetition, else a dangling mention, else a table. -/
theorem finish?_cases (steps : List GrammarStep) :
    (∃ r, FirstRepeat steps r ∧ (ofSteps steps).finish? = .error (.duplicateRule r)) ∨
    NoRepeats steps ∧ (∃ q r, FirstDangling steps q r ∧
      (ofSteps steps).finish? = .error (.undefinedRule q r)) ∨
    NoRepeats steps ∧ (∀ r q, ¬ Dangles steps r q) ∧
      (ofSteps steps).finish? = .ok (ofSteps steps).toArray := by
  rcases noRepeats_or_firstRepeat steps with hclean | ⟨r, hr⟩
  · cases hf : (ofSteps steps).firstUndefined? with
    | none =>
      exact Or.inr (Or.inr ⟨hclean, (firstUndefined?_eq_none_iff hclean).1 hf,
        finish?_of_closed hclean hf⟩)
    | some fault =>
      obtain ⟨q, r, rfl⟩ := eq_undefinedRule hf
      exact Or.inr (Or.inl ⟨hclean, q, r, (firstUndefined?_eq_some hclean).1 hf,
        finish?_of_undefined hclean hf⟩)
  · exact Or.inl ⟨r, hr, finish?_of_firstRepeat hr⟩

theorem finish?_eq_duplicateRule :
    (ofSteps steps).finish? = .error (.duplicateRule r) ↔ FirstRepeat steps r := by
  refine ⟨fun h => ?_, finish?_of_firstRepeat⟩
  rcases finish?_cases steps with ⟨s, hs, hfinish⟩ | ⟨-, q, s, -, hfinish⟩ | ⟨-, -, hfinish⟩
  · cases hfinish.symm.trans h
    exact hs
  · cases hfinish.symm.trans h
  · cases hfinish.symm.trans h

theorem finish?_eq_undefinedRule : (ofSteps steps).finish? = .error (.undefinedRule q r) ↔
    NoRepeats steps ∧ FirstDangling steps q r := by
  constructor
  · intro h
    rcases finish?_cases steps with ⟨s, -, hfinish⟩ | ⟨hclean, q, s, hs, hfinish⟩ | ⟨-, -, hfinish⟩
    · cases hfinish.symm.trans h
    · cases hfinish.symm.trans h
      exact ⟨hclean, hs⟩
    · cases hfinish.symm.trans h
  · rintro ⟨hclean, hr⟩
    exact finish?_of_undefined hclean ((firstUndefined?_eq_some hclean).2 hr)

theorem finish?_eq_ok {table : Array (Option Production)} :
    (ofSteps steps).finish? = .ok table ↔
      NoRepeats steps ∧ (∀ r q, ¬ Dangles steps r q) ∧ table = (ofSteps steps).toArray := by
  constructor
  · intro h
    rcases finish?_cases steps with
      ⟨s, -, hfinish⟩ | ⟨-, q, s, -, hfinish⟩ | ⟨hclean, hnone, hfinish⟩
    · cases hfinish.symm.trans h
    · cases hfinish.symm.trans h
    · cases hfinish.symm.trans h
      exact ⟨hclean, hnone, rfl⟩
  · rintro ⟨hclean, hnone, rfl⟩
    exact finish?_of_closed hclean ((firstUndefined?_eq_none_iff hclean).2 hnone)

end RuleTable

/-! ## Rules without a body -/

/-- What a rule does at a place if a rule without a body does what `missing` says. -/
def Setup.invokeElse (s : Setup) (missing : RuleCall) (room : Nat) : RuleCall :=
  fun rule pos st =>
    match st.memo? rule pos with
    | some memo => (memo.result, st.hit)
    | none =>
      match room with
      | 0 => (none, if s.skipping then st.refuse else st.giveUp)
      | room + 1 =>
        match s.grammar.find? rule with
        | none => missing rule pos st
        | some p =>
          let height := st.scratch.size
          match p.body.evaluate s.tokens (invokeElse s missing room) pos (st.enter rule pos) with
          | (some stop, st) =>
            match st.leave.finishNode p rule pos stop height false with
            | (element?, st) =>
              (some (stop, element?), st.remember rule pos (.matched stop element?))
          | (none, st) => (none, st.leave.remember rule pos .failed)

theorem Setup.invokeElse_fail (s : Setup) (room : Nat) :
    s.invokeElse (fun _ _ st => (none, st)) room = s.invoke room := by
  induction room with
  | zero =>
    funext rule pos st
    unfold invokeElse invoke
    rfl
  | succ room ih =>
    funext rule pos st
    unfold invokeElse
    simp only [ih]
    unfold invoke
    rfl

theorem Setup.invokeElse_eq {s : Setup} {inside : Rule → Bool} (hclosed : s.grammar.Closed inside)
    (hbody : ∀ r, inside r = true → ∃ p, s.grammar.find? r = some p) (missing : RuleCall)
    (room : Nat) : ∀ r, inside r = true → s.invokeElse missing room r = s.invoke room r := by
  induction room with
  | zero =>
    intro r _
    funext pos st
    unfold invokeElse invoke
    rfl
  | succ room ih =>
    intro r hr
    funext pos st
    obtain ⟨p, hp⟩ := hbody r hr
    have hcongr := Expr.evaluate_congr (.refl s.tokens) ih p.body (hclosed r p hr hp)
    have hinvoke := invoke.eq_def s (room + 1) r pos st
    simp only [hp] at hinvoke
    unfold invokeElse
    simp only [hp, hcongr]
    exact hinvoke.symm

namespace Grammar

/-- Where the body of the root rule matches up to if a rule without a body does what `missing`
says. -/
def evaluateRootElse (g : Grammar) (missing : RuleCall) (tokens : TokenStream) (root : Rule)
    (p : Production) (maxDepth? : Option Nat) : Option Nat × State :=
  p.body.evaluate tokens
    ((g.setup tokens root maxDepth?).invokeElse missing (room tokens maxDepth?)) 0
    (State.initial.enter root 0)

open GrammarStep

variable {g : Grammar} {d : Dialect} {steps : List GrammarStep} {r : Rule}

theorem ofSteps?_eq_ok (h : ofSteps? d steps = .ok g) :
    NoRepeats steps ∧ (∀ r q, ¬ Dangles steps r q) ∧
      g = ⟨d, (RuleTable.ofSteps steps).toArray⟩ := by
  unfold ofSteps? at h
  cases hfinish : (RuleTable.ofSteps steps).finish? with
  | error fault =>
    rw [hfinish] at h
    cases h
  | ok table =>
    rw [hfinish] at h
    obtain ⟨hclean, hnone, rfl⟩ := RuleTable.finish?_eq_ok.1 hfinish
    cases h
    exact ⟨hclean, hnone, rfl⟩

theorem closed_of_ofSteps? (h : ofSteps? d steps = .ok g) :
    g.Closed fun r => (g.find? r).isSome := by
  obtain ⟨hclean, hnone, rfl⟩ := ofSteps?_eq_ok h
  intro r p _ hp
  rw [find?_toArray] at hp
  rw [Expr.within_iff]
  intro q hq
  rw [find?_toArray]
  by_contra hmissing
  have hdangling :
      (p.body.references.find? fun s => !(RuleTable.ofSteps steps).contains s).isSome :=
    List.find?_isSome.2 ⟨q, hq, by simpa [RuleTable.contains] using hmissing⟩
  obtain ⟨s, hs⟩ := Option.isSome_iff_exists.1 hdangling
  refine hnone r s ((RuleTable.dangling?_eq_some hclean).1 ?_)
  rw [RuleTable.dangling?, hp]
  exact hs

/-- **A parse never comes to a rule without a body**: whatever such a rule would do, evaluating a
root comes out the same. -/
theorem evaluateRootElse_eq (h : ofSteps? d steps = .ok g) {root : Rule} {p : Production}
    (hroot : g.find? root = some p) (missing : RuleCall) (tokens : TokenStream)
    (maxDepth? : Option Nat) :
    g.evaluateRootElse missing tokens root p maxDepth? =
      g.evaluateRoot tokens root p maxDepth? := by
  have hclosed := closed_of_ofSteps? h
  have hcall := Setup.invokeElse_eq (s := g.setup tokens root maxDepth?) hclosed
    (fun r hr => Option.isSome_iff_exists.1 hr) missing (room tokens maxDepth?)
  have hinside : (g.find? root).isSome := Option.isSome_iff_exists.2 ⟨p, hroot⟩
  rw [evaluateRootElse, evaluateRoot,
    Expr.evaluate_congr (.refl tokens) hcall p.body (hclosed root p hinside hroot)]

/-- **Exactly the closed tables without repetitions pass their check.**  The first rule that is
repeated is reported; else the first registered rule whose body mentions a rule that is not
registered, with the first such mention; else the table holds a body for every rule that was
registered, and for no other: the stand-in for a rule that was mocked anywhere, and else the body
that it was given.  In such a table a parse never comes to a rule without a body. -/
theorem finish?_spec (steps : List GrammarStep) :
    (∀ r, (RuleTable.ofSteps steps).finish? = .error (.duplicateRule r) ↔ FirstRepeat steps r) ∧
    (∀ q r, (RuleTable.ofSteps steps).finish? = .error (.undefinedRule q r) ↔
      NoRepeats steps ∧ FirstDangling steps q r) ∧
    ((∃ table, (RuleTable.ofSteps steps).finish? = .ok table) ↔
      NoRepeats steps ∧ ∀ r q, ¬ Dangles steps r q) ∧
    ∀ (d : Dialect) (g : Grammar), ofSteps? d steps = .ok g →
      (∀ r p, g.find? r = some p ↔ Holds steps r p) ∧
      (∀ r, (g.find? r).isSome ↔ r ∈ registered steps) ∧
      ∀ (tokens : TokenStream) (root : Rule) (p : Production) (maxDepth? : Option Nat)
        (missing : RuleCall), g.find? root = some p →
        g.evaluateRootElse missing tokens root p maxDepth? =
          g.evaluateRoot tokens root p maxDepth? := by
  refine ⟨fun r => RuleTable.finish?_eq_duplicateRule,
    fun q r => RuleTable.finish?_eq_undefinedRule, ?_,
    fun d g hg => ⟨fun r p => ?_, fun r => ?_, ?_⟩⟩
  · simp only [RuleTable.finish?_eq_ok, exists_and_left, exists_eq, and_true]
  · obtain ⟨hclean, -, rfl⟩ := ofSteps?_eq_ok hg
    rw [find?_toArray, RuleTable.find?_eq_some_iff hclean]
  · obtain ⟨-, -, rfl⟩ := ofSteps?_eq_ok hg
    rw [find?_toArray]
    exact RuleTable.contains_ofSteps
  · intro tokens root p maxDepth? missing hroot
    exact evaluateRootElse_eq hg hroot missing tokens maxDepth?

/-- A condition with a semicolon.  The body of the condition is replaced, so that it mentions no expression
any more. -/
def conditionMocked : List GrammarStep :=
  [define .declaration (.seq [.rule .condition, .token (.text ";")]),
    define .condition (.rule .expression), .mock .condition]

/-- The table is closed, and no parse from it asks for an expression. -/
theorem finish?_conditionMocked :
    ∃ g, ofSteps? .standard conditionMocked = .ok g ∧
      g.find? .condition = some (.standIn .condition) ∧ g.find? .expression = none ∧
      ∀ p, g.find? .declaration = some p →
        ∀ (tokens : TokenStream) (maxDepth? : Option Nat) (missing : RuleCall),
          g.evaluateRootElse missing tokens .declaration p maxDepth? =
            g.evaluateRoot tokens .declaration p maxDepth? := by
  obtain ⟨g, hg⟩ : ∃ g, ofSteps? .standard conditionMocked = .ok g := ⟨_, rfl⟩
  obtain ⟨-, -, -, hspec⟩ := finish?_spec conditionMocked
  obtain ⟨hholds, hregistered, helse⟩ := hspec .standard g hg
  have hmock : .mock .condition ∈ conditionMocked := by simp [conditionMocked]
  have hexpression : Rule.expression ∉ registered conditionMocked := by decide
  refine ⟨g, hg, (hholds _ _).2 (Or.inl ⟨hmock, rfl⟩), ?_, ?_⟩
  · rw [← hregistered, Option.not_isSome_iff_eq_none] at hexpression
    exact hexpression
  · exact fun p hp tokens maxDepth? missing => helse tokens .declaration p maxDepth? missing hp

/-- A body behind a stand-in is a repetition, even if it dangles. -/
example : (RuleTable.ofSteps [.mock .declaration, define .literal .epsilon,
    define .declaration (.rule .condition)]).finish? = .error (.duplicateRule .declaration) :=
  rfl

/-- A stand-in behind a body is none, and the body that it replaces mentions nothing any more. -/
example : (RuleTable.ofSteps [define .declaration (.rule .condition), .mock .declaration,
    define .literal (.seq [.rule .declaration, .rule .expression])]).finish? =
      .error (.undefinedRule .expression .literal) :=
  rfl

end Grammar

end PackratCpp
