/-
  What a table of rules holds after some steps.

  * `RuleTable.find?_insert`: setting a body changes what is found for one rule.
  * `RuleTable.find?_of_mock`, `RuleTable.find?_of_not_mock`: a rule that is mocked anywhere has
    its stand-in, any other one its first body.
  * `RuleTable.finish?_eq`: a table that was put together from one body for each rule, and
    from stand-ins after that, passes its check.
  * `Grammar.find?_toArray`: the array in registry order holds what the table does.
  * `Grammar.mapProductions`: a grammar in which every production is changed alike.
-/
import PackratCpp.Grammar.Basic
import Mathlib.Tactic.Common

namespace PackratCpp

namespace GrammarStep

/-- The rule that a step is about. -/
def subject : GrammarStep → Rule
  | .define rule _ _ => rule
  | .mock rule => rule

/-- The body that a step has for a rule.  A stand-in is none. -/
def body? (rule : Rule) : GrammarStep → Option Production
  | .define r body collapse => if r = rule then some ⟨body, collapse⟩ else none
  | .mock _ => none

/-- Whether a step gives a rule a body of its own. -/
def isDefine : GrammarStep → Bool
  | .define _ _ _ => true
  | .mock _ => false

end GrammarStep

namespace RuleTable

variable {t : RuleTable} {r s : Rule} {p : Production} {steps : List GrammarStep}

theorem contains_iff : t.contains r = true ↔ ∃ p, t.find? r = some p := by
  simp only [contains, Option.isSome_iff_exists]

theorem contains_eq_false : t.contains r = false ↔ t.find? r = none := by
  simp [contains]

theorem lookup_replace_of_ne (hs : s ≠ r) (entries : List (Rule × Production)) :
    (entries.map fun entry => if entry.1 = r then (r, p) else entry).lookup s =
      entries.lookup s := by
  have hsr : (s == r) = false := by simpa using hs
  induction entries with
  | nil => rfl
  | cons entry entries ih =>
    obtain ⟨k, v⟩ := entry
    by_cases hk : k = r
    · subst hk
      simp [List.lookup_cons, hsr, ih]
    · simp [List.lookup_cons, hk, ih]

theorem lookup_replace_self (entries : List (Rule × Production))
    (h : (entries.lookup r).isSome) :
    (entries.map fun entry => if entry.1 = r then (r, p) else entry).lookup r = some p := by
  induction entries with
  | nil => cases h
  | cons entry entries ih =>
    obtain ⟨k, v⟩ := entry
    by_cases hk : k = r
    · subst hk
      simp
    · have hrk : (r == k) = false := by simpa using Ne.symm hk
      rw [List.lookup_cons, hrk] at h
      rw [List.map_cons, if_neg hk, List.lookup_cons, hrk]
      exact ih h

/-- **Setting a body changes what is found for one rule.** -/
theorem find?_insert : (t.insert r p).find? s = if s = r then some p else t.find? s := by
  unfold insert
  cases hc : t.contains r with
  | true =>
    simp only [find?, if_true]
    split_ifs with hs
    · subst hs
      exact lookup_replace_self t.entries hc
    · exact lookup_replace_of_ne hs t.entries
  | false =>
    rw [contains_eq_false] at hc
    simp only [find?, Bool.false_eq_true, if_false, List.lookup_append]
    split_ifs with hs
    · subst hs
      simp only [find?] at hc
      simp [hc]
    · have hsr : (s == r) = false := by simpa using hs
      simp [List.lookup_cons, hsr]

theorem find?_apply_mock : (t.apply (.mock r)).find? s =
    if s = r then some (.standIn r) else t.find? s :=
  find?_insert

theorem find?_apply_define {body : Expr} {collapse : Bool} :
    (t.apply (.define r body collapse)).find? s =
      (t.find? s).or ((GrammarStep.define r body collapse).body? s) := by
  simp only [apply, GrammarStep.body?]
  cases hc : t.contains r with
  | true =>
    obtain ⟨p, hp⟩ := contains_iff.1 hc
    simp only [if_true]
    by_cases hs : r = s
    · subst hs
      simp only [find?] at hp
      simp [find?, hp]
    · simp [hs, find?]
  | false =>
    rw [contains_eq_false] at hc
    simp only [Bool.false_eq_true, if_false, find?_insert]
    by_cases hs : s = r
    · subst hs
      simp [hc]
    · simp [hs, Ne.symm hs]

theorem foldl_find?_of_not_mock (h : .mock r ∉ steps) :
    (steps.foldl apply t).find? r = (t.find? r).or (steps.findSome? (·.body? r)) := by
  induction steps generalizing t with
  | nil => simp
  | cons step steps ih =>
    simp only [List.mem_cons, not_or] at h
    rw [List.foldl_cons, ih h.2]
    cases step with
    | define q body collapse =>
      rw [find?_apply_define, Option.or_assoc, List.findSome?_cons]
      cases (GrammarStep.define q body collapse).body? r <;> simp
    | mock q =>
      have hq : r ≠ q := fun hq => h.1 (by rw [hq])
      rw [find?_apply_mock, if_neg hq, List.findSome?_cons]
      simp [GrammarStep.body?]

theorem foldl_find?_of_mock (h : .mock r ∈ steps) :
    (steps.foldl apply t).find? r = some (.standIn r) := by
  induction steps generalizing t with
  | nil => cases h
  | cons step steps ih =>
    rw [List.foldl_cons]
    by_cases hr : GrammarStep.mock r ∈ steps
    · exact ih hr
    · obtain rfl := (List.mem_cons.1 h).resolve_right hr
      rw [foldl_find?_of_not_mock hr, find?_apply_mock, if_pos rfl, Option.some_or]

theorem find?_of_mock (h : .mock r ∈ steps) : (ofSteps steps).find? r = some (.standIn r) :=
  foldl_find?_of_mock h

theorem find?_of_not_mock (h : .mock r ∉ steps) :
    (ofSteps steps).find? r = steps.findSome? (·.body? r) :=
  foldl_find?_of_not_mock h

theorem findSome?_body? (hnodup : (steps.map (·.subject)).Nodup) {body : Expr} {collapse : Bool}
    (h : .define r body collapse ∈ steps) :
    steps.findSome? (·.body? r) = some ⟨body, collapse⟩ := by
  induction steps with
  | nil => cases h
  | cons step steps ih =>
    rw [List.map_cons, List.nodup_cons] at hnodup
    rcases List.mem_cons.1 h with rfl | h
    · simp [GrammarStep.body?]
    · have hmem : r ∈ steps.map (·.subject) := List.mem_map_of_mem h
      have hne : step.subject ≠ r := fun hr => hnodup.1 (hr ▸ hmem)
      have hnone : step.body? r = none := by
        cases step with
        | define => exact if_neg hne
        | mock => rfl
      rw [List.findSome?_cons, hnone]
      exact ih hnodup.2 h

/-! ## The check -/

theorem insert_duplicates : (t.insert r p).duplicates = t.duplicates := by
  unfold insert
  split_ifs <;> rfl

theorem foldl_mock_duplicates (mocks : List Rule) :
    ((mocks.map .mock).foldl apply t).duplicates = t.duplicates := by
  induction mocks generalizing t with
  | nil => rfl
  | cons q mocks ih =>
    rw [List.map_cons, List.foldl_cons, ih]
    exact insert_duplicates

theorem foldl_define_duplicates (hdefine : ∀ step ∈ steps, step.isDefine = true)
    (hnodup : (steps.map (·.subject)).Nodup) (hnew : ∀ step ∈ steps, t.find? step.subject = none) :
    (steps.foldl apply t).duplicates = t.duplicates := by
  induction steps generalizing t with
  | nil => rfl
  | cons step steps ih =>
    rw [List.map_cons, List.nodup_cons] at hnodup
    cases step with
    | mock q => cases hdefine _ (List.mem_cons_self ..)
    | define q body collapse =>
      have hq : t.find? q = none := hnew _ (List.mem_cons_self ..)
      rw [List.foldl_cons, ih (fun s hs => hdefine s (List.mem_cons_of_mem _ hs)) hnodup.2]
      · simp only [apply, contains_eq_false.2 hq, Bool.false_eq_true, if_false, insert_duplicates]
      · intro s hs
        have hmem : s.subject ∈ steps.map (·.subject) := List.mem_map_of_mem hs
        have hsq : q ≠ s.subject := fun hq => hnodup.1 (hq ▸ hmem)
        rw [find?_apply_define, hnew s (List.mem_cons_of_mem _ hs)]
        simp [GrammarStep.body?, hsq]

theorem firstUndefined?_eq_none (h : ∀ r, t.contains r = true) : t.firstUndefined? = none := by
  simp only [firstUndefined?, List.findSome?_eq_none_iff, Option.map_eq_none_iff,
    List.find?_eq_none, h, Bool.not_true, Bool.false_eq_true, not_false_eq_true, implies_true]

/-- **A table of one body for each rule passes its check**, and so it does with any stand-ins. -/
theorem finish?_eq (hdefine : ∀ step ∈ steps, step.isDefine = true)
    (hnodup : (steps.map (·.subject)).Nodup) (hall : ∀ r, r ∈ steps.map (·.subject))
    (mocks : List Rule) :
    (ofSteps (steps ++ mocks.map .mock)).finish? =
      .ok (ofSteps (steps ++ mocks.map .mock)).toArray := by
  have hdup : (ofSteps (steps ++ mocks.map .mock)).duplicates = [] := by
    unfold ofSteps
    rw [List.foldl_append, foldl_mock_duplicates]
    exact foldl_define_duplicates hdefine hnodup fun _ _ => rfl
  have hcontains : ∀ r, (ofSteps (steps ++ mocks.map .mock)).contains r = true := by
    intro r
    by_cases hr : GrammarStep.mock r ∈ steps ++ mocks.map .mock
    · exact contains_iff.2 ⟨_, find?_of_mock hr⟩
    · obtain ⟨step, hstep, rfl⟩ := List.mem_map.1 (hall r)
      refine contains_iff.2 ?_
      rw [find?_of_not_mock hr, ← Option.isSome_iff_exists, List.isSome_findSome?]
      refine List.any_eq_true.2 ⟨step, List.mem_append_left _ hstep, ?_⟩
      cases step with
      | define => simp [GrammarStep.body?, GrammarStep.subject]
      | mock => cases hdefine _ hstep
  unfold finish?
  rw [hdup, firstUndefined?_eq_none hcontains]

end RuleTable

/-! ## The table of a grammar -/

theorem Grammar.find?_toArray (d : Dialect) (t : RuleTable) (r : Rule) :
    (⟨d, t.toArray⟩ : Grammar).find? r = t.find? r := by
  simp only [Grammar.find?, RuleTable.toArray, List.getElem?_toArray, List.getElem?_map,
    Rule.all_getElem?_index, Option.map_some, Option.join_some]

/-- The grammar in which every production is changed alike. -/
def Grammar.mapProductions (g : Grammar) (f : Production → Production) : Grammar :=
  ⟨g.dialect, g.table.map (·.map f)⟩

theorem Grammar.find?_mapProductions (g : Grammar) (f : Production → Production) (rule : Rule) :
    (g.mapProductions f).find? rule = (g.find? rule).map f := by
  simp only [find?, mapProductions, Array.getElem?_map]
  cases g.table[rule.index]? <;> rfl

end PackratCpp
