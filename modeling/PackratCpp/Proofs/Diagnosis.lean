/-
  What a diagnosis says.

  * `FailedTest`: something that was tried in vain, where, and the rule at work, if there was
    one.
  * `FailedTest.furthest`, `FailedTest.expected`, `FailedTest.firstRule?`: of some failed tests,
    the furthest place, what was tried there, each once and in the order of the first try,
    and the rule at work at the first of them.  All three look at the whole list.
  * `Furthest.records_noteAll`: the parser, which keeps no list, comes to the same.
  * `Grammar.diagnosis_of_tests`: the diagnosis of a parse that refuses no rule is about the
    failed tests of its derivation.
-/
import Mathlib
import PackratCpp.Proofs.Agreement

namespace PackratCpp

/-- Something that was tried in vain. -/
structure FailedTest where
  position : Nat
  expectation : Expectation
  /-- The innermost rule at work, if there was one. -/
  rule? : Option Rule

/-- A failed attempt is a failed test within a rule. -/
def Attempt.test (a : Attempt) : FailedTest :=
  ⟨a.position, a.expectation, some a.rule⟩

/-- The test behind the body of the root rule, which should match every token, with or without
the end of input. -/
def Verdict.endTests (tokens : TokenStream) : Verdict → List FailedTest
  | .failed => []
  | .matched stop _ =>
    if stop = tokens.eofIndex ∨ stop = tokens.length then [] else [⟨stop, .endOfInput, none⟩]

namespace FailedTest

/-- The furthest place of some failed tests, and the first place if there are none. -/
def furthest (tests : List FailedTest) : Nat :=
  (tests.map (·.position)).max?.getD 0

/-- The failed tests at the furthest place. -/
def atFurthest (tests : List FailedTest) : List FailedTest :=
  tests.filter (·.position = furthest tests)

/-- What was expected at the furthest place, each once, in the order of the first test. -/
def expected (tests : List FailedTest) : List Expectation :=
  ((atFurthest tests).map (·.expectation)).eraseDups

/-- The rule at work at the first failed test at the furthest place. -/
def firstRule? (tests : List FailedTest) : Option Rule :=
  (atFurthest tests).head?.bind (·.rule?)

/-! ## One more test -/

variable {tests : List FailedTest} {t : FailedTest}

theorem position_le_furthest (h : t ∈ tests) : t.position ≤ furthest tests :=
  List.le_max?_getD_of_mem (List.mem_map_of_mem h)

theorem exists_furthest (hne : tests ≠ []) : ∃ t ∈ tests, t.position = furthest tests := by
  have hpos : tests.map (·.position) ≠ [] := by simpa using hne
  obtain ⟨m, hm⟩ := Option.isSome_iff_exists.1 (List.isSome_max?_of_ne_nil hpos)
  obtain ⟨t, ht, hp⟩ := List.mem_map.1 (List.max?_mem hm)
  exact ⟨t, ht, by rw [hp, furthest, hm, Option.getD_some]⟩

theorem furthest_eq (h : t ∈ tests) (hle : ∀ u ∈ tests, u.position ≤ t.position) :
    furthest tests = t.position := by
  obtain ⟨u, hu, hp⟩ := exists_furthest (List.ne_nil_of_mem h)
  exact Nat.le_antisymm (hp ▸ hle u hu) (position_le_furthest h)

theorem atFurthest_ne_nil (hne : tests ≠ []) : atFurthest tests ≠ [] := by
  obtain ⟨t, ht, hp⟩ := exists_furthest hne
  exact List.ne_nil_of_mem (a := t) (List.mem_filter.2 ⟨ht, by simpa using hp⟩)

theorem append_of_lt (hlt : ∀ u ∈ tests, u.position < t.position) :
    furthest (tests ++ [t]) = t.position ∧ atFurthest (tests ++ [t]) = [t] := by
  have hfar : furthest (tests ++ [t]) = t.position := by
    refine furthest_eq (by simp) fun u hu => ?_
    rcases List.mem_append.1 hu with hu | hu
    · exact Nat.le_of_lt (hlt u hu)
    · rw [List.mem_singleton.1 hu]
  have hnone : tests.filter (·.position = t.position) = [] :=
    List.filter_eq_nil_iff.2 fun u hu => by simpa using Nat.ne_of_lt (hlt u hu)
  refine ⟨hfar, ?_⟩
  rw [atFurthest, hfar, List.filter_append, hnone]
  simp

theorem append_of_le (hne : tests ≠ []) (hle : t.position ≤ furthest tests) :
    furthest (tests ++ [t]) = furthest tests ∧ atFurthest (tests ++ [t]) =
      if t.position = furthest tests then atFurthest tests ++ [t] else atFurthest tests := by
  obtain ⟨u, hu, hp⟩ := exists_furthest hne
  have hfar : furthest (tests ++ [t]) = furthest tests := by
    rw [← hp] at hle ⊢
    refine furthest_eq (List.mem_append_left _ hu) fun v hv => ?_
    rcases List.mem_append.1 hv with hv | hv
    · rw [hp]
      exact position_le_furthest hv
    · rwa [List.mem_singleton.1 hv]
  refine ⟨hfar, ?_⟩
  rw [atFurthest, hfar, List.filter_append]
  split_ifs with h <;> simp [atFurthest, h]

end FailedTest

theorem eraseDups_concat {α : Type} [DecidableEq α] (xs : List α) (x : α) :
    (xs ++ [x]).eraseDups = if x ∈ xs then xs.eraseDups else xs.eraseDups ++ [x] := by
  rw [List.eraseDups_append]
  split_ifs with h
  · have hnone : [x].removeAll xs = [] := by simp [List.removeAll, h]
    rw [hnone, List.eraseDups_nil, List.append_nil]
  · have hone : [x].removeAll xs = [x] := by simp [List.removeAll, h]
    rw [hone, List.eraseDups_cons]
    rfl

namespace Furthest

variable {f : Furthest} {tests : List FailedTest} {t : FailedTest}

/-- The record of some failed tests: what they come to as a whole. -/
structure Records (f : Furthest) (tests : List FailedTest) : Prop where
  position : f.position = FailedTest.furthest tests
  expected : f.expected.toList = FailedTest.expected tests
  rule? : f.rule? = FailedTest.firstRule? tests

theorem records_none : none.Records [] :=
  ⟨rfl, rfl, rfl⟩

theorem Records.isNone_iff (h : f.Records tests) : f.isNone = true ↔ tests = [] := by
  constructor
  · intro hn
    by_contra hne
    obtain ⟨t, ht⟩ := List.exists_mem_of_ne_nil _ (FailedTest.atFurthest_ne_nil hne)
    have hmem : t.expectation ∈ f.expected.toList := by
      rw [h.expected, FailedTest.expected, List.mem_eraseDups]
      exact List.mem_map_of_mem ht
    simp only [isNone, Bool.and_eq_true, Array.isEmpty_iff] at hn
    rw [hn.1] at hmem
    cases hmem
  · rintro rfl
    obtain ⟨-, hexpected, hrule⟩ := h
    have hempty : f.expected = #[] := Array.toList_eq_nil_iff.1 hexpected
    have hnone : f.rule? = .none := hrule
    rw [isNone, hempty, hnone]
    rfl

theorem Records.record_of_lt (h : f.Records tests)
    (hlt : f.position < t.position ∨ f.isNone = true) :
    (f.record t.position t.rule? t.expectation).Records (tests ++ [t]) := by
  have hall : ∀ u ∈ tests, u.position < t.position := by
    intro u hu
    rcases hlt with hlt | hn
    · rw [h.position] at hlt
      exact Nat.lt_of_le_of_lt (FailedTest.position_le_furthest hu) hlt
    · rw [h.isNone_iff.1 hn] at hu
      cases hu
  obtain ⟨hfar, hat⟩ := FailedTest.append_of_lt hall
  rw [record, if_pos (by simpa using hlt)]
  refine ⟨hfar.symm, ?_, ?_⟩
  · rw [FailedTest.expected, hat, List.map_singleton, List.eraseDups_cons]
    rfl
  · rw [FailedTest.firstRule?, hat]
    rfl

theorem Records.record_of_le (h : f.Records tests)
    (hle : ¬ (f.position < t.position ∨ f.isNone = true)) :
    (f.record t.position t.rule? t.expectation).Records (tests ++ [t]) := by
  have hne : tests ≠ [] := fun hnil => hle (Or.inr (h.isNone_iff.2 hnil))
  have hplace : t.position ≤ FailedTest.furthest tests := by
    rw [← h.position]
    omega
  obtain ⟨hfar, hat⟩ := FailedTest.append_of_le hne hplace
  have hrule : FailedTest.firstRule? (tests ++ [t]) = FailedTest.firstRule? tests := by
    obtain ⟨u, us, hus⟩ := List.exists_cons_of_ne_nil (FailedTest.atFurthest_ne_nil hne)
    rw [FailedTest.firstRule?, FailedTest.firstRule?, hat, hus]
    split_ifs <;> rfl
  have hmem : t.expectation ∈ (FailedTest.atFurthest tests).map (·.expectation) ↔
      t.expectation ∈ f.expected := by
    rw [← Array.mem_toList_iff, h.expected, FailedTest.expected, List.mem_eraseDups]
  rw [record, if_neg (by simpa using hle)]
  by_cases hp : t.position = f.position
  · rw [if_pos (hp.trans h.position)] at hat
    by_cases hc : t.expectation ∈ f.expected
    · rw [if_neg (by simp [hc])]
      refine ⟨h.position.trans hfar.symm, ?_, h.rule?.trans hrule.symm⟩
      rw [h.expected, FailedTest.expected, FailedTest.expected, hat, List.map_append,
        List.map_singleton, eraseDups_concat, if_pos (hmem.2 hc)]
    · rw [if_pos (by simp [hp, hc])]
      refine ⟨h.position.trans hfar.symm, ?_, h.rule?.trans hrule.symm⟩
      rw [Array.toList_push, h.expected, FailedTest.expected, FailedTest.expected, hat,
        List.map_append, List.map_singleton, eraseDups_concat, if_neg (mt hmem.1 hc)]
  · rw [if_neg fun hfur => hp (hfur.trans h.position.symm)] at hat
    rw [if_neg (by simp [hp])]
    refine ⟨h.position.trans hfar.symm, ?_, h.rule?.trans hrule.symm⟩
    rw [h.expected, FailedTest.expected, FailedTest.expected, hat]

theorem Records.record (h : f.Records tests) (t : FailedTest) :
    (f.record t.position t.rule? t.expectation).Records (tests ++ [t]) := by
  by_cases hlt : f.position < t.position ∨ f.isNone = true
  · exact h.record_of_lt hlt
  · exact h.record_of_le hlt

/-- **The running record of some attempts is what they come to as a whole.** -/
theorem records_noteAll (log : List Attempt) :
    (none.noteAll log).Records (log.map Attempt.test) := by
  induction log using List.reverseRecOn with
  | nil => exact records_none
  | append_singleton log a ih =>
    rw [noteAll_append, List.map_append]
    exact ih.record a.test

end Furthest

namespace Grammar

variable {g : Grammar} {tokens : TokenStream} {root : Rule} {production : Production}
  {maxDepth? : Option Nat}

theorem diagnose_eq {f : Furthest} {tests : List FailedTest} (h : f.Records tests) :
    (diagnose tokens f).position = min (FailedTest.furthest tests) tokens.eofIndex ∧
      (diagnose tokens f).expected = FailedTest.expected tests ∧
      (diagnose tokens f).rule? = FailedTest.firstRule? tests :=
  ⟨by rw [← h.position]; rfl, h.expected, h.rule?⟩

/-- **A diagnosis is about the furthest failure of the memo-free evaluation.**  Where a parse
that refuses no rule ends in a diagnosis, take the tests that fail in the derivation of its
root, those of lookaheads and abandoned alternatives included, and the one for the end of
input if the root matches only some of the tokens.  The diagnosis is about the furthest place
of these tests, or the end of input if that lies behind it; it lists what was expected there,
each once and in the order of the first test; and its rule is that of the first test there. -/
theorem diagnosis_of_tests (hroot : g.find? root = some production)
    (hrun : (g.evaluateRoot tokens root production maxDepth?).2.Unrefused) {d : Diagnosis}
    (hd : g.parse tokens root maxDepth? = .error (.recognition d)) :
    ∃ v log, Derives g tokens root (.expr production.body) 0 v log ∧
      d.position = min (FailedTest.furthest (log.map Attempt.test ++ v.endTests tokens))
        tokens.eofIndex ∧
      d.expected = FailedTest.expected (log.map Attempt.test ++ v.endTests tokens) ∧
      d.rule? = FailedTest.firstRule? (log.map Attempt.test ++ v.endTests tokens) := by
  obtain ⟨-, v, log, -, hv, -⟩ := evaluateRoot_derives hrun
  have hrec := Furthest.records_noteAll log
  refine ⟨v, log, hv, ?_⟩
  cases v with
  | failed =>
    rw [parse_of_failed hroot hrun hv] at hd
    cases hd
    rw [Verdict.endTests, List.append_nil]
    exact diagnose_eq hrec
  | matched stop trees =>
    by_cases hstop : stop = tokens.eofIndex ∨ stop = tokens.length
    · obtain ⟨r, hr, -⟩ := parse_of_matched hroot hrun hv hstop
      rw [hr] at hd
      cases hd
    · rw [parse_of_partial hroot hrun hv hstop] at hd
      cases hd
      rw [Verdict.endTests, if_neg hstop]
      exact diagnose_eq (hrec.record ⟨stop, .endOfInput, none⟩)

/-- One token with a semicolon or a comma behind it. -/
def separatorNeeded : Production :=
  ⟨.choice [.seq [.rule .pointerLiteral, .token (.text ";")],
    .seq [.rule .pointerLiteral, .token (.text ",")]], false⟩

/-- A grammar that has it as `booleanLiteral`, and an identifier or a keyword as
`pointerLiteral`. -/
def tokenSeparated : Grammar :=
  ⟨.standard, #[some separatorNeeded,
    some ⟨.choice [.token (.kind .keyword), .token (.kind .identifier)], false⟩]⟩

/-- What is wrong with one token: the separators are missing behind it. -/
def separatorMissing : Diagnosis :=
  ⟨1, 1, 2, 1, 0, [.token (.text ";"), .token (.text ",")], "", some .booleanLiteral⟩

/-- Both separators are missed behind the token.  That it is no keyword is a failed test as well,
but not the furthest one; and the second alternative finds the token remembered, so that the
parser notes it once. -/
theorem diagnosis_tokenSeparated :
    tokenSeparated.find? .booleanLiteral = some separatorNeeded ∧
    (tokenSeparated.evaluateRoot oneToken .booleanLiteral separatorNeeded none).2.Unrefused ∧
    tokenSeparated.parse oneToken .booleanLiteral none = .error (.recognition separatorMissing) ∧
    ∃ v log, Derives tokenSeparated oneToken .booleanLiteral (.expr separatorNeeded.body) 0 v log ∧
      separatorMissing.position =
        min (FailedTest.furthest (log.map Attempt.test ++ v.endTests oneToken))
          oneToken.eofIndex ∧
      separatorMissing.expected =
        FailedTest.expected (log.map Attempt.test ++ v.endTests oneToken) ∧
      separatorMissing.rule? =
        FailedTest.firstRule? (log.map Attempt.test ++ v.endTests oneToken) := by
  have hrun : (tokenSeparated.evaluateRoot oneToken .booleanLiteral separatorNeeded
      none).2.Unrefused := ⟨rfl, rfl⟩
  have hd : tokenSeparated.parse oneToken .booleanLiteral none =
      .error (.recognition separatorMissing) := by cbv
  exact ⟨rfl, hrun, hd, diagnosis_of_tests rfl hrun hd⟩

end Grammar

end PackratCpp
