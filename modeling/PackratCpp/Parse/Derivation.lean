/-
  What parsing expressions mean, with nothing remembered and no limit on depth.

  * `Verdict`: an expression matches up to some place and yields trees, or it fails.
  * `Attempt`: a token test that failed, or a look for any token at the end of input, and the
    rule at work.
  * `Production.tree?`: the tree of a rule that matched.
  * `Task`: an expression, the rest of a sequence or of a choice, or the further turns of a
    repetition.
  * `Derives`: the verdict on a task at a place, with every failed attempt on the way in
    order, those of lookaheads and abandoned alternatives included.  `Derives.unique`: there
    is at most one.
  * `Grammar.Reads`: a stream has a tree from a root rule.
-/
import PackratCpp.Parse.Basic

namespace PackratCpp

/-- What becomes of an expression at a place. -/
inductive Verdict where
  /-- It matches up to `stop` and yields some trees. -/
  | matched (stop : Nat) (trees : List Tree)
  | failed

/-- A test that failed. -/
structure Attempt where
  position : Nat
  expectation : Expectation
  /-- The innermost rule at work. -/
  rule : Rule

/-- The node of a rule, which gives way to an only child where the rule says so. -/
def Production.node (p : Production) (rule : Rule) (start stop : Nat) (trees : List Tree) : Tree :=
  match p.collapse, trees with
  | true, [t] => t
  | _, _ => .node rule start stop trees

/-- The tree of a rule: none if it consumed nothing. -/
def Production.tree? (p : Production) (rule : Rule) (start stop : Nat) (trees : List Tree) :
    Option Tree :=
  if stop = start then none else some (p.node rule start stop trees)

/-- Something to be matched. -/
inductive Task where
  | expr (e : Expr)
  /-- All of them, one after the other. -/
  | items (es : List Expr)
  /-- The first of them that matches. -/
  | alternatives (es : List Expr)
  /-- As often as it matches something. -/
  | turns (body : Expr)

/-- `Derives g tokens r t p v log`: as a part of the body of the rule `r`, the task `t` has the
verdict `v` at place `p`, after the failed attempts `log`. -/
inductive Derives (g : Grammar) (tokens : TokenStream) :
    Rule → Task → Nat → Verdict → List Attempt → Prop
  -- Single tokens.  Behind the end of input a test fails without an attempt.
  | tokenPass {r test p t} : tokens.get? p = some t → test.accepts t = true →
      Derives g tokens r (.expr (.token test)) p (.matched (p + 1) [.leaf p]) []
  | tokenFail {r test p t} : tokens.get? p = some t → test.accepts t = false →
      Derives g tokens r (.expr (.token test)) p .failed [⟨p, .token test, r⟩]
  | tokenBeyond {r test p} : tokens.get? p = none →
      Derives g tokens r (.expr (.token test)) p .failed []
  | anyPass {r p t} : tokens.get? p = some t → t.isEof = false →
      Derives g tokens r (.expr .anyToken) p (.matched (p + 1) [.leaf p]) []
  | anyFail {r p} : (∀ t, tokens.get? p = some t → t.isEof = true) →
      Derives g tokens r (.expr .anyToken) p .failed [⟨p, .anyToken, r⟩]
  -- Rules.  A rule that consumes nothing yields no tree.
  | ruleMatch {r s production p stop trees log} : g.find? s = some production →
      Derives g tokens s (.expr production.body) p (.matched stop trees) log →
      Derives g tokens r (.expr (.rule s)) p
        (.matched stop (production.tree? s p stop trees).toList) log
  | ruleFail {r s production p log} : g.find? s = some production →
      Derives g tokens s (.expr production.body) p .failed log →
      Derives g tokens r (.expr (.rule s)) p .failed log
  | ruleMissing {r s p} : g.find? s = none → Derives g tokens r (.expr (.rule s)) p .failed []
  -- Sequences.
  | seq {r es p v log} : Derives g tokens r (.items es) p v log →
      Derives g tokens r (.expr (.seq es)) p v log
  | itemsDone {r p} : Derives g tokens r (.items []) p (.matched p []) []
  | itemsStop {r e es p log} : Derives g tokens r (.expr e) p .failed log →
      Derives g tokens r (.items (e :: es)) p .failed log
  | itemsMatch {r e es p q trees log stop trees' log'} :
      Derives g tokens r (.expr e) p (.matched q trees) log →
      Derives g tokens r (.items es) q (.matched stop trees') log' →
      Derives g tokens r (.items (e :: es)) p (.matched stop (trees ++ trees')) (log ++ log')
  | itemsFail {r e es p q trees log log'} :
      Derives g tokens r (.expr e) p (.matched q trees) log →
      Derives g tokens r (.items es) q .failed log' →
      Derives g tokens r (.items (e :: es)) p .failed (log ++ log')
  -- Ordered choices.
  | choice {r es p v log} : Derives g tokens r (.alternatives es) p v log →
      Derives g tokens r (.expr (.choice es)) p v log
  | alternativesDone {r p} : Derives g tokens r (.alternatives []) p .failed []
  | alternativesMatch {r e es p stop trees log} :
      Derives g tokens r (.expr e) p (.matched stop trees) log →
      Derives g tokens r (.alternatives (e :: es)) p (.matched stop trees) log
  | alternativesNext {r e es p log v log'} : Derives g tokens r (.expr e) p .failed log →
      Derives g tokens r (.alternatives es) p v log' →
      Derives g tokens r (.alternatives (e :: es)) p v (log ++ log')
  -- Options and repetitions.  A repetition ends at a turn that consumes nothing.
  | optionMatch {r e p stop trees log} : Derives g tokens r (.expr e) p (.matched stop trees) log →
      Derives g tokens r (.expr (.option e)) p (.matched stop trees) log
  | optionSkip {r e p log} : Derives g tokens r (.expr e) p .failed log →
      Derives g tokens r (.expr (.option e)) p (.matched p []) log
  | star {r e p v log} : Derives g tokens r (.turns e) p v log →
      Derives g tokens r (.expr (.star e)) p v log
  | plusFail {r e p log} : Derives g tokens r (.expr e) p .failed log →
      Derives g tokens r (.expr (.plus e)) p .failed log
  | plusEmpty {r e p trees log} : Derives g tokens r (.expr e) p (.matched p trees) log →
      Derives g tokens r (.expr (.plus e)) p (.matched p []) log
  | plusMatch {r e p q trees log stop trees' log'} :
      Derives g tokens r (.expr e) p (.matched q trees) log → q ≠ p →
      Derives g tokens r (.turns e) q (.matched stop trees') log' →
      Derives g tokens r (.expr (.plus e)) p (.matched stop (trees ++ trees')) (log ++ log')
  | turnsStop {r e p log} : Derives g tokens r (.expr e) p .failed log →
      Derives g tokens r (.turns e) p (.matched p []) log
  | turnsEmpty {r e p trees log} : Derives g tokens r (.expr e) p (.matched p trees) log →
      Derives g tokens r (.turns e) p (.matched p []) log
  | turnsMatch {r e p q trees log stop trees' log'} :
      Derives g tokens r (.expr e) p (.matched q trees) log → q ≠ p →
      Derives g tokens r (.turns e) q (.matched stop trees') log' →
      Derives g tokens r (.turns e) p (.matched stop (trees ++ trees')) (log ++ log')
  -- Lookaheads consume nothing and yield nothing.
  | aheadMatch {r e p stop trees log} : Derives g tokens r (.expr e) p (.matched stop trees) log →
      Derives g tokens r (.expr (.followedBy e)) p (.matched p []) log
  | aheadFail {r e p log} : Derives g tokens r (.expr e) p .failed log →
      Derives g tokens r (.expr (.followedBy e)) p .failed log
  | notAheadMatch {r e p stop trees log} :
      Derives g tokens r (.expr e) p (.matched stop trees) log →
      Derives g tokens r (.expr (.notFollowedBy e)) p .failed log
  | notAheadFail {r e p log} : Derives g tokens r (.expr e) p .failed log →
      Derives g tokens r (.expr (.notFollowedBy e)) p (.matched p []) log
  | epsilon {r p} : Derives g tokens r (.expr .epsilon) p (.matched p []) []
  | never {r p} : Derives g tokens r (.expr .never) p .failed []

namespace Derives

variable {g : Grammar} {tokens : TokenStream}

/-- **Derivations are unique.**  A task has at most one verdict at a place, and it is reached
in one way. -/
theorem unique {r : Rule} {t : Task} {p : Nat} {v w : Verdict} {log log' : List Attempt}
    (h : Derives g tokens r t p v log) (h' : Derives g tokens r t p w log') :
    v = w ∧ log = log' := by
  induction h generalizing w log' with
  | tokenPass ht ha => cases h' <;> simp_all
  | tokenFail ht ha => cases h' <;> simp_all
  | tokenBeyond ht => cases h' <;> simp_all
  | anyPass ht ha => cases h' <;> simp_all
  | anyFail ht => cases h' <;> simp_all
  | ruleMatch hf _ ih =>
    cases h' with
    | ruleMatch hf' h =>
      cases hf.symm.trans hf'
      obtain ⟨hv, rfl⟩ := ih h
      cases hv
      exact ⟨rfl, rfl⟩
    | ruleFail hf' h =>
      cases hf.symm.trans hf'
      cases (ih h).1
    | ruleMissing hf' => cases hf.symm.trans hf'
  | ruleFail hf _ ih =>
    cases h' with
    | ruleMatch hf' h =>
      cases hf.symm.trans hf'
      cases (ih h).1
    | ruleFail hf' h =>
      cases hf.symm.trans hf'
      exact ⟨rfl, (ih h).2⟩
    | ruleMissing hf' => cases hf.symm.trans hf'
  | ruleMissing hf =>
    cases h' with
    | ruleMatch hf' _ => cases hf.symm.trans hf'
    | ruleFail hf' _ => cases hf.symm.trans hf'
    | ruleMissing _ => exact ⟨rfl, rfl⟩
  | seq _ ih => cases h' with | seq h => exact ih h
  | itemsDone => cases h'; exact ⟨rfl, rfl⟩
  | itemsStop _ ih =>
    cases h' with
    | itemsStop h => exact ih h
    | itemsMatch h _ => cases (ih h).1
    | itemsFail h _ => cases (ih h).1
  | itemsMatch _ _ ih₁ ih₂ =>
    cases h' with
    | itemsStop h => cases (ih₁ h).1
    | itemsMatch h k =>
      obtain ⟨hv, rfl⟩ := ih₁ h
      cases hv
      obtain ⟨hv, rfl⟩ := ih₂ k
      cases hv
      exact ⟨rfl, rfl⟩
    | itemsFail h k =>
      cases (ih₁ h).1
      cases (ih₂ k).1
  | itemsFail _ _ ih₁ ih₂ =>
    cases h' with
    | itemsStop h => cases (ih₁ h).1
    | itemsMatch h k =>
      cases (ih₁ h).1
      cases (ih₂ k).1
    | itemsFail h k =>
      obtain ⟨hv, rfl⟩ := ih₁ h
      cases hv
      exact ⟨rfl, by rw [(ih₂ k).2]⟩
  | choice _ ih => cases h' with | choice h => exact ih h
  | alternativesDone => cases h'; exact ⟨rfl, rfl⟩
  | alternativesMatch _ ih =>
    cases h' with
    | alternativesMatch h => exact ih h
    | alternativesNext h _ => cases (ih h).1
  | alternativesNext _ _ ih₁ ih₂ =>
    cases h' with
    | alternativesMatch h => cases (ih₁ h).1
    | alternativesNext h k =>
      obtain ⟨rfl, rfl⟩ := ih₂ k
      exact ⟨rfl, by rw [(ih₁ h).2]⟩
  | optionMatch _ ih =>
    cases h' with
    | optionMatch h => exact ih h
    | optionSkip h => cases (ih h).1
  | optionSkip _ ih =>
    cases h' with
    | optionMatch h => cases (ih h).1
    | optionSkip h => exact ⟨rfl, (ih h).2⟩
  | star _ ih => cases h' with | star h => exact ih h
  | plusFail _ ih =>
    cases h' with
    | plusFail h => exact ih h
    | plusEmpty h => cases (ih h).1
    | plusMatch h _ _ => cases (ih h).1
  | plusEmpty _ ih =>
    cases h' with
    | plusFail h => cases (ih h).1
    | plusEmpty h => exact ⟨rfl, (ih h).2⟩
    | plusMatch h hq _ =>
      cases (ih h).1
      exact absurd rfl hq
  | plusMatch _ hq _ ih₁ ih₂ =>
    cases h' with
    | plusFail h => cases (ih₁ h).1
    | plusEmpty h =>
      cases (ih₁ h).1
      exact absurd rfl hq
    | plusMatch h _ k =>
      obtain ⟨hv, rfl⟩ := ih₁ h
      cases hv
      obtain ⟨hv, rfl⟩ := ih₂ k
      cases hv
      exact ⟨rfl, rfl⟩
  | turnsStop _ ih =>
    cases h' with
    | turnsStop h => exact ⟨rfl, (ih h).2⟩
    | turnsEmpty h => cases (ih h).1
    | turnsMatch h _ _ => cases (ih h).1
  | turnsEmpty _ ih =>
    cases h' with
    | turnsStop h => cases (ih h).1
    | turnsEmpty h => exact ⟨rfl, (ih h).2⟩
    | turnsMatch h hq _ =>
      cases (ih h).1
      exact absurd rfl hq
  | turnsMatch _ hq _ ih₁ ih₂ =>
    cases h' with
    | turnsStop h => cases (ih₁ h).1
    | turnsEmpty h =>
      cases (ih₁ h).1
      exact absurd rfl hq
    | turnsMatch h _ k =>
      obtain ⟨hv, rfl⟩ := ih₁ h
      cases hv
      obtain ⟨hv, rfl⟩ := ih₂ k
      cases hv
      exact ⟨rfl, rfl⟩
  | aheadMatch _ ih =>
    cases h' with
    | aheadMatch h => exact ⟨rfl, (ih h).2⟩
    | aheadFail h => cases (ih h).1
  | aheadFail _ ih =>
    cases h' with
    | aheadMatch h => cases (ih h).1
    | aheadFail h => exact ih h
  | notAheadMatch _ ih =>
    cases h' with
    | notAheadMatch h => exact ⟨rfl, (ih h).2⟩
    | notAheadFail h => cases (ih h).1
  | notAheadFail _ ih =>
    cases h' with
    | notAheadMatch h => cases (ih h).1
    | notAheadFail h => exact ⟨rfl, (ih h).2⟩
  | epsilon => cases h'; exact ⟨rfl, rfl⟩
  | never => cases h'; exact ⟨rfl, rfl⟩

end Derives

/-- A stream has a tree from a root rule: the body of the rule matches every token, with or
without the end of input. -/
inductive Grammar.Reads (g : Grammar) (tokens : TokenStream) (root : Rule) : Tree → Prop
  | intro {production stop trees log} : g.find? root = some production →
      Derives g tokens root (.expr production.body) 0 (.matched stop trees) log →
      stop = tokens.eofIndex ∨ stop = tokens.length →
      Reads g tokens root (production.node root 0 stop trees)

end PackratCpp
