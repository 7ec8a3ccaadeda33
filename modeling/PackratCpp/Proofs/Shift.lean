/-
  Nothing before a place matters there.

  * `Tree.shift`, `Verdict.shift`, `Attempt.shift`: the same trees, verdicts and attempts, some
    places further on.
  * `Derives.shift`: what has a verdict in a suffix of a stream has it in the whole stream as
    well, after the same attempts, all of them that much further on.
-/
import PackratCpp.Proofs.Yield

namespace PackratCpp

namespace Tree

mutual

/-- The same tree, `q` places further on. -/
def shift (q : Nat) : Tree → Tree
  | .leaf i => .leaf (i + q)
  | .node r s e cs => .node r (s + q) (e + q) (shiftAll q cs)

/-- The same trees, `q` places further on. -/
def shiftAll (q : Nat) : List Tree → List Tree
  | [] => []
  | t :: ts => shift q t :: shiftAll q ts

end

@[simp] theorem shiftAll_eq_map (q : Nat) (ts : List Tree) : shiftAll q ts = ts.map (shift q) := by
  induction ts with
  | nil => rfl
  | cons t ts ih => rw [shiftAll, ih, List.map_cons]

theorem shift_node (q : Nat) (r : Rule) (s e : Nat) (cs : List Tree) :
    shift q (.node r s e cs) = .node r (s + q) (e + q) (cs.map (shift q)) := by
  rw [shift, shiftAll_eq_map]

theorem shift_tree? (q : Nat) (production : Production) (r : Rule) (p stop : Nat)
    (trees : List Tree) :
    (production.tree? r p stop trees).toList.map (shift q) =
      (production.tree? r (p + q) (stop + q) (trees.map (shift q))).toList := by
  have hnode : shift q (production.node r p stop trees) =
      production.node r (p + q) (stop + q) (trees.map (shift q)) := by
    unfold Production.node
    rcases production with ⟨body, _ | _⟩
    · exact shift_node ..
    · match trees with
      | [] | _ :: _ :: _ => exact shift_node ..
      | [_] => rfl
  unfold Production.tree?
  by_cases hstop : stop = p
  · rw [if_pos hstop, if_pos (by omega)]
    rfl
  · rw [if_neg hstop, if_neg (by omega), ← hnode]
    rfl

end Tree

/-- The same verdict, `q` places further on. -/
def Verdict.shift (q : Nat) : Verdict → Verdict
  | .matched stop trees => .matched (stop + q) (trees.map (Tree.shift q))
  | .failed => .failed

/-- The same attempt, `q` places further on. -/
def Attempt.shift (q : Nat) (a : Attempt) : Attempt :=
  { a with position := a.position + q }

variable {g : Grammar} {tokens : TokenStream}

/-- **Nothing before a place matters there.**  What has a verdict in the suffix of a stream has the
same one in the whole stream, only further on. -/
theorem Derives.shift {q : Nat} (hq : q ≤ tokens.eofIndex) {r : Rule} {t : Task} {p : Nat}
    {v : Verdict} {log : List Attempt} (h : Derives g (tokens.drop q) r t p v log) :
    Derives g tokens r t (p + q) (v.shift q) (log.map (Attempt.shift q)) := by
  have hget := TokenStream.get?_drop hq
  induction h with
  | @tokenPass r test p _ ht ha =>
    rw [hget] at ht
    have hd : Derives g tokens r (.expr (.token test)) (p + q) _ _ := .tokenPass ht ha
    rw [Nat.add_right_comm] at hd
    exact hd
  | tokenFail ht ha => exact .tokenFail ((hget _).symm.trans ht) ha
  | tokenBeyond ht => exact .tokenBeyond ((hget _).symm.trans ht)
  | @anyPass r p _ ht he =>
    rw [hget] at ht
    have hd : Derives g tokens r (.expr .anyToken) (p + q) _ _ := .anyPass ht he
    rw [Nat.add_right_comm] at hd
    exact hd
  | anyFail ht => exact .anyFail fun t h => ht t ((hget _).trans h)
  | ruleMatch hf _ ih =>
    rw [Verdict.shift, Tree.shift_tree?]
    exact .ruleMatch hf ih
  | ruleFail hf _ ih => exact .ruleFail hf ih
  | ruleMissing hf => exact .ruleMissing hf
  | seq _ ih => exact .seq ih
  | itemsDone => exact .itemsDone
  | itemsStop _ ih => exact .itemsStop ih
  | itemsMatch _ _ ih₁ ih₂ =>
    rw [Verdict.shift, List.map_append, List.map_append]
    exact .itemsMatch ih₁ ih₂
  | itemsFail _ _ ih₁ ih₂ =>
    rw [List.map_append]
    exact .itemsFail ih₁ ih₂
  | choice _ ih => exact .choice ih
  | alternativesDone => exact .alternativesDone
  | alternativesMatch _ ih => exact .alternativesMatch ih
  | alternativesNext _ _ ih₁ ih₂ =>
    rw [List.map_append]
    exact .alternativesNext ih₁ ih₂
  | optionMatch _ ih => exact .optionMatch ih
  | optionSkip _ ih => exact .optionSkip ih
  | star _ ih => exact .star ih
  | plusFail _ ih => exact .plusFail ih
  | plusEmpty _ ih => exact .plusEmpty ih
  | plusMatch _ hne _ ih₁ ih₂ =>
    rw [Verdict.shift, List.map_append, List.map_append]
    exact .plusMatch ih₁ (by omega) ih₂
  | turnsStop _ ih => exact .turnsStop ih
  | turnsEmpty _ ih => exact .turnsEmpty ih
  | turnsMatch _ hne _ ih₁ ih₂ =>
    rw [Verdict.shift, List.map_append, List.map_append]
    exact .turnsMatch ih₁ (by omega) ih₂
  | aheadMatch _ ih => exact .aheadMatch ih
  | aheadFail _ ih => exact .aheadFail ih
  | notAheadMatch _ ih => exact .notAheadMatch ih
  | notAheadFail _ ih => exact .notAheadFail ih
  | epsilon => exact .epsilon
  | never => exact .never

end PackratCpp
