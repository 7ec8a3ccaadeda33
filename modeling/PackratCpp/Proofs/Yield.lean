/-
  What expressions can span.

  * `Yields g tokens t p stop trees`: the task `t` can span the tokens from `p` up to `stop`
    with `trees`, the order of alternatives and what lookaheads forbid left out of account.
    It is what a parse can match at most, whatever rules it refuses on the way.
  * `Derives.yields`: what has a derivation is possible in this sense.
  * `Yields.tiling`: the trees span adjacent pieces, from `p` up to `stop`, and their leaves
    (`Tree.Tiling.leavesAll_eq`) are the tokens from `p` up to `stop`.  A match that consumes
    nothing has none (`Yields.eq_nil`).
-/
import PackratCpp.Parse.Derivation
import PackratCpp.Proofs.Stream

namespace PackratCpp

/-- What a task can span. -/
inductive Yields (g : Grammar) (tokens : TokenStream) : Task → Nat → Nat → List Tree → Prop
  | token {test p t} : tokens.get? p = some t → test.accepts t = true →
      Yields g tokens (.expr (.token test)) p (p + 1) [.leaf p]
  | anyToken {p t} : tokens.get? p = some t → t.isEof = false →
      Yields g tokens (.expr .anyToken) p (p + 1) [.leaf p]
  | rule {s production p stop trees} : g.find? s = some production →
      Yields g tokens (.expr production.body) p stop trees →
      Yields g tokens (.expr (.rule s)) p stop (production.tree? s p stop trees).toList
  | seq {es p stop trees} : Yields g tokens (.items es) p stop trees →
      Yields g tokens (.expr (.seq es)) p stop trees
  | itemsDone {p} : Yields g tokens (.items []) p p []
  | itemsNext {e es p q trees stop trees'} : Yields g tokens (.expr e) p q trees →
      Yields g tokens (.items es) q stop trees' →
      Yields g tokens (.items (e :: es)) p stop (trees ++ trees')
  | choice {es p stop trees} : Yields g tokens (.alternatives es) p stop trees →
      Yields g tokens (.expr (.choice es)) p stop trees
  | alternatives {e es p stop trees} : e ∈ es → Yields g tokens (.expr e) p stop trees →
      Yields g tokens (.alternatives es) p stop trees
  | option {e p stop trees} : Yields g tokens (.expr e) p stop trees →
      Yields g tokens (.expr (.option e)) p stop trees
  | optionSkip {e p} : Yields g tokens (.expr (.option e)) p p []
  | star {e p stop trees} : Yields g tokens (.turns e) p stop trees →
      Yields g tokens (.expr (.star e)) p stop trees
  | plusEmpty {e p trees} : Yields g tokens (.expr e) p p trees →
      Yields g tokens (.expr (.plus e)) p p []
  | plus {e p q trees stop trees'} : Yields g tokens (.expr e) p q trees →
      Yields g tokens (.turns e) q stop trees' →
      Yields g tokens (.expr (.plus e)) p stop (trees ++ trees')
  | turnsDone {e p} : Yields g tokens (.turns e) p p []
  | turnsNext {e p q trees stop trees'} : Yields g tokens (.expr e) p q trees →
      Yields g tokens (.turns e) q stop trees' →
      Yields g tokens (.turns e) p stop (trees ++ trees')
  | followedBy {e p stop trees} : Yields g tokens (.expr e) p stop trees →
      Yields g tokens (.expr (.followedBy e)) p p []
  | notFollowedBy {e p} : Yields g tokens (.expr (.notFollowedBy e)) p p []
  | epsilon {p} : Yields g tokens (.expr .epsilon) p p []

variable {g : Grammar} {tokens : TokenStream}

/-- **A match in a derivation is possible.** -/
theorem Derives.yields {r : Rule} {t : Task} {p stop : Nat} {trees : List Tree}
    {log : List Attempt} (h : Derives g tokens r t p (.matched stop trees) log) :
    Yields g tokens t p stop trees := by
  generalize hv : Verdict.matched stop trees = v at h
  induction h generalizing stop trees with
  | tokenPass ht ha => cases hv; exact .token ht ha
  | anyPass ht he => cases hv; exact .anyToken ht he
  | ruleMatch hf _ ih => cases hv; exact .rule hf (ih rfl)
  | seq _ ih => exact .seq (ih hv)
  | itemsDone => cases hv; exact .itemsDone
  | itemsMatch _ _ ih₁ ih₂ => cases hv; exact .itemsNext (ih₁ rfl) (ih₂ rfl)
  | choice _ ih => exact .choice (ih hv)
  | alternativesMatch _ ih => cases hv; exact .alternatives (List.mem_cons_self ..) (ih rfl)
  | alternativesNext _ _ _ ih =>
    cases ih hv with | alternatives hm h => exact .alternatives (List.mem_cons_of_mem _ hm) h
  | optionMatch _ ih => cases hv; exact .option (ih rfl)
  | optionSkip => cases hv; exact .optionSkip
  | star _ ih => exact .star (ih hv)
  | plusEmpty _ ih => cases hv; exact .plusEmpty (ih rfl)
  | plusMatch _ _ _ ih₁ ih₂ => cases hv; exact .plus (ih₁ rfl) (ih₂ rfl)
  | turnsStop | turnsEmpty => cases hv; exact .turnsDone
  | turnsMatch _ _ _ ih₁ ih₂ => cases hv; exact .turnsNext (ih₁ rfl) (ih₂ rfl)
  | aheadMatch _ ih => cases hv; exact .followedBy (ih rfl)
  | notAheadFail => cases hv; exact .notFollowedBy
  | epsilon => cases hv; exact .epsilon
  | tokenFail | tokenBeyond | anyFail | ruleFail | ruleMissing | itemsStop | itemsFail
  | alternativesDone | plusFail | aheadFail | notAheadMatch | never => cases hv

/-! ## Trees side by side -/

namespace Tree

theorem Tiling.append {ts us : List Tree} {p q r : Nat} (h : Tiling ts p q) (h' : Tiling us q r) :
    Tiling (ts ++ us) p r := by
  induction ts generalizing p with
  | nil => cases h; exact h'
  | cons t ts ih =>
    cases h with
    | cons ht hts => exact .cons ht (ih hts)

theorem tiling_tree? {production : Production} {s : Rule} {p stop : Nat} {trees : List Tree}
    (h : Tiling trees p stop) : Tiling (production.tree? s p stop trees).toList p stop := by
  unfold Production.tree?
  split
  · next he => rw [he]; exact .nil
  · have hnode : Tiling [production.node s p stop trees] p stop := by
      unfold Production.node
      split
      · exact h
      · exact .cons (.node h) .nil
    simpa using hnode

mutual

theorem Tiled.leaves_eq {t : Tree} (h : Tiled t) :
    t.leaves = List.range' t.start (t.stop - t.start) ∧ t.start ≤ t.stop := by
  cases h with
  | leaf => simp [leaves, start, stop]
  | node h => exact h.leavesAll_eq

theorem Tiling.leavesAll_eq {ts : List Tree} {p q : Nat} (h : Tiling ts p q) :
    leavesAll ts = List.range' p (q - p) ∧ p ≤ q := by
  cases h with
  | nil => simp [leavesAll]
  | @cons t ts _ ht hts =>
    obtain ⟨ht, htle⟩ := ht.leaves_eq
    obtain ⟨hts, hle⟩ := hts.leavesAll_eq
    refine ⟨?_, Nat.le_trans htle hle⟩
    have hsplit : q - t.start = (t.stop - t.start) + (q - t.stop) := by omega
    have hstop : t.start + (t.stop - t.start) = t.stop := by omega
    rw [leavesAll, ht, hts, hsplit, ← List.range'_append_1, hstop]

end

end Tree

namespace Yields

/-- **The trees span adjacent pieces**, from the place where the task starts up to where it
stops. -/
theorem tiling {t : Task} {p stop : Nat} {trees : List Tree}
    (h : Yields g tokens t p stop trees) : Tree.Tiling trees p stop := by
  induction h with
  | token | anyToken => exact .cons .leaf .nil
  | rule _ _ ih => exact Tree.tiling_tree? ih
  | seq _ ih | choice _ ih | alternatives _ _ ih | option _ ih | star _ ih => exact ih
  | itemsNext _ _ ih₁ ih₂ | plus _ _ ih₁ ih₂ | turnsNext _ _ ih₁ ih₂ => exact ih₁.append ih₂
  | itemsDone | optionSkip | plusEmpty | turnsDone | followedBy | notFollowedBy | epsilon =>
    exact .nil

theorem le {t : Task} {p stop : Nat} {trees : List Tree} (h : Yields g tokens t p stop trees) :
    p ≤ stop := by
  induction h with
  | token | anyToken => exact Nat.le_succ _
  | rule _ _ ih | seq _ ih | choice _ ih | alternatives _ _ ih | option _ ih | star _ ih => exact ih
  | itemsNext _ _ ih₁ ih₂ | plus _ _ ih₁ ih₂ | turnsNext _ _ ih₁ ih₂ => exact Nat.le_trans ih₁ ih₂
  | itemsDone | optionSkip | plusEmpty | turnsDone | followedBy | notFollowedBy | epsilon =>
    exact Nat.le_refl _

theorem eq_nil {t : Task} {p stop : Nat} {trees : List Tree} (h : Yields g tokens t p stop trees)
    (hstop : stop = p) : trees = [] := by
  induction h with
  | token | anyToken => exact absurd hstop (Nat.succ_ne_self _)
  | rule => rw [Production.tree?, if_pos hstop]; rfl
  | seq _ ih | choice _ ih | alternatives _ _ ih | option _ ih | star _ ih => exact ih hstop
  | itemsNext h₁ h₂ ih₁ ih₂ | plus h₁ h₂ ih₁ ih₂ | turnsNext h₁ h₂ ih₁ ih₂ =>
    have hle₁ := h₁.le
    have hle₂ := h₂.le
    rw [ih₁ (by omega), ih₂ (by omega)]
    rfl
  | itemsDone | optionSkip | plusEmpty | turnsDone | followedBy | notFollowedBy | epsilon => rfl

theorem le_length {t : Task} {p stop : Nat} {trees : List Tree}
    (h : Yields g tokens t p stop trees) (hp : p ≤ tokens.length) : stop ≤ tokens.length := by
  induction h with
  | token ht | anyToken ht => exact TokenStream.get?_lt_length ht
  | rule _ _ ih | seq _ ih | choice _ ih | alternatives _ _ ih | option _ ih | star _ ih =>
    exact ih hp
  | itemsNext _ _ ih₁ ih₂ | plus _ _ ih₁ ih₂ | turnsNext _ _ ih₁ ih₂ => exact ih₂ (ih₁ hp)
  | itemsDone | optionSkip | plusEmpty | turnsDone | followedBy | notFollowedBy | epsilon =>
    exact hp

theorem eq_singleton {q : Rule} {p stop : Nat} {trees : List Tree}
    (h : Yields g tokens (.expr (.rule q)) p stop trees) {t : Tree} (ht : t ∈ trees) :
    trees = [t] ∧ t.start = p ∧ t.stop = stop := by
  have htiling := h.tiling
  cases h with
  | rule =>
    have htree := Option.mem_toList.1 ht
    rw [htree, Option.toList_some] at htiling ⊢
    cases htiling with
    | cons _ hnil =>
      cases hnil
      exact ⟨rfl, rfl, rfl⟩

end Yields

end PackratCpp
