/-
  How deep rules nest in a derivation.

  * `Settles g tokens n r t p`: the verdict on the task `t` at place `p` is reached with at most
    `n` rules inside each other.
  * `Settles.derives`, `Derives.settles`: some depth is enough exactly where there is a verdict.
  * `Settles.bounded`: then as many rules inside each other as there are pairs of a rule and
    a place are enough.  A depth that settles nothing more than the one before it ends the
    growth for good, and there are only so many pairs to be settled.
  * `Runs.unrefused`: a run with room for the rules of the derivation refuses none.
-/
import Mathlib.Data.Set.Card
import PackratCpp.Proofs.Memo

namespace PackratCpp

/-- A verdict is reached with at most so many rules inside each other. -/
inductive Settles (g : Grammar) (tokens : TokenStream) : Nat → Rule → Task → Nat → Prop
  | token {n r test p} : Settles g tokens n r (.expr (.token test)) p
  | anyToken {n r p} : Settles g tokens n r (.expr .anyToken) p
  | rule {n r q p} :
      (∀ production, g.find? q = some production →
        Settles g tokens n q (.expr production.body) p) →
      Settles g tokens (n + 1) r (.expr (.rule q)) p
  | seq {n r es p} : Settles g tokens n r (.items es) p → Settles g tokens n r (.expr (.seq es)) p
  | itemsDone {n r p} : Settles g tokens n r (.items []) p
  | items {n r e es p} : Settles g tokens n r (.expr e) p →
      (∀ q trees log, Derives g tokens r (.expr e) p (.matched q trees) log →
        Settles g tokens n r (.items es) q) →
      Settles g tokens n r (.items (e :: es)) p
  | choice {n r es p} : Settles g tokens n r (.alternatives es) p →
      Settles g tokens n r (.expr (.choice es)) p
  | alternativesDone {n r p} : Settles g tokens n r (.alternatives []) p
  | alternatives {n r e es p} : Settles g tokens n r (.expr e) p →
      (∀ log, Derives g tokens r (.expr e) p .failed log →
        Settles g tokens n r (.alternatives es) p) →
      Settles g tokens n r (.alternatives (e :: es)) p
  | option {n r e p} : Settles g tokens n r (.expr e) p →
      Settles g tokens n r (.expr (.option e)) p
  | star {n r e p} : Settles g tokens n r (.turns e) p → Settles g tokens n r (.expr (.star e)) p
  | plus {n r e p} : Settles g tokens n r (.turns e) p → Settles g tokens n r (.expr (.plus e)) p
  | turns {n r e p} : Settles g tokens n r (.expr e) p →
      (∀ q trees log, Derives g tokens r (.expr e) p (.matched q trees) log → q ≠ p →
        Settles g tokens n r (.turns e) q) →
      Settles g tokens n r (.turns e) p
  | followedBy {n r e p} : Settles g tokens n r (.expr e) p →
      Settles g tokens n r (.expr (.followedBy e)) p
  | notFollowedBy {n r e p} : Settles g tokens n r (.expr e) p →
      Settles g tokens n r (.expr (.notFollowedBy e)) p
  | epsilon {n r p} : Settles g tokens n r (.expr .epsilon) p
  | never {n r p} : Settles g tokens n r (.expr .never) p

variable {g : Grammar} {tokens : TokenStream} {r : Rule} {t : Task} {p : Nat}

namespace Settles

variable {n m : Nat}

theorem mono (h : Settles g tokens n r t p) (hnm : n ≤ m) : Settles g tokens m r t p := by
  induction h generalizing m with
  | token => exact .token
  | anyToken => exact .anyToken
  | rule _ ih =>
    obtain ⟨m, rfl⟩ : ∃ k, m = k + 1 := ⟨m - 1, by omega⟩
    exact .rule fun production hf => ih production hf (by omega)
  | seq _ ih => exact .seq (ih hnm)
  | itemsDone => exact .itemsDone
  | items _ _ ih₁ ih₂ => exact .items (ih₁ hnm) fun q trees log hd => ih₂ q trees log hd hnm
  | choice _ ih => exact .choice (ih hnm)
  | alternativesDone => exact .alternativesDone
  | alternatives _ _ ih₁ ih₂ => exact .alternatives (ih₁ hnm) fun log hd => ih₂ log hd hnm
  | option _ ih => exact .option (ih hnm)
  | star _ ih => exact .star (ih hnm)
  | plus _ ih => exact .plus (ih hnm)
  | turns _ _ ih₁ ih₂ => exact .turns (ih₁ hnm) fun q trees log hd hq => ih₂ q trees log hd hq hnm
  | followedBy _ ih => exact .followedBy (ih hnm)
  | notFollowedBy _ ih => exact .notFollowedBy (ih hnm)
  | epsilon => exact .epsilon
  | never => exact .never

/-- **What settles has a verdict.** -/
theorem derives (h : Settles g tokens n r t p) : ∃ v log, Derives g tokens r t p v log := by
  induction h with
  | @token _ r test p =>
    cases ht : tokens.get? p with
    | none => exact ⟨_, _, .tokenBeyond ht⟩
    | some t =>
      cases ha : test.accepts t with
      | true => exact ⟨_, _, .tokenPass ht ha⟩
      | false => exact ⟨_, _, .tokenFail ht ha⟩
  | @anyToken _ r p =>
    by_cases he : ∀ t, tokens.get? p = some t → t.isEof = true
    · exact ⟨_, _, .anyFail he⟩
    · simp only [not_forall, Bool.not_eq_true] at he
      obtain ⟨t, ht, he⟩ := he
      exact ⟨_, _, .anyPass ht he⟩
  | @rule _ r q p _ ih =>
    cases hf : g.find? q with
    | none => exact ⟨_, _, .ruleMissing hf⟩
    | some production =>
      obtain ⟨v, log, hd⟩ := ih production hf
      cases v with
      | matched => exact ⟨_, _, .ruleMatch hf hd⟩
      | failed => exact ⟨_, _, .ruleFail hf hd⟩
  | seq _ ih => obtain ⟨v, log, hd⟩ := ih; exact ⟨_, _, .seq hd⟩
  | itemsDone => exact ⟨_, _, .itemsDone⟩
  | items _ _ ih₁ ih₂ =>
    obtain ⟨v, log, hd⟩ := ih₁
    cases v with
    | failed => exact ⟨_, _, .itemsStop hd⟩
    | matched q trees =>
      obtain ⟨w, log', hd'⟩ := ih₂ q trees log hd
      cases w with
      | matched => exact ⟨_, _, .itemsMatch hd hd'⟩
      | failed => exact ⟨_, _, .itemsFail hd hd'⟩
  | choice _ ih => obtain ⟨v, log, hd⟩ := ih; exact ⟨_, _, .choice hd⟩
  | alternativesDone => exact ⟨_, _, .alternativesDone⟩
  | alternatives _ _ ih₁ ih₂ =>
    obtain ⟨v, log, hd⟩ := ih₁
    cases v with
    | matched => exact ⟨_, _, .alternativesMatch hd⟩
    | failed => obtain ⟨w, log', hd'⟩ := ih₂ log hd; exact ⟨_, _, .alternativesNext hd hd'⟩
  | option _ ih =>
    obtain ⟨v, log, hd⟩ := ih
    cases v with
    | matched => exact ⟨_, _, .optionMatch hd⟩
    | failed => exact ⟨_, _, .optionSkip hd⟩
  | star _ ih => obtain ⟨v, log, hd⟩ := ih; exact ⟨_, _, .star hd⟩
  | plus _ ih =>
    obtain ⟨v, log, hd⟩ := ih
    cases hd with
    | turnsStop hd => exact ⟨_, _, .plusFail hd⟩
    | turnsEmpty hd => exact ⟨_, _, .plusEmpty hd⟩
    | turnsMatch hd hq hd' => exact ⟨_, _, .plusMatch hd hq hd'⟩
  | @turns _ _ _ p _ _ ih₁ ih₂ =>
    obtain ⟨v, log, hd⟩ := ih₁
    cases v with
    | failed => exact ⟨_, _, .turnsStop hd⟩
    | matched q trees =>
      by_cases hq : q = p
      · subst hq; exact ⟨_, _, .turnsEmpty hd⟩
      · obtain ⟨w, log', hd'⟩ := ih₂ q trees log hd hq
        cases w with
        | matched => exact ⟨_, _, .turnsMatch hd hq hd'⟩
        | failed => cases hd'
  | followedBy _ ih =>
    obtain ⟨v, log, hd⟩ := ih
    cases v with
    | matched => exact ⟨_, _, .aheadMatch hd⟩
    | failed => exact ⟨_, _, .aheadFail hd⟩
  | notFollowedBy _ ih =>
    obtain ⟨v, log, hd⟩ := ih
    cases v with
    | matched => exact ⟨_, _, .notAheadMatch hd⟩
    | failed => exact ⟨_, _, .notAheadFail hd⟩
  | epsilon => exact ⟨_, _, .epsilon⟩
  | never => exact ⟨_, _, .never⟩

theorem items_max {e : Expr} {es : List Expr} {q : Nat} {trees : List Tree} {log : List Attempt}
    (h : Settles g tokens n r (.expr e) p)
    (hd : Derives g tokens r (.expr e) p (.matched q trees) log)
    (h' : Settles g tokens m r (.items es) q) :
    Settles g tokens (max n m) r (.items (e :: es)) p := by
  refine .items (h.mono (Nat.le_max_left ..)) fun q' trees' log' hd' => ?_
  cases (hd.unique hd').1
  exact h'.mono (Nat.le_max_right ..)

theorem turns_max {e : Expr} {q : Nat} {trees : List Tree} {log : List Attempt}
    (h : Settles g tokens n r (.expr e) p)
    (hd : Derives g tokens r (.expr e) p (.matched q trees) log)
    (h' : Settles g tokens m r (.turns e) q) : Settles g tokens (max n m) r (.turns e) p := by
  refine .turns (h.mono (Nat.le_max_left ..)) fun q' trees' log' hd' _ => ?_
  cases (hd.unique hd').1
  exact h'.mono (Nat.le_max_right ..)

theorem turns_last {e : Expr} {v : Verdict} {log : List Attempt}
    (h : Settles g tokens n r (.expr e) p) (hd : Derives g tokens r (.expr e) p v log)
    (hv : ∀ q trees, v = .matched q trees → q = p) : Settles g tokens n r (.turns e) p :=
  .turns h fun q trees _ hd' hq => absurd (hv q trees (hd.unique hd').1) hq

end Settles

/-- **What has a verdict settles.** -/
theorem Derives.settles {v : Verdict} {log : List Attempt} (h : Derives g tokens r t p v log) :
    ∃ n, Settles g tokens n r t p := by
  induction h with
  | tokenPass | tokenFail | tokenBeyond => exact ⟨0, .token⟩
  | anyPass | anyFail => exact ⟨0, .anyToken⟩
  | ruleMatch hf _ ih | ruleFail hf _ ih =>
    obtain ⟨n, h⟩ := ih
    exact ⟨n + 1, .rule fun production hf' => by rw [hf] at hf'; cases hf'; exact h⟩
  | ruleMissing hf => exact ⟨1, .rule fun production hf' => by rw [hf] at hf'; cases hf'⟩
  | seq _ ih => obtain ⟨n, h⟩ := ih; exact ⟨n, .seq h⟩
  | itemsDone => exact ⟨0, .itemsDone⟩
  | itemsStop hd ih =>
    obtain ⟨n, h⟩ := ih
    exact ⟨n, .items h fun q trees log hd' => by cases (hd.unique hd').1⟩
  | itemsMatch hd _ ih₁ ih₂ | itemsFail hd _ ih₁ ih₂ =>
    obtain ⟨n, h⟩ := ih₁
    obtain ⟨m, h'⟩ := ih₂
    exact ⟨max n m, h.items_max hd h'⟩
  | choice _ ih => obtain ⟨n, h⟩ := ih; exact ⟨n, .choice h⟩
  | alternativesDone => exact ⟨0, .alternativesDone⟩
  | alternativesMatch hd ih =>
    obtain ⟨n, h⟩ := ih
    exact ⟨n, .alternatives h fun log hd' => by cases (hd.unique hd').1⟩
  | alternativesNext _ _ ih₁ ih₂ =>
    obtain ⟨n, h⟩ := ih₁
    obtain ⟨m, h'⟩ := ih₂
    exact ⟨max n m, .alternatives (h.mono (Nat.le_max_left ..)) fun _ _ =>
      h'.mono (Nat.le_max_right ..)⟩
  | optionMatch _ ih | optionSkip _ ih => obtain ⟨n, h⟩ := ih; exact ⟨n, .option h⟩
  | star _ ih => obtain ⟨n, h⟩ := ih; exact ⟨n, .star h⟩
  | plusFail hd ih =>
    obtain ⟨n, h⟩ := ih
    exact ⟨n, .plus (h.turns_last hd fun _ _ hv => by cases hv)⟩
  | plusEmpty hd ih =>
    obtain ⟨n, h⟩ := ih
    exact ⟨n, .plus (h.turns_last hd fun _ _ hv => by cases hv; rfl)⟩
  | plusMatch hd _ _ ih₁ ih₂ =>
    obtain ⟨n, h⟩ := ih₁
    obtain ⟨m, h'⟩ := ih₂
    exact ⟨max n m, .plus (h.turns_max hd h')⟩
  | turnsStop hd ih =>
    obtain ⟨n, h⟩ := ih
    exact ⟨n, h.turns_last hd fun _ _ hv => by cases hv⟩
  | turnsEmpty hd ih =>
    obtain ⟨n, h⟩ := ih
    exact ⟨n, h.turns_last hd fun _ _ hv => by cases hv; rfl⟩
  | turnsMatch hd _ _ ih₁ ih₂ =>
    obtain ⟨n, h⟩ := ih₁
    obtain ⟨m, h'⟩ := ih₂
    exact ⟨max n m, h.turns_max hd h'⟩
  | aheadMatch _ ih | aheadFail _ ih => obtain ⟨n, h⟩ := ih; exact ⟨n, .followedBy h⟩
  | notAheadMatch _ ih | notAheadFail _ ih => obtain ⟨n, h⟩ := ih; exact ⟨n, .notFollowedBy h⟩
  | epsilon => exact ⟨0, .epsilon⟩
  | never => exact ⟨0, .never⟩

/-! ## How deep is deep enough -/

namespace Rule

/-- The place of a rule in the registry. -/
def place (r : Rule) : Fin count :=
  ⟨r.index, r.index_lt_count⟩

theorem place_injective : Function.Injective place :=
  fun _ _ h => index_injective (Fin.mk.inj h)

instance : Finite Rule :=
  Finite.of_injective place place_injective

theorem card_le : Nat.card Rule ≤ count := by
  have h := Nat.card_le_card_of_injective place place_injective
  rwa [Nat.card_fin] at h

end Rule

namespace Settles

variable {n m : Nat}

/-- The rules and places that settle with `n` rules inside each other. -/
def settled (g : Grammar) (tokens : TokenStream) (n : Nat) :
    Set (Rule × Fin (tokens.length + 1)) :=
  {x | Settles g tokens n x.1 (.expr (.rule x.1)) x.2}

theorem around {q : Rule} (h : Settles g tokens n r (.expr (.rule q)) p) (r' : Rule) :
    Settles g tokens n r' (.expr (.rule q)) p := by
  cases h with | rule h => exact .rule h

/-- A depth that is enough for rules wherever another one is, is enough for all tasks wherever
the other one is. -/
theorem of_rules (h : Settles g tokens n r t p) (hp : p ≤ tokens.length)
    (hrules : settled g tokens n ⊆ settled g tokens m) : Settles g tokens m r t p := by
  induction h with
  | token => exact .token
  | anyToken => exact .anyToken
  | @rule _ r q p h =>
    have hq : (q, (⟨p, Nat.lt_succ_of_le hp⟩ : Fin (tokens.length + 1))) ∈ settled g tokens _ :=
      .rule h
    exact (hrules hq).around r
  | seq _ ih => exact .seq (ih hp hrules)
  | itemsDone => exact .itemsDone
  | items _ _ ih₁ ih₂ =>
    exact .items (ih₁ hp hrules) fun q trees log hd =>
      ih₂ q trees log hd (hd.yields.le_length hp) hrules
  | choice _ ih => exact .choice (ih hp hrules)
  | alternativesDone => exact .alternativesDone
  | alternatives _ _ ih₁ ih₂ =>
    exact .alternatives (ih₁ hp hrules) fun log hd => ih₂ log hd hp hrules
  | option _ ih => exact .option (ih hp hrules)
  | star _ ih => exact .star (ih hp hrules)
  | plus _ ih => exact .plus (ih hp hrules)
  | turns _ _ ih₁ ih₂ =>
    exact .turns (ih₁ hp hrules) fun q trees log hd hq =>
      ih₂ q trees log hd hq (hd.yields.le_length hp) hrules
  | followedBy _ ih => exact .followedBy (ih hp hrules)
  | notFollowedBy _ ih => exact .notFollowedBy (ih hp hrules)
  | epsilon => exact .epsilon
  | never => exact .never

theorem settled_mono (g : Grammar) (tokens : TokenStream) {m n : Nat} (hmn : m ≤ n) :
    settled g tokens m ⊆ settled g tokens n :=
  fun _ h => Settles.mono h hmn

theorem settled_stable (h : settled g tokens n = settled g tokens (n + 1)) :
    settled g tokens (n + 1) = settled g tokens (n + 2) := by
  refine Set.Subset.antisymm (settled_mono g tokens (Nat.le_succ _)) ?_
  rintro ⟨q, p⟩ hq
  cases hq with
  | rule hbody =>
    exact .rule fun production hf =>
      (hbody production hf).of_rules (Nat.le_of_lt_succ p.2) h.symm.subset

theorem settled_eq (g : Grammar) (tokens : TokenStream)
    (hn : Rule.count * (tokens.length + 1) ≤ n) :
    settled g tokens n = settled g tokens (Rule.count * (tokens.length + 1)) := by
  have hcard : Nat.card (Rule × Fin (tokens.length + 1)) ≤ Rule.count * (tokens.length + 1) := by
    rw [Nat.card_prod, Nat.card_fin]
    exact Nat.mul_le_mul_right _ Rule.card_le
  have hstable : (settled g tokens n).ncard =
      (settled g tokens (Rule.count * (tokens.length + 1))).ncard := by
    refine Nat.stabilises_of_monotone (f := fun n => (settled g tokens n).ncard)
      (fun k l hkl => Set.ncard_le_ncard (settled_mono g tokens hkl))
      (fun k => (Set.ncard_le_card _).trans hcard) (fun k hk => ?_) hn
    have hk' := Set.eq_of_subset_of_ncard_le (settled_mono g tokens (Nat.le_succ k)) hk.ge
    exact congrArg Set.ncard (settled_stable hk')
  exact (Set.eq_of_subset_of_ncard_le (settled_mono g tokens hn) hstable.le).symm

/-- **What settles at all settles with as many rules inside each other as there are pairs of a
rule and a place.** -/
theorem bounded (h : Settles g tokens n r t p) (hp : p ≤ tokens.length) :
    Settles g tokens (Rule.count * (tokens.length + 1)) r t p := by
  refine (h.mono (Nat.le_max_left n (Rule.count * (tokens.length + 1)))).of_rules hp ?_
  rw [settled_eq g tokens (Nat.le_max_right ..)]

end Settles

/-- **A run with room for the rules of the derivation refuses none.** -/
theorem Runs.unrefused {s : Setup} {room : Nat} {st st' : Findings} {o : Outcome}
    (h : Runs s room r t p st o st') (hst : st.Remembers s.grammar s.tokens)
    (hs : Settles s.grammar s.tokens room r t p) : st'.refusals = st.refusals := by
  induction h with
  | refused => cases hs
  | ruleMatch _ hf _ ih | ruleFail _ hf _ ih | ruleAbort _ hf _ ih =>
    cases hs with | rule hs => exact ih hst (hs _ hf)
  | seq _ ih => cases hs with | seq hs => exact ih hst hs
  | itemsStop _ _ ih => cases hs with | items hs _ => exact ih hst hs
  | itemsNext h₁ _ ih₁ ih₂ =>
    cases hs with
    | items hs hs' =>
      have hr := ih₁ hst hs
      obtain ⟨hst', v, log, hv, hd, -⟩ := h₁.derives hst hr
      cases v <;> cases hv
      exact (ih₂ hst' (hs' _ _ _ hd)).trans hr
  | choice _ ih => cases hs with | choice hs => exact ih hst hs
  | alternativesTake _ _ ih => cases hs with | alternatives hs _ => exact ih hst hs
  | alternativesNext h₁ _ ih₁ ih₂ =>
    cases hs with
    | alternatives hs hs' =>
      have hr := ih₁ hst hs
      obtain ⟨hst', v, log, hv, hd, -⟩ := h₁.derives hst hr
      cases v <;> cases hv
      exact (ih₂ hst' (hs' _ hd)).trans hr
  | option _ ih => cases hs with | option hs => exact ih hst hs
  | star _ ih => cases hs with | star hs => exact ih hst hs
  | plusStop _ _ ih | plusEmpty _ ih =>
    cases hs with | plus hs => cases hs with | turns hs _ => exact ih hst hs
  | turnsStop _ _ ih | turnsEmpty _ ih => cases hs with | turns hs _ => exact ih hst hs
  | plusNext h₁ hq _ ih₁ ih₂ =>
    cases hs with
    | plus hs =>
      cases hs with
      | turns hs hs' =>
        have hr := ih₁ hst hs
        obtain ⟨hst', v, log, hv, hd, -⟩ := h₁.derives hst hr
        cases v <;> cases hv
        exact (ih₂ hst' (hs' _ _ _ hd hq)).trans hr
  | turnsNext h₁ hq _ ih₁ ih₂ =>
    cases hs with
    | turns hs hs' =>
      have hr := ih₁ hst hs
      obtain ⟨hst', v, log, hv, hd, -⟩ := h₁.derives hst hr
      cases v <;> cases hv
      exact (ih₂ hst' (hs' _ _ _ hd hq)).trans hr
  | followedBy _ ih => cases hs with | followedBy hs => exact ih hst hs
  | notFollowedBy _ ih => cases hs with | notFollowedBy hs => exact ih hst hs
  | _ => rfl

end PackratCpp
