/-
  Grammars in which no rule waits for itself.

  * `Expr.mayBeEmpty`: whether an expression may match without consuming anything, given the
    rules that may.
  * `Expr.startsBelow`: whether the rules that an expression can get to without consuming
    anything are all ranked below some number.
  * `Grammar.Ranked`: every rule starts with rules that are ranked below it, so that no rule gets
    to itself at the same place.
  * `Grammar.Ranked.total`: then every rule has a verdict everywhere.
-/
import PackratCpp.Proofs.Settling

namespace PackratCpp

/-! ## What can be empty -/

namespace Expr

mutual

/-- Whether an expression may match without consuming anything, if the rules of `empty` may. -/
def mayBeEmpty (empty : Rule → Bool) : Expr → Bool
  | .token _ | .anyToken | .never => false
  | .rule r => empty r
  | .seq items => mayAllBeEmpty empty items
  | .choice alternatives => mayOneBeEmpty empty alternatives
  | .plus body => mayBeEmpty empty body
  | .option _ | .star _ | .followedBy _ | .notFollowedBy _ | .epsilon => true

/-- Whether every one of some expressions may. -/
def mayAllBeEmpty (empty : Rule → Bool) : List Expr → Bool
  | [] => true
  | e :: es => mayBeEmpty empty e && mayAllBeEmpty empty es

/-- Whether one of some expressions may. -/
def mayOneBeEmpty (empty : Rule → Bool) : List Expr → Bool
  | [] => false
  | e :: es => mayBeEmpty empty e || mayOneBeEmpty empty es

end

variable {empty : Rule → Bool}

theorem mayOneBeEmpty_of_mem {e : Expr} {es : List Expr} (hm : e ∈ es)
    (h : e.mayBeEmpty empty = true) : mayOneBeEmpty empty es = true := by
  induction es with
  | nil => cases hm
  | cons d es ih =>
    simp only [mayOneBeEmpty, Bool.or_eq_true]
    rcases List.mem_cons.1 hm with rfl | hm
    · exact Or.inl h
    · exact Or.inr (ih hm)

mutual

/-- Whether every rule that an expression can get to without consuming anything is ranked below
`n`. -/
def startsBelow (empty : Rule → Bool) (rank : Rule → Nat) (n : Nat) : Expr → Bool
  | .token _ | .anyToken | .epsilon | .never => true
  | .rule r => decide (rank r < n)
  | .seq items => startBelowInTurn empty rank n items
  | .choice alternatives => startBelow empty rank n alternatives
  | .option body | .star body | .plus body | .followedBy body | .notFollowedBy body =>
    startsBelow empty rank n body

/-- The same for a sequence: an item counts if those before it may all be empty. -/
def startBelowInTurn (empty : Rule → Bool) (rank : Rule → Nat) (n : Nat) : List Expr → Bool
  | [] => true
  | e :: es => startsBelow empty rank n e &&
      (!mayBeEmpty empty e || startBelowInTurn empty rank n es)

/-- The same for each of some expressions. -/
def startBelow (empty : Rule → Bool) (rank : Rule → Nat) (n : Nat) : List Expr → Bool
  | [] => true
  | e :: es => startsBelow empty rank n e && startBelow empty rank n es

end

end Expr

/-- Whether a task may match without consuming anything. -/
def Task.mayBeEmpty (empty : Rule → Bool) : Task → Bool
  | .expr e => e.mayBeEmpty empty
  | .items es => Expr.mayAllBeEmpty empty es
  | .alternatives es => Expr.mayOneBeEmpty empty es
  | .turns _ => true

/-- Every rule that may be empty is in `empty`, and no rule gets to one of its own rank, or
above, without consuming anything. -/
structure Grammar.Ranked (g : Grammar) (empty : Rule → Bool) (rank : Rule → Nat) : Prop where
  empty_of : ∀ r production, g.find? r = some production →
    production.body.mayBeEmpty empty = true → empty r = true
  starts_below : ∀ r production, g.find? r = some production →
    production.body.startsBelow empty rank (rank r) = true

variable {g : Grammar} {tokens : TokenStream} {empty : Rule → Bool} {rank : Rule → Nat}

/-- **A match consumes something, or the task is one that may be empty.** -/
theorem Yields.lt_or_mayBeEmpty
    (hempty : ∀ r production, g.find? r = some production →
      production.body.mayBeEmpty empty = true → empty r = true)
    {t : Task} {p stop : Nat} {trees : List Tree} (h : Yields g tokens t p stop trees) :
    p < stop ∨ t.mayBeEmpty empty = true := by
  induction h with
  | token | anyToken => exact Or.inl (Nat.lt_succ_self _)
  | rule hf _ ih => exact ih.imp_right (hempty _ _ hf)
  | seq _ ih | choice _ ih => exact ih
  | itemsDone | optionSkip | option | star | turnsDone | turnsNext | followedBy | notFollowedBy
  | epsilon => exact Or.inr rfl
  | itemsNext h₁ h₂ ih₁ ih₂ =>
    have hle₁ := h₁.le
    have hle₂ := h₂.le
    rcases ih₁ with hlt | he₁
    · exact Or.inl (by omega)
    rcases ih₂ with hlt | he₂
    · exact Or.inl (by omega)
    · exact Or.inr (by simp only [Task.mayBeEmpty, Expr.mayAllBeEmpty] at *; rw [he₁, he₂]; rfl)
  | alternatives hm _ ih => exact ih.imp_right (Expr.mayOneBeEmpty_of_mem hm)
  | plusEmpty _ ih => exact ih
  | plus _ h₂ ih₁ _ => exact ih₁.imp_left fun hlt => Nat.lt_of_lt_of_le hlt h₂.le

/-! ## Everything has a verdict -/

section
variable {p n : Nat} {r : Rule}

/-- A repetition has a verdict from `q` on, if its body has one there and further on.  The
induction is on what is left of the stream; every turn but the last one gets further. -/
theorem turns_total {e : Expr} {q : Nat} (hq : q ≤ tokens.length)
    (he : ∀ q', q ≤ q' → q' ≤ tokens.length → ∃ v log, Derives g tokens r (.expr e) q' v log) :
    ∃ v log, Derives g tokens r (.turns e) q v log := by
  induction hn : tokens.length - q using Nat.strong_induction_on generalizing q with
  | _ n ih =>
    obtain ⟨v, log, hd⟩ := he q (Nat.le_refl _) hq
    cases v with
    | failed => exact ⟨_, _, .turnsStop hd⟩
    | matched q' trees =>
      have hle := hd.yields.le
      have hlen := hd.yields.le_length hq
      by_cases hne : q' = q
      · subst hne
        exact ⟨_, _, .turnsEmpty hd⟩
      · obtain ⟨w, log', hd'⟩ := ih (tokens.length - q') (by omega) hlen
          (fun q'' hq'' => he q'' (Nat.le_trans hle hq'')) rfl
        cases w with
        | matched => exact ⟨_, _, .turnsMatch hd hne hd'⟩
        | failed => cases hd'

/-- The rules ranked below `n` have verdicts at `p`, and all rules have them further on. -/
def TotalBelow (g : Grammar) (tokens : TokenStream) (rank : Rule → Nat) (r : Rule) (n p : Nat) :
    Prop :=
  ∀ s q, p ≤ q → q ≤ tokens.length → (q = p → rank s < n) →
    ∃ v log, Derives g tokens r (.expr (.rule s)) q v log

namespace Expr

mutual

/-- An expression has a verdict where the rules that it gets to have them.  Only at `p` itself
does it matter what it starts with. -/
theorem total (h : g.Ranked empty rank) (hr : TotalBelow g tokens rank r n p) :
    ∀ (e : Expr) (q : Nat), p ≤ q → q ≤ tokens.length →
    (q = p → e.startsBelow empty rank n = true) → ∃ v log, Derives g tokens r (.expr e) q v log
  | .token test, q, _, _, _ => (Settles.token (n := 0)).derives
  | .anyToken, q, _, _, _ => (Settles.anyToken (n := 0)).derives
  | .rule s, q, hp, hq, hs => hr s q hp hq fun he => by simpa [startsBelow] using hs he
  | .seq es, q, hp, hq, hs => by
    obtain ⟨v, log, hd⟩ := items_total h hr es q hp hq hs
    exact ⟨v, log, .seq hd⟩
  | .choice es, q, hp, hq, hs => by
    obtain ⟨v, log, hd⟩ := alternatives_total h hr es q hp hq hs
    exact ⟨v, log, .choice hd⟩
  | .option e, q, hp, hq, hs => by
    obtain ⟨v, log, hd⟩ := total h hr e q hp hq hs
    cases v with
    | matched => exact ⟨_, _, .optionMatch hd⟩
    | failed => exact ⟨_, _, .optionSkip hd⟩
  | .star e, q, hp, hq, hs => by
    obtain ⟨v, log, hd⟩ := turns_total hq fun q' hle hlen =>
      total h hr e q' (Nat.le_trans hp hle) hlen fun _ => hs (by omega)
    exact ⟨v, log, .star hd⟩
  | .plus e, q, hp, hq, hs => by
    obtain ⟨v, log, hd⟩ := turns_total hq fun q' hle hlen =>
      total h hr e q' (Nat.le_trans hp hle) hlen fun _ => hs (by omega)
    cases hd with
    | turnsStop hd => exact ⟨_, _, .plusFail hd⟩
    | turnsEmpty hd => exact ⟨_, _, .plusEmpty hd⟩
    | turnsMatch hd hne hd' => exact ⟨_, _, .plusMatch hd hne hd'⟩
  | .followedBy e, q, hp, hq, hs => by
    obtain ⟨v, log, hd⟩ := total h hr e q hp hq hs
    cases v with
    | matched => exact ⟨_, _, .aheadMatch hd⟩
    | failed => exact ⟨_, _, .aheadFail hd⟩
  | .notFollowedBy e, q, hp, hq, hs => by
    obtain ⟨v, log, hd⟩ := total h hr e q hp hq hs
    cases v with
    | matched => exact ⟨_, _, .notAheadMatch hd⟩
    | failed => exact ⟨_, _, .notAheadFail hd⟩
  | .epsilon, _, _, _, _ => ⟨_, _, .epsilon⟩
  | .never, _, _, _, _ => ⟨_, _, .never⟩

theorem items_total (h : g.Ranked empty rank) (hr : TotalBelow g tokens rank r n p) :
    ∀ (es : List Expr) (q : Nat), p ≤ q → q ≤ tokens.length →
    (q = p → startBelowInTurn empty rank n es = true) →
    ∃ v log, Derives g tokens r (.items es) q v log
  | [], _, _, _, _ => ⟨_, _, .itemsDone⟩
  | e :: es, q, hp, hq, hs => by
    simp only [startBelowInTurn, Bool.and_eq_true, Bool.or_eq_true, Bool.not_eq_true'] at hs
    obtain ⟨v, log, hd⟩ := total h hr e q hp hq fun he => (hs he).1
    cases v with
    | failed => exact ⟨_, _, .itemsStop hd⟩
    | matched q' trees =>
      have hle := hd.yields.le
      -- The rest starts at `p` only if the first item was empty there.
      obtain ⟨w, log', hd'⟩ := items_total h hr es q' (Nat.le_trans hp hle)
        (hd.yields.le_length hq) fun hp' => by
          have he := (hd.yields.lt_or_mayBeEmpty h.empty_of).resolve_left (by omega)
          refine (hs (by omega)).2.resolve_left fun hne => ?_
          simp only [Task.mayBeEmpty] at he
          rw [hne] at he
          cases he
      cases w with
      | matched => exact ⟨_, _, .itemsMatch hd hd'⟩
      | failed => exact ⟨_, _, .itemsFail hd hd'⟩

theorem alternatives_total (h : g.Ranked empty rank) (hr : TotalBelow g tokens rank r n p) :
    ∀ (es : List Expr) (q : Nat), p ≤ q → q ≤ tokens.length →
    (q = p → startBelow empty rank n es = true) →
    ∃ v log, Derives g tokens r (.alternatives es) q v log
  | [], _, _, _, _ => ⟨_, _, .alternativesDone⟩
  | e :: es, q, hp, hq, hs => by
    simp only [startBelow, Bool.and_eq_true] at hs
    obtain ⟨v, log, hd⟩ := total h hr e q hp hq fun he => (hs he).1
    cases v with
    | matched => exact ⟨_, _, .alternativesMatch hd⟩
    | failed =>
      obtain ⟨w, log', hd'⟩ := alternatives_total h hr es q hp hq fun he => (hs he).2
      exact ⟨_, _, .alternativesNext hd hd'⟩

end

end Expr

end

namespace Grammar.Ranked

/-- **In a ranked grammar every rule has a verdict everywhere.**  The induction is on what is left
of the stream, and at one place on the rank of the rule. -/
theorem total (h : g.Ranked empty rank) (r s : Rule) {p : Nat} (hp : p ≤ tokens.length) :
    ∃ v log, Derives g tokens r (.expr (.rule s)) p v log := by
  induction hn : tokens.length - p using Nat.strong_induction_on generalizing r s p with
  | _ n ihplace =>
    induction hk : rank s using Nat.strong_induction_on generalizing r s with
    | _ k ihrank =>
      cases hf : g.find? s with
      | none => exact ⟨_, _, .ruleMissing hf⟩
      | some production =>
        have hrules : TotalBelow g tokens rank s (rank s) p := by
          intro s' q hle hlen hlow
          by_cases hq : q = p
          · subst hq
            exact ihrank (rank s') (hk ▸ hlow rfl) s s' rfl
          · exact ihplace (tokens.length - q) (by omega) s s' hlen rfl
        obtain ⟨v, log, hd⟩ := production.body.total h hrules p (Nat.le_refl _) hp fun _ =>
          h.starts_below s production hf
        cases v with
        | matched => exact ⟨_, _, .ruleMatch hf hd⟩
        | failed => exact ⟨_, _, .ruleFail hf hd⟩

theorem body_total (h : g.Ranked empty rank) {s : Rule} {production : Production}
    (hf : g.find? s = some production) {p : Nat} (hp : p ≤ tokens.length) :
    ∃ v log, Derives g tokens s (.expr production.body) p v log := by
  obtain ⟨v, log, hd⟩ := h.total s s hp
  cases hd with
  | ruleMatch hf' hd | ruleFail hf' hd =>
    rw [hf] at hf'
    cases hf'
    exact ⟨_, _, hd⟩
  | ruleMissing hf' => rw [hf] at hf'; cases hf'

end Grammar.Ranked

end PackratCpp
