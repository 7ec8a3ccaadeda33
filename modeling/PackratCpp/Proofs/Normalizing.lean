/-
  Normal forms of parsing expressions mean the same.

  * `Grammar.Carries`: wherever one task has a verdict, so has another one, and the same.
  * `Expr.sequence_carries` and so on: each operator in normal form keeps the verdict of the
    operator itself.
  * `Expr.normalize_carries`: so does the normal form of an expression.
  * `Grammar.normalized`: a grammar with all of its bodies in normal form.
  * `Expr.IsNormal`: `never` is nowhere but alone, nothing in vain is written.
  * `Grammar.normalize_preserves`: normal forms keep verdicts and parses, and the bodies of every
    dialect are in normal form.

  Only one direction holds.  A sequence with a part that never matches is `never` at once, where the
  part before it may have no verdict at all.
-/
import PackratCpp.Proofs.Agreement
import PackratCpp.Proofs.Standard

namespace PackratCpp

/-! ## Operators -/

/-- Wherever the one task has a verdict, the other one has the same, whatever is tried on the way. -/
def Grammar.Carries (g : Grammar) (tokens : TokenStream) (r : Rule) (t t' : Task) : Prop :=
  ∀ ⦃p v log⦄, Derives g tokens r t p v log → ∃ log', Derives g tokens r t' p v log'

variable {g : Grammar} {tokens : TokenStream} {r : Rule}

namespace Grammar.Carries

theorem refl (t : Task) : g.Carries tokens r t t :=
  fun _ _ _ h => ⟨_, h⟩

theorem trans {t t' u : Task} (h : g.Carries tokens r t t') (h' : g.Carries tokens r t' u) :
    g.Carries tokens r t u :=
  fun _ _ _ hd => let ⟨_, hd'⟩ := h hd; h' hd'

/-! ### Parts of an operator -/

variable {e e' : Expr} {es es' : List Expr}

theorem seq (h : g.Carries tokens r (.items es) (.items es')) :
    g.Carries tokens r (.expr (.seq es)) (.items es') := by
  intro p v log hd
  cases hd with
  | seq hd => exact h hd

theorem items (he : g.Carries tokens r (.expr e) (.expr e'))
    (hes : g.Carries tokens r (.items es) (.items es')) :
    g.Carries tokens r (.items (e :: es)) (.items (e' :: es')) := by
  intro p v log hd
  cases hd with
  | itemsStop hd =>
    obtain ⟨_, hd⟩ := he hd
    exact ⟨_, .itemsStop hd⟩
  | itemsMatch hd hds =>
    obtain ⟨_, hd⟩ := he hd
    obtain ⟨_, hds⟩ := hes hds
    exact ⟨_, .itemsMatch hd hds⟩
  | itemsFail hd hds =>
    obtain ⟨_, hd⟩ := he hd
    obtain ⟨_, hds⟩ := hes hds
    exact ⟨_, .itemsFail hd hds⟩

theorem choice (h : g.Carries tokens r (.alternatives es) (.alternatives es')) :
    g.Carries tokens r (.expr (.choice es)) (.alternatives es') := by
  intro p v log hd
  cases hd with
  | choice hd => exact h hd

theorem alternatives (he : g.Carries tokens r (.expr e) (.expr e'))
    (hes : g.Carries tokens r (.alternatives es) (.alternatives es')) :
    g.Carries tokens r (.alternatives (e :: es)) (.alternatives (e' :: es')) := by
  intro p v log hd
  cases hd with
  | alternativesMatch hd =>
    obtain ⟨_, hd⟩ := he hd
    exact ⟨_, .alternativesMatch hd⟩
  | alternativesNext hd hds =>
    obtain ⟨_, hd⟩ := he hd
    obtain ⟨_, hds⟩ := hes hds
    exact ⟨_, .alternativesNext hd hds⟩

section
variable (h : g.Carries tokens r (.expr e) (.expr e'))
include h

theorem option : g.Carries tokens r (.expr (.option e)) (.expr (.option e')) := by
  intro p v log hd
  cases hd with
  | optionMatch hd => obtain ⟨_, hd⟩ := h hd; exact ⟨_, .optionMatch hd⟩
  | optionSkip hd => obtain ⟨_, hd⟩ := h hd; exact ⟨_, .optionSkip hd⟩

/-- The induction is on the turns. -/
theorem turns : g.Carries tokens r (.turns e) (.turns e') := by
  intro p v log hd
  generalize ht : Task.turns e = t at hd
  induction hd with
  | turnsStop hd => cases ht; obtain ⟨_, hd⟩ := h hd; exact ⟨_, .turnsStop hd⟩
  | turnsEmpty hd => cases ht; obtain ⟨_, hd⟩ := h hd; exact ⟨_, .turnsEmpty hd⟩
  | turnsMatch hd hq _ _ ih =>
    cases ht
    obtain ⟨_, hd⟩ := h hd
    obtain ⟨_, hds⟩ := ih h rfl
    exact ⟨_, .turnsMatch hd hq hds⟩
  | _ => cases ht

theorem star : g.Carries tokens r (.expr (.star e)) (.expr (.star e')) := by
  intro p v log hd
  cases hd with
  | star hd => obtain ⟨_, hd⟩ := h.turns hd; exact ⟨_, .star hd⟩

theorem plus : g.Carries tokens r (.expr (.plus e)) (.expr (.plus e')) := by
  intro p v log hd
  cases hd with
  | plusFail hd => obtain ⟨_, hd⟩ := h hd; exact ⟨_, .plusFail hd⟩
  | plusEmpty hd => obtain ⟨_, hd⟩ := h hd; exact ⟨_, .plusEmpty hd⟩
  | plusMatch hd hq hds =>
    obtain ⟨_, hd⟩ := h hd
    obtain ⟨_, hds⟩ := h.turns hds
    exact ⟨_, .plusMatch hd hq hds⟩

theorem followedBy : g.Carries tokens r (.expr (.followedBy e)) (.expr (.followedBy e')) := by
  intro p v log hd
  cases hd with
  | aheadMatch hd => obtain ⟨_, hd⟩ := h hd; exact ⟨_, .aheadMatch hd⟩
  | aheadFail hd => obtain ⟨_, hd⟩ := h hd; exact ⟨_, .aheadFail hd⟩

theorem notFollowedBy :
    g.Carries tokens r (.expr (.notFollowedBy e)) (.expr (.notFollowedBy e')) := by
  intro p v log hd
  cases hd with
  | notAheadMatch hd => obtain ⟨_, hd⟩ := h hd; exact ⟨_, .notAheadMatch hd⟩
  | notAheadFail hd => obtain ⟨_, hd⟩ := h hd; exact ⟨_, .notAheadFail hd⟩

end

end Grammar.Carries

namespace Expr

theorem isNever_iff {e : Expr} : e.isNever = true ↔ e = .never := by
  cases e <;> simp [isNever]

theorem isEpsilon_iff {e : Expr} : e.isEpsilon = true ↔ e = .epsilon := by
  cases e <;> simp [isEpsilon]

/-! ### Operators in normal form -/

theorem failed_of_any_isNever {es : List Expr} {p : Nat} {v : Verdict} {log : List Attempt}
    (h : Derives g tokens r (.items es) p v log) (hany : es.any isNever = true) : v = .failed := by
  induction es generalizing p v log with
  | nil => cases hany
  | cons e es ih =>
    cases h with
    | itemsStop | itemsFail => rfl
    | itemsMatch hd hds =>
      rw [List.any_cons, Bool.or_eq_true, isNever_iff] at hany
      rcases hany with rfl | hany
      · cases hd
      · cases ih hds hany

theorem filter_items_carries (es : List Expr) :
    g.Carries tokens r (.items es) (.items (es.filter fun e => !e.isEpsilon)) := by
  induction es with
  | nil => exact .refl _
  | cons e es ih =>
    by_cases he : e.isEpsilon = true
    · rw [List.filter_cons_of_neg (by simp [he])]
      obtain rfl := isEpsilon_iff.1 he
      intro p v log hd
      cases hd with
      | itemsStop hd => cases hd
      | itemsMatch hd hds | itemsFail hd hds => cases hd; exact ih hds
    · rw [List.filter_cons_of_pos (by simp [he])]
      exact .items (.refl _) ih

theorem sequence_carries (es : List Expr) :
    g.Carries tokens r (.items es) (.expr (sequence es)) := by
  unfold sequence
  split_ifs with hany
  · intro p v log hd
    obtain rfl := failed_of_any_isNever hd hany
    exact ⟨_, .never⟩
  refine (filter_items_carries es).trans ?_
  generalize es.filter (fun e => !e.isEpsilon) = rest
  split
  · intro p v log hd
    cases hd
    exact ⟨_, .epsilon⟩
  · -- the only part: there is nothing behind it
    intro p v log hd
    cases hd with
    | itemsStop hd => exact ⟨_, hd⟩
    | itemsMatch hd hnil => cases hnil; exact ⟨_, by rwa [List.append_nil]⟩
    | itemsFail _ hnil => cases hnil
  · exact fun _ _ _ hd => ⟨_, .seq hd⟩

theorem filter_alternatives_carries (es : List Expr) :
    g.Carries tokens r (.alternatives es) (.alternatives (es.filter fun e => !e.isNever)) := by
  induction es with
  | nil => exact .refl _
  | cons e es ih =>
    by_cases he : e.isNever = true
    · rw [List.filter_cons_of_neg (by simp [he])]
      obtain rfl := isNever_iff.1 he
      intro p v log hd
      cases hd with
      | alternativesMatch hd => cases hd
      | alternativesNext _ hds => exact ih hds
    · rw [List.filter_cons_of_pos (by simp [he])]
      exact .alternatives (.refl _) ih

theorem firstOf_carries (es : List Expr) :
    g.Carries tokens r (.alternatives es) (.expr (firstOf es)) := by
  unfold firstOf
  refine (filter_alternatives_carries es).trans ?_
  generalize es.filter (fun e => !e.isNever) = rest
  split
  · intro p v log hd
    cases hd
    exact ⟨_, .never⟩
  · intro p v log hd
    cases hd with
    | alternativesMatch hd => exact ⟨_, hd⟩
    | alternativesNext hd hnil => cases hnil; exact ⟨_, hd⟩
  · exact fun _ _ _ hd => ⟨_, .choice hd⟩

theorem optional_carries (e : Expr) :
    g.Carries tokens r (.expr (.option e)) (.expr (optional e)) := by
  intro p v log hd
  unfold optional
  split
  · cases hd with
    | optionMatch hd => cases hd
    | optionSkip => exact ⟨_, .epsilon⟩
  · cases hd with
    | optionMatch hd => cases hd; exact ⟨_, .epsilon⟩
    | optionSkip hd => cases hd
  · exact ⟨_, hd⟩

theorem zeroOrMore_carries (e : Expr) :
    g.Carries tokens r (.expr (.star e)) (.expr (zeroOrMore e)) := by
  intro p v log hd
  unfold zeroOrMore
  split
  · cases hd with
    | star hd =>
      cases hd with
      | turnsStop => exact ⟨_, .epsilon⟩
      | turnsEmpty hd | turnsMatch hd => cases hd
  · cases hd with
    | star hd =>
      cases hd with
      | turnsStop hd => cases hd
      | turnsEmpty => exact ⟨_, .epsilon⟩
      | turnsMatch hd hq => cases hd; exact absurd rfl hq
  · exact ⟨_, hd⟩

theorem oneOrMore_carries (e : Expr) :
    g.Carries tokens r (.expr (.plus e)) (.expr (oneOrMore e)) := by
  intro p v log hd
  unfold oneOrMore
  split
  · cases hd with
    | plusFail => exact ⟨_, .never⟩
    | plusEmpty hd | plusMatch hd => cases hd
  · cases hd with
    | plusFail hd => cases hd
    | plusEmpty => exact ⟨_, .epsilon⟩
    | plusMatch hd hq => cases hd; exact absurd rfl hq
  · exact ⟨_, hd⟩

theorem next_carries (e : Expr) :
    g.Carries tokens r (.expr (.followedBy e)) (.expr (next e)) := by
  intro p v log hd
  unfold next
  split
  · cases hd with
    | aheadMatch hd => cases hd
    | aheadFail => exact ⟨_, .never⟩
  · cases hd with
    | aheadMatch => exact ⟨_, .epsilon⟩
    | aheadFail hd => cases hd
  · exact ⟨_, hd⟩

theorem nextNot_carries (e : Expr) :
    g.Carries tokens r (.expr (.notFollowedBy e)) (.expr (nextNot e)) := by
  intro p v log hd
  unfold nextNot
  split
  · cases hd with
    | notAheadMatch hd => cases hd
    | notAheadFail => exact ⟨_, .epsilon⟩
  · cases hd with
    | notAheadMatch => exact ⟨_, .never⟩
    | notAheadFail hd => cases hd
  · exact ⟨_, hd⟩

/-! ### Expressions -/

theorem normalize_gate (enabled : Bool) (e : Expr) :
    (gate enabled e).normalize = gate enabled e.normalize := by
  cases enabled <;> rfl

mutual

/-- **The normal form of an expression keeps its verdicts.** -/
theorem normalize_carries : ∀ e : Expr, g.Carries tokens r (.expr e) (.expr e.normalize)
  | .seq es => (Grammar.Carries.seq (normalizeAll_items_carries es)).trans (sequence_carries _)
  | .choice es =>
    (Grammar.Carries.choice (normalizeAll_alternatives_carries es)).trans (firstOf_carries _)
  | .option e => (normalize_carries e).option.trans (optional_carries _)
  | .star e => (normalize_carries e).star.trans (zeroOrMore_carries _)
  | .plus e => (normalize_carries e).plus.trans (oneOrMore_carries _)
  | .followedBy e => (normalize_carries e).followedBy.trans (next_carries _)
  | .notFollowedBy e => (normalize_carries e).notFollowedBy.trans (nextNot_carries _)
  | .token _ | .anyToken | .rule _ | .epsilon | .never => .refl _

theorem normalizeAll_items_carries :
    ∀ es : List Expr, g.Carries tokens r (.items es) (.items (normalizeAll es))
  | [] => .refl _
  | e :: es => .items (normalize_carries e) (normalizeAll_items_carries es)

theorem normalizeAll_alternatives_carries :
    ∀ es : List Expr, g.Carries tokens r (.alternatives es) (.alternatives (normalizeAll es))
  | [] => .refl _
  | e :: es => .alternatives (normalize_carries e) (normalizeAll_alternatives_carries es)

end

end Expr

/-! ## Tables -/

/-- A production with its body in normal form. -/
def Production.normalized (p : Production) : Production :=
  { p with body := p.body.normalize }

/-- The grammar with all bodies in normal form. -/
def Grammar.normalized (g : Grammar) : Grammar :=
  g.mapProductions Production.normalized

theorem Grammar.find?_normalized (g : Grammar) (rule : Rule) :
    g.normalized.find? rule = (g.find? rule).map Production.normalized :=
  g.find?_mapProductions _ rule

/-- **Verdicts stay when all bodies are put into normal form.**  The induction is on the derivation;
the body of each rule has its verdict in the new table before it is put into normal form there. -/
theorem Derives.normalized {t : Task} {p : Nat} {v : Verdict} {log : List Attempt}
    (h : Derives g tokens r t p v log) : ∃ log', Derives g.normalized tokens r t p v log' := by
  have hfind : ∀ {s production}, g.find? s = some production →
      g.normalized.find? s = some production.normalized := by
    intro s production hf
    rw [Grammar.find?_normalized, hf, Option.map_some]
  induction h with
  | tokenPass hi ha => exact ⟨_, .tokenPass hi ha⟩
  | tokenFail hi ha => exact ⟨_, .tokenFail hi ha⟩
  | tokenBeyond hi => exact ⟨_, .tokenBeyond hi⟩
  | anyPass hi he => exact ⟨_, .anyPass hi he⟩
  | anyFail hi => exact ⟨_, .anyFail hi⟩
  | @ruleMatch _ _ production _ _ _ _ hf _ ih =>
    obtain ⟨_, hd⟩ := ih
    obtain ⟨_, hd⟩ := Expr.normalize_carries _ hd
    exact ⟨_, @ruleMatch _ _ _ _ production.normalized _ _ _ _ (hfind hf) hd⟩
  | ruleFail hf _ ih =>
    obtain ⟨_, hd⟩ := ih
    obtain ⟨_, hd⟩ := Expr.normalize_carries _ hd
    exact ⟨_, .ruleFail (hfind hf) hd⟩
  | ruleMissing hf => exact ⟨_, .ruleMissing (by rw [Grammar.find?_normalized, hf, Option.map_none])⟩
  | seq _ ih => obtain ⟨_, hd⟩ := ih; exact ⟨_, .seq hd⟩
  | itemsDone => exact ⟨_, .itemsDone⟩
  | itemsStop _ ih => obtain ⟨_, hd⟩ := ih; exact ⟨_, .itemsStop hd⟩
  | itemsMatch _ _ ih₁ ih₂ =>
    obtain ⟨_, hd₁⟩ := ih₁; obtain ⟨_, hd₂⟩ := ih₂; exact ⟨_, .itemsMatch hd₁ hd₂⟩
  | itemsFail _ _ ih₁ ih₂ =>
    obtain ⟨_, hd₁⟩ := ih₁; obtain ⟨_, hd₂⟩ := ih₂; exact ⟨_, .itemsFail hd₁ hd₂⟩
  | choice _ ih => obtain ⟨_, hd⟩ := ih; exact ⟨_, .choice hd⟩
  | alternativesDone => exact ⟨_, .alternativesDone⟩
  | alternativesMatch _ ih => obtain ⟨_, hd⟩ := ih; exact ⟨_, .alternativesMatch hd⟩
  | alternativesNext _ _ ih₁ ih₂ =>
    obtain ⟨_, hd₁⟩ := ih₁; obtain ⟨_, hd₂⟩ := ih₂; exact ⟨_, .alternativesNext hd₁ hd₂⟩
  | optionMatch _ ih => obtain ⟨_, hd⟩ := ih; exact ⟨_, .optionMatch hd⟩
  | optionSkip _ ih => obtain ⟨_, hd⟩ := ih; exact ⟨_, .optionSkip hd⟩
  | star _ ih => obtain ⟨_, hd⟩ := ih; exact ⟨_, .star hd⟩
  | plusFail _ ih => obtain ⟨_, hd⟩ := ih; exact ⟨_, .plusFail hd⟩
  | plusEmpty _ ih => obtain ⟨_, hd⟩ := ih; exact ⟨_, .plusEmpty hd⟩
  | plusMatch _ hq _ ih₁ ih₂ =>
    obtain ⟨_, hd₁⟩ := ih₁; obtain ⟨_, hd₂⟩ := ih₂; exact ⟨_, .plusMatch hd₁ hq hd₂⟩
  | turnsStop _ ih => obtain ⟨_, hd⟩ := ih; exact ⟨_, .turnsStop hd⟩
  | turnsEmpty _ ih => obtain ⟨_, hd⟩ := ih; exact ⟨_, .turnsEmpty hd⟩
  | turnsMatch _ hq _ ih₁ ih₂ =>
    obtain ⟨_, hd₁⟩ := ih₁; obtain ⟨_, hd₂⟩ := ih₂; exact ⟨_, .turnsMatch hd₁ hq hd₂⟩
  | aheadMatch _ ih => obtain ⟨_, hd⟩ := ih; exact ⟨_, .aheadMatch hd⟩
  | aheadFail _ ih => obtain ⟨_, hd⟩ := ih; exact ⟨_, .aheadFail hd⟩
  | notAheadMatch _ ih => obtain ⟨_, hd⟩ := ih; exact ⟨_, .notAheadMatch hd⟩
  | notAheadFail _ ih => obtain ⟨_, hd⟩ := ih; exact ⟨_, .notAheadFail hd⟩
  | epsilon => exact ⟨_, .epsilon⟩
  | never => exact ⟨_, .never⟩

namespace Grammar

variable {root : Rule} {production : Production}

theorem derives_normalized {v : Verdict} {log : List Attempt} {p : Nat}
    (h : Derives g tokens r (.expr production.body) p v log) :
    ∃ log', Derives g.normalized tokens r (.expr production.normalized.body) p v log' := by
  obtain ⟨_, hd⟩ := h.normalized
  exact Expr.normalize_carries _ hd

theorem reads_normalized_iff (hroot : g.find? root = some production)
    (hd : ∃ v log, Derives g tokens root (.expr production.body) 0 v log) (tree : Tree) :
    g.normalized.Reads tokens root tree ↔ g.Reads tokens root tree := by
  obtain ⟨v, log, hd⟩ := hd
  obtain ⟨_, hd'⟩ := derives_normalized hd
  have hroot' : g.normalized.find? root = some production.normalized := by
    rw [find?_normalized, hroot, Option.map_some]
  constructor
  · rintro ⟨hf, hd'', hstop⟩
    cases hroot'.symm.trans hf
    obtain ⟨rfl, -⟩ := hd'.unique hd''
    exact @Reads.intro _ _ _ production _ _ _ hroot hd hstop
  · rintro ⟨hf, hd'', hstop⟩
    cases hroot.symm.trans hf
    obtain ⟨rfl, -⟩ := hd.unique hd''
    exact @Reads.intro _ _ _ production.normalized _ _ _ hroot' hd' hstop

end Grammar

/-! ## What is normal -/

namespace Expr

mutual

/-- An expression and all expressions in it. -/
def parts : Expr → List Expr
  | .seq es => .seq es :: partsAll es
  | .choice es => .choice es :: partsAll es
  | .option e => .option e :: parts e
  | .star e => .star e :: parts e
  | .plus e => .plus e :: parts e
  | .followedBy e => .followedBy e :: parts e
  | .notFollowedBy e => .notFollowedBy e :: parts e
  | .token test => [.token test]
  | .anyToken => [.anyToken]
  | .rule r => [.rule r]
  | .epsilon => [.epsilon]
  | .never => [.never]

/-- Some expressions and all expressions in them. -/
def partsAll : List Expr → List Expr
  | [] => []
  | e :: es => parts e ++ partsAll es

end

theorem mem_partsAll {x : Expr} {es : List Expr} : x ∈ partsAll es ↔ ∃ e ∈ es, x ∈ e.parts := by
  induction es with
  | nil => simp [partsAll]
  | cons e es ih => simp [partsAll, ih]

/-- Whether an operator is written only where it is needed: a sequence has at least two parts, each of
which can consume something or test something, a choice has at least two alternatives, and nothing is
done to `epsilon`.  What is `never` is not needed in any larger expression. -/
def isTidy : Expr → Bool
  | .seq es => 2 ≤ es.length && !es.any isEpsilon
  | .choice es => 2 ≤ es.length
  | .option e | .star e | .plus e | .followedBy e | .notFollowedBy e => !e.isEpsilon
  | .token _ | .anyToken | .rule _ | .epsilon => true
  | .never => false

/-- The normal form: `never` alone, or an expression without it in which every operator is needed. -/
def IsNormal (e : Expr) : Prop :=
  e = .never ∨ ∀ x ∈ e.parts, x.isTidy = true

theorem IsNormal.isTidy {e : Expr} (h : e.IsNormal) (hne : e.isNever ≠ true) :
    ∀ x ∈ e.parts, x.isTidy = true :=
  h.resolve_left fun he => hne (isNever_iff.2 he)

theorem two_le_length {es : List Expr} (hnil : es = [] → False) (hone : ∀ e, es = [e] → False) :
    2 ≤ es.length := by
  match es with
  | [] => exact absurd rfl hnil
  | [e] => exact absurd rfl (hone e)
  | _ :: _ :: _ => simp

theorem isNormal_sequence {es : List Expr} (h : ∀ e ∈ es, e.IsNormal) : (sequence es).IsNormal := by
  unfold sequence
  split_ifs with hany
  · exact Or.inl rfl
  have htidy : ∀ e ∈ es.filter (fun e => !e.isEpsilon), ∀ x ∈ e.parts, x.isTidy = true := by
    intro e he
    have hmem := (List.mem_filter.1 he).1
    exact (h e hmem).isTidy fun hn => hany (List.any_eq_true.2 ⟨e, hmem, hn⟩)
  have heps : (es.filter fun e => !e.isEpsilon).any isEpsilon = false := by
    simp
  refine Or.inr ?_
  split
  · simp [parts, isTidy]
  · next e hone => exact htidy e (hone ▸ List.mem_singleton_self e)
  · next hnil hone =>
    intro x hx
    rcases List.mem_cons.1 hx with rfl | hx
    · rw [isTidy, heps]
      exact Bool.and_eq_true_iff.2 ⟨decide_eq_true (two_le_length hnil hone), rfl⟩
    · obtain ⟨e, he, hx⟩ := mem_partsAll.1 hx
      exact htidy e he x hx

theorem isNormal_firstOf {es : List Expr} (h : ∀ e ∈ es, e.IsNormal) : (firstOf es).IsNormal := by
  have htidy : ∀ e ∈ es.filter (fun e => !e.isNever), ∀ x ∈ e.parts, x.isTidy = true := by
    intro e he
    obtain ⟨hmem, hne⟩ := List.mem_filter.1 he
    exact (h e hmem).isTidy (by simpa using hne)
  unfold firstOf
  split
  · exact Or.inl rfl
  · next e hone => exact Or.inr (htidy e (hone ▸ List.mem_singleton_self e))
  · next hnil hone =>
    refine Or.inr fun x hx => ?_
    rcases List.mem_cons.1 hx with rfl | hx
    · exact decide_eq_true (two_le_length hnil hone)
    · obtain ⟨e, he, hx⟩ := mem_partsAll.1 hx
      exact htidy e he x hx

theorem isNormal_epsilon : IsNormal .epsilon :=
  Or.inr (by simp [parts, isTidy])

section
variable {e e' : Expr} (h : e.IsNormal)
include h

theorem isNormal_operator (hnever : e = .never → False) (heps : e = .epsilon → False)
    (hparts : e'.parts = e' :: e.parts) (htidy : e'.isTidy = !e.isEpsilon) : e'.IsNormal := by
  refine Or.inr fun x hx => ?_
  rw [hparts] at hx
  rcases List.mem_cons.1 hx with rfl | hx
  · rw [htidy, Bool.not_eq_true', ← Bool.not_eq_true, isEpsilon_iff]
    exact heps
  · exact h.resolve_left hnever x hx

theorem isNormal_optional : (optional e).IsNormal := by
  unfold optional
  split
  · exact isNormal_epsilon
  · exact isNormal_epsilon
  · next hnever heps => exact isNormal_operator h hnever heps rfl rfl

theorem isNormal_zeroOrMore : (zeroOrMore e).IsNormal := by
  unfold zeroOrMore
  split
  · exact isNormal_epsilon
  · exact isNormal_epsilon
  · next hnever heps => exact isNormal_operator h hnever heps rfl rfl

theorem isNormal_oneOrMore : (oneOrMore e).IsNormal := by
  unfold oneOrMore
  split
  · exact Or.inl rfl
  · exact isNormal_epsilon
  · next hnever heps => exact isNormal_operator h hnever heps rfl rfl

theorem isNormal_next : (next e).IsNormal := by
  unfold next
  split
  · exact Or.inl rfl
  · exact isNormal_epsilon
  · next hnever heps => exact isNormal_operator h hnever heps rfl rfl

theorem isNormal_nextNot : (nextNot e).IsNormal := by
  unfold nextNot
  split
  · exact isNormal_epsilon
  · exact Or.inl rfl
  · next hnever heps => exact isNormal_operator h hnever heps rfl rfl

end

mutual

theorem isNormal_normalize : ∀ e : Expr, e.normalize.IsNormal
  | .seq es => isNormal_sequence (isNormal_normalizeAll es)
  | .choice es => isNormal_firstOf (isNormal_normalizeAll es)
  | .option e => isNormal_optional (isNormal_normalize e)
  | .star e => isNormal_zeroOrMore (isNormal_normalize e)
  | .plus e => isNormal_oneOrMore (isNormal_normalize e)
  | .followedBy e => isNormal_next (isNormal_normalize e)
  | .notFollowedBy e => isNormal_nextNot (isNormal_normalize e)
  | .token _ | .anyToken | .rule _ => Or.inr (by simp [normalize, parts, isTidy])
  | .epsilon => isNormal_epsilon
  | .never => Or.inl rfl

theorem isNormal_normalizeAll : ∀ es : List Expr, ∀ e ∈ normalizeAll es, e.IsNormal
  | [], _, he => nomatch he
  | e :: es, x, hx => by
    rcases List.mem_cons.1 hx with rfl | hx
    · exact isNormal_normalize e
    · exact isNormal_normalizeAll es x hx

end

end Expr

/-! ## The bodies of all dialects -/

/-- Whether the body of a rule is normal and not `never`. -/
def GrammarStep.isTidy : GrammarStep → Bool
  | .define _ body _ => body.parts.all (·.isTidy)
  | .mock _ => false

namespace Dialect

theorem all_isTidy : ∀ recovery gnu managed atl : Bool,
    stepsPass recovery ⟨gnu, managed, atl⟩ (·.isTidy) = true := by
  decide +kernel

theorem parts_isTidy {d : Dialect} {mocks : List Rule} {production : Production}
    (h : (d.grammar mocks).find? r = some production) :
    ∀ x ∈ production.body.parts, x.isTidy = true := by
  rcases mem_rules_of_find? h with rfl | hdefine
  · simp [Production.standIn, Expr.parts, Expr.isTidy]
  · exact List.all_eq_true.1 (check_of_stepsPass (all_isTidy d.errorRecovery d.extensions.gnu
      d.extensions.managed d.extensions.attributedAtl) _ hdefine)

end Dialect

namespace Grammar

theorem parse_normalized_iff {root : Rule}
    (hd : ∃ v log, Derives g tokens root (.expr (.rule root)) 0 v log) (tree : Tree) :
    (∃ r, g.normalized.parse tokens root none = .ok r ∧ r.tree = tree) ↔
      ∃ r, g.parse tokens root none = .ok r ∧ r.tree = tree := by
  cases hroot : g.find? root with
  | none =>
    have hroot' : g.normalized.find? root = none := by
      rw [find?_normalized, hroot, Option.map_none]
    simp only [parse, hroot, hroot', reduceCtorEq, false_and, exists_false]
  | some production =>
    have hroot' : g.normalized.find? root = some production.normalized := by
      rw [find?_normalized, hroot, Option.map_some]
    have hbody : ∃ v log, Derives g tokens root (.expr production.body) 0 v log := by
      obtain ⟨v, log, hd⟩ := hd
      cases hd with
      | ruleMatch hf hd | ruleFail hf hd => cases hroot.symm.trans hf; exact ⟨_, _, hd⟩
      | ruleMissing hf => rw [hroot] at hf; cases hf
    have hbody' : ∃ v log,
        Derives g.normalized tokens root (.expr production.normalized.body) 0 v log := by
      obtain ⟨v, log, hd⟩ := hbody
      exact ⟨v, derives_normalized hd⟩
    rw [parse_ok_iff hroot (unlimited_unrefused_iff.2 hbody),
      parse_ok_iff hroot' (unlimited_unrefused_iff.2 hbody'), reads_normalized_iff hroot hbody]

/-- **Normal forms preserve meaning.**

In any table, stream and place, the normal form of an expression has the verdict of the expression,
if that has one; so the parses of a table, wherever the root has a verdict, find the same trees once
all of its bodies are in normal form.  The normal form of an expression is normal, a construct of a
dialect that is off is the same before and after, and in no dialect does the body of any rule mention
`never`. -/
theorem normalize_preserves :
    (∀ (g : Grammar) (tokens : TokenStream) (r : Rule) (e : Expr) (p : Nat) (v : Verdict)
      (log : List Attempt), Derives g tokens r (.expr e) p v log →
        ∃ log', Derives g tokens r (.expr e.normalize) p v log') ∧
    (∀ (g : Grammar) (tokens : TokenStream) (root : Rule),
      (∃ v log, Derives g tokens root (.expr (.rule root)) 0 v log) → ∀ tree,
        (∃ r, g.normalized.parse tokens root none = .ok r ∧ r.tree = tree) ↔
          ∃ r, g.parse tokens root none = .ok r ∧ r.tree = tree) ∧
    (∀ e : Expr, e.normalize.IsNormal) ∧
    (∀ (enabled : Bool) (e : Expr), (e.gate enabled).normalize = e.normalize.gate enabled) ∧
    ∀ (d : Dialect) (mocks : List Rule), ∃ g, standard? d mocks = .ok g ∧
      ∀ r production, g.find? r = some production →
        production.body.IsNormal ∧ .never ∉ production.body.parts := by
  refine ⟨fun g tokens r e p v log h => e.normalize_carries h,
    fun g tokens root hd tree => parse_normalized_iff hd tree, Expr.isNormal_normalize,
    Expr.normalize_gate, fun d mocks => ⟨_, standard?_eq d mocks, fun r production hf => ?_⟩⟩
  have htidy := Dialect.parts_isTidy hf
  exact ⟨Or.inr htidy, fun hnever => absurd (htidy _ hnever) Bool.false_ne_true⟩

/-- Any token, or any token with something behind it that never matches. -/
def tokenOrNever : Grammar :=
  ⟨.standard, #[some ⟨.choice [.seq [.anyToken, .never], .anyToken], false⟩]⟩

/-- One token is read, and so it is once the alternative that never matches is gone. -/
theorem parse_normalized_tokenOrNever :
    (∃ v log, Derives tokenOrNever oneToken .booleanLiteral (.expr (.rule .booleanLiteral)) 0 v log) ∧
      ∃ r, tokenOrNever.normalized.parse oneToken .booleanLiteral none = .ok r ∧
        r.tree = .node .booleanLiteral 0 1 [.leaf 0] := by
  have hroot : tokenOrNever.find? .booleanLiteral =
      some ⟨.choice [.seq [.anyToken, .never], .anyToken], false⟩ := rfl
  have hbody : Derives tokenOrNever oneToken .booleanLiteral
      (.expr (.choice [.seq [.anyToken, .never], .anyToken])) 0 (.matched 1 [.leaf 0]) _ :=
    .choice (.alternativesNext (.seq (.itemsFail (.anyPass rfl rfl) (.itemsStop .never)))
      (.alternativesMatch (.anyPass rfl rfl)))
  have hread : tokenOrNever.Reads oneToken .booleanLiteral (.node .booleanLiteral 0 1 [.leaf 0]) :=
    .intro hroot hbody (Or.inl rfl)
  have hparse := (parse_ok_iff hroot (unlimited_unrefused_iff.2 ⟨_, _, hbody⟩) _).2 hread
  have hverdict : ∃ v log,
      Derives tokenOrNever oneToken .booleanLiteral (.expr (.rule .booleanLiteral)) 0 v log :=
    ⟨_, _, .ruleMatch hroot hbody⟩
  exact ⟨hverdict, (normalize_preserves.2.1 _ _ _ hverdict _).2 hparse⟩

end Grammar

end PackratCpp
