/-
  A parse sees the rules that its root reaches.

  * `Expr.within_iff`, `Expr.nodup_references`: the rules that an expression mentions are listed,
    each once.
  * `Grammar.mem_reachableFrom`: the search finds the rules at the end of a chain of mentions.
  * `Dialect.not_managed_of_reaches`, `Dialect.not_atl_of_reaches`: where an extension is off, no
    chain from another rule gets to its rules.
  * `Grammar.parse_sees_reachable`: grammars that agree on the rules that a root reaches parse alike
    from it, and only these rules have nodes.
-/
import PackratCpp.Grammar.Reachable
import PackratCpp.Proofs.Dependence
import PackratCpp.Proofs.Nodes
import PackratCpp.Proofs.Standard

namespace PackratCpp

/-! ## The rules that are mentioned -/

namespace Expr

variable {inside : Rule → Bool}

mutual

theorem forall_addReferences (inside : Rule → Bool) (seen : List Rule) :
    ∀ e : Expr, (∀ r ∈ addReferences seen e, inside r = true) ↔
      (∀ r ∈ seen, inside r = true) ∧ e.within inside = true
  | .rule r => by
    rw [addReferences, within]
    split_ifs with hr
    · exact ⟨fun h => ⟨h, h r hr⟩, And.left⟩
    · simp only [List.mem_append, List.mem_singleton, or_imp, forall_and, forall_eq]
  | .seq es | .choice es => by
    rw [addReferences, within]
    exact forall_addReferencesAll inside seen es
  | .option e | .star e | .plus e | .followedBy e | .notFollowedBy e => by
    rw [addReferences, within]
    exact forall_addReferences inside seen e
  | .token _ | .anyToken | .epsilon | .never => by
    rw [addReferences, within]
    exact (and_iff_left rfl).symm

theorem forall_addReferencesAll (inside : Rule → Bool) (seen : List Rule) :
    ∀ es : List Expr, (∀ r ∈ addReferencesAll seen es, inside r = true) ↔
      (∀ r ∈ seen, inside r = true) ∧ allWithin inside es = true
  | [] => by
    rw [addReferencesAll, allWithin]
    exact (and_iff_left rfl).symm
  | e :: es => by
    rw [addReferencesAll, allWithin, forall_addReferencesAll inside _ es,
      forall_addReferences inside seen e, Bool.and_eq_true, and_assoc]

end

/-- **The rules that an expression mentions are the ones listed.** -/
theorem within_iff {e : Expr} :
    e.within inside = true ↔ ∀ r ∈ e.references, inside r = true := by
  rw [references, forall_addReferences]
  exact (and_iff_right fun r hr => absurd hr List.not_mem_nil).symm

mutual

theorem nodup_addReferences {seen : List Rule} (h : seen.Nodup) :
    ∀ e : Expr, (addReferences seen e).Nodup
  | .rule r => by
    rw [addReferences]
    split_ifs with hr
    · exact h
    · rw [← List.concat_eq_append]
      exact h.concat hr
  | .seq es | .choice es => by
    rw [addReferences]
    exact nodup_addReferencesAll h es
  | .option e | .star e | .plus e | .followedBy e | .notFollowedBy e => by
    rw [addReferences]
    exact nodup_addReferences h e
  | .token _ | .anyToken | .epsilon | .never => by
    rw [addReferences]
    exact h

theorem nodup_addReferencesAll {seen : List Rule} (h : seen.Nodup) :
    ∀ es : List Expr, (addReferencesAll seen es).Nodup
  | [] => by
    rw [addReferencesAll]
    exact h
  | e :: es => by
    rw [addReferencesAll]
    exact nodup_addReferencesAll (nodup_addReferences h e) es

end

theorem nodup_references (e : Expr) : e.references.Nodup :=
  nodup_addReferences List.nodup_nil e

end Expr

theorem Rule.length_le_count {rules : List Rule} (h : rules.Nodup) : rules.length ≤ Rule.count := by
  rw [← Rule.length_all]
  exact (List.subperm_of_subset h fun r _ => r.mem_all).length_le

/-! ## The search -/

namespace Grammar

variable {g g' : Grammar} {root r s : Rule}

theorem nodup_successors (g : Grammar) (r : Rule) : (g.successors r).Nodup := by
  unfold successors
  cases g.find? r with
  | none => exact List.nodup_nil
  | some production => exact production.body.nodup_references

theorem closed_iff {inside : Rule → Bool} : g.Closed inside ↔
    ∀ r, inside r = true → ∀ s ∈ g.successors r, inside s = true := by
  constructor
  · intro h r hr s hs
    unfold successors at hs
    cases hf : g.find? r with
    | none => rw [hf] at hs; cases hs
    | some production =>
      rw [hf] at hs
      exact Expr.within_iff.1 (h r production hr hf) s hs
  · intro h r production hr hf
    refine Expr.within_iff.2 fun s hs => h r hr s ?_
    rw [successors, hf]
    exact hs

theorem Reaches.inside {inside : Rule → Bool} (h : g.Reaches root r) (hclosed : g.Closed inside)
    (hroot : inside root = true) : inside r = true := by
  induction h with
  | refl => exact hroot
  | tail _ hs ih => exact closed_iff.1 hclosed _ ih _ hs

theorem reaches_of_mem_explore {fuel : Nat} {pending seen : List Rule} (hpending : pending ⊆ seen)
    (hseen : ∀ r ∈ seen, g.Reaches root r) (hr : r ∈ g.explore fuel pending seen) :
    g.Reaches root r := by
  induction fuel generalizing pending seen with
  | zero => exact hseen r hr
  | succ fuel ih =>
    cases pending with
    | nil => exact hseen r hr
    | cons q pending =>
      obtain ⟨hq, hpending⟩ := List.cons_subset.1 hpending
      refine ih ?_ (fun s hs => ?_) hr
      · exact List.append_subset.2 ⟨List.subset_append_left ..,
          List.Subset.trans hpending (List.subset_append_right ..)⟩
      · rcases List.mem_append.1 hs with hs | hs
        · exact .tail (hseen q hq) (List.mem_of_mem_filter hs)
        · exact hseen s hs

/-- **The search keeps what it has seen and follows every mention.**  A turn takes one rule off
those that are pending, and adds each rule that it mentions to both lists or to none: so the turns
are enough, and a rule that is seen and no longer pending has all its mentions seen. -/
theorem explore_spec {fuel : Nat} {pending seen : List Rule} (hnodup : seen.Nodup)
    (hfuel : pending.length + (Rule.count - seen.length) < fuel)
    (hdone : ∀ r ∈ seen, r ∈ pending ∨ g.successors r ⊆ seen) :
    seen ⊆ g.explore fuel pending seen ∧
      ∀ r ∈ g.explore fuel pending seen, g.successors r ⊆ g.explore fuel pending seen := by
  induction fuel generalizing pending seen with
  | zero => exact absurd hfuel (Nat.not_lt_zero _)
  | succ fuel ih =>
    cases pending with
    | nil => exact ⟨List.Subset.refl _, fun r hr => (hdone r hr).resolve_left List.not_mem_nil⟩
    | cons q pending =>
      have hfresh : ∀ s ∈ g.successors q,
          s ∈ (g.successors q).filter (fun s => !seen.contains s) ++ seen := by
        intro s hs
        by_cases hseen : s ∈ seen
        · exact List.mem_append_right _ hseen
        · exact List.mem_append_left _ (List.mem_filter.2 ⟨hs, by simpa using hseen⟩)
      have hnodup' : ((g.successors q).filter (fun s => !seen.contains s) ++ seen).Nodup := by
        refine ((nodup_successors g q).filter _).append hnodup fun s hs hseen => ?_
        have := (List.mem_filter.1 hs).2
        simp [hseen] at this
      have hlength := Rule.length_le_count hnodup'
      have hih := @ih ((g.successors q).filter (fun s => !seen.contains s) ++ pending) _
        hnodup' ?_ ?_
      · exact ⟨List.Subset.trans (List.subset_append_right ..) hih.1, hih.2⟩
      · simp only [List.length_append, List.length_cons] at hfuel hlength ⊢
        omega
      · intro s hs
        rcases List.mem_append.1 hs with hs | hs
        · exact Or.inl (List.mem_append_left _ hs)
        · rcases hdone s hs with hs' | hs'
          · rcases List.mem_cons.1 hs' with rfl | hs'
            · exact Or.inr hfresh
            · exact Or.inl (List.mem_append_right _ hs')
          · exact Or.inr (List.Subset.trans hs' (List.subset_append_right ..))

/-- **The search finds the rules at the end of a chain of mentions.** -/
theorem mem_reachableFrom : r ∈ g.reachableFrom root ↔ g.Reaches root r := by
  have hseen : r ∈ g.reachableFrom root ↔ r ∈ g.explore (Rule.count + 1) [root] [root] := by
    simp [reachableFrom, r.mem_all]
  have hfuel : [root].length + (Rule.count - [root].length) < Rule.count + 1 := by
    simp [Rule.count]
  obtain ⟨hroot, hclosed⟩ := g.explore_spec (List.nodup_singleton root) hfuel fun r hr => Or.inl hr
  rw [hseen]
  constructor
  · refine reaches_of_mem_explore (List.Subset.refl _) fun s hs => ?_
    rw [List.mem_singleton.1 hs]
    exact .refl
  · intro h
    induction h with
    | refl => exact hroot (List.mem_singleton_self root)
    | tail _ hs ih => exact hclosed _ (ih (by simp [reachableFrom, Rule.mem_all])) hs

theorem closed_reachableFrom (g : Grammar) (root : Rule) :
    g.Closed fun r => (g.reachableFrom root).contains r := by
  refine closed_iff.2 fun r hr s hs => ?_
  simp only [List.contains_eq_mem, decide_eq_true_eq, mem_reachableFrom] at hr ⊢
  exact .tail hr hs

end Grammar

/-! ## Extensions that are off -/

namespace Rule

/-- The rules of C++/CLI. -/
def isManaged (r : Rule) : Bool :=
  cliTopLevelVisibility.index ≤ r.index && r.index ≤ cliAttributeArgumentExpression.index

/-- The rules of attribute blocks. -/
def isAtl (r : Rule) : Bool :=
  r = vcAtlDeclaration || r = vcAtlAttribute

theorem all_isManaged : all.all fun r => !r.name.startsWith "cli" || r.isManaged := by
  decide +kernel

theorem all_isAtl : all.all fun r => !r.name.startsWith "vcAtl" || r.isAtl := by
  decide +kernel

theorem isManaged_of_name {r : Rule} (h : r.name.startsWith "cli" = true) : r.isManaged = true := by
  have hr := List.all_eq_true.1 all_isManaged r r.mem_all
  simpa [h] using hr

theorem isAtl_of_name {r : Rule} (h : r.name.startsWith "vcAtl" = true) : r.isAtl = true := by
  have hr := List.all_eq_true.1 all_isAtl r r.mem_all
  simpa [h] using hr

end Rule

/-- Whether a rule that is not `out` mentions none that is. -/
def GrammarStep.keepsOut (out : Rule → Bool) : GrammarStep → Bool
  | .define rule body _ => out rule || body.within fun r => !out r
  | .mock _ => true

namespace Dialect

theorem all_keepOut_managed : ∀ recovery gnu atl : Bool,
    stepsPass recovery ⟨gnu, false, atl⟩ (·.keepsOut Rule.isManaged) = true := by
  decide +kernel

theorem all_keepOut_atl : ∀ recovery gnu managed : Bool,
    stepsPass recovery ⟨gnu, managed, false⟩ (·.keepsOut Rule.isAtl) = true := by
  decide +kernel

variable {d : Dialect} {r : Rule}

theorem closed_of_keepOut {out : Rule → Bool}
    (h : stepsPass d.errorRecovery d.extensions (·.keepsOut out) = true) : (d.grammar []).Closed fun r => !out r := by
  intro q production hq hf
  have hstep := check_of_stepsPass h _ (define_of_find? List.not_mem_nil hf)
  have hq : out q = false := by simpa using hq
  simpa [GrammarStep.keepsOut, hq] using hstep

theorem not_managed_of_reaches (hoff : d.extensions.managed = false)
    (h : (d.grammar []).Reaches .translationUnit r) : r.name.startsWith "cli" = false := by
  obtain ⟨recovery, language, gnu, managed, atl⟩ := d
  cases hoff
  have hout := h.inside (closed_of_keepOut (all_keepOut_managed recovery gnu atl)) rfl
  rw [Bool.eq_false_iff]
  exact fun hname => by simp [Rule.isManaged_of_name hname] at hout

theorem not_atl_of_reaches (hoff : d.extensions.attributedAtl = false)
    (h : (d.grammar []).Reaches .translationUnit r) : r.name.startsWith "vcAtl" = false := by
  obtain ⟨recovery, language, gnu, managed, atl⟩ := d
  cases hoff
  have hout := h.inside (closed_of_keepOut (all_keepOut_atl recovery gnu managed)) rfl
  rw [Bool.eq_false_iff]
  exact fun hname => by simp [Rule.isAtl_of_name hname] at hout

end Dialect

/-! ## Parses -/

namespace Grammar

variable {g g' : Grammar} {root : Rule}

theorem reaches_of_parse {tokens : TokenStream} {maxDepth? : Option Nat} {p : Parse}
    (hp : g.parse tokens root maxDepth? = .ok p) {t : Tree} (ht : t ∈ p.tree.preorder) {r : Rule}
    (hr : t.rule? = some r) : r ∈ g.reachableFrom root := by
  have hroot : (g.reachableFrom root).contains root = true := by
    simpa using mem_reachableFrom.2 (.refl : g.Reaches root root)
  obtain ⟨production, stop, trees, hf, -, htree, -, hy, -⟩ :=
    root_of_parse (Yields.closed g tokens) hp
  have hbody := g.closed_reachableFrom root root production hroot hf
  have hwithin := hy.rulesWithin (g.closed_reachableFrom root) hbody
  rcases production.node_cases root 0 stop trees with heq | heq
  · have hm : t ∈ Tree.preorderAll trees := by
      rw [heq, ← htree]
      simpa [Tree.preorderAll] using ht
    simpa using hwithin t hm r hr
  · rw [htree, heq, Tree.preorder] at ht
    rcases List.mem_cons.1 ht with rfl | ht
    · cases hr
      simpa using hroot
    · simpa using hwithin t ht r hr

/-- **A parse sees the rules that its root reaches.**  Two grammars that agree on these rules, and
on whether unreadable input is skipped, come to the same end from the root: the same tree with the
same counts, or the same error; and no other rule has a node.  So without C++/CLI no translation
unit has a node of it, and without attribute blocks none of theirs. -/
theorem parse_sees_reachable :
    (∀ (g g' : Grammar) (root : Rule), g.dialect.errorRecovery = g'.dialect.errorRecovery →
      (∀ r ∈ g.reachableFrom root, g.find? r = g'.find? r) →
      ∀ (tokens : TokenStream) (maxDepth? : Option Nat),
        g.parse tokens root maxDepth? = g'.parse tokens root maxDepth? ∧
        ∀ p, g.parse tokens root maxDepth? = .ok p →
          ∀ t ∈ p.tree.preorder, ∀ r, t.rule? = some r → r ∈ g.reachableFrom root) ∧
    ∀ d : Dialect, ∃ g, standard? d [] = .ok g ∧
      ∀ (tokens : TokenStream) (maxDepth? : Option Nat) (p : Parse),
        g.parse tokens .translationUnit maxDepth? = .ok p →
        ∀ t ∈ p.tree.preorder, ∀ r, t.rule? = some r →
          (d.extensions.managed = false → r.name.startsWith "cli" = false) ∧
          (d.extensions.attributedAtl = false → r.name.startsWith "vcAtl" = false) := by
  constructor
  · intro g g' root hrecovery hagree tokens maxDepth?
    have hroot : (g.reachableFrom root).contains root = true := by
      simpa using mem_reachableFrom.2 (.refl : g.Reaches root root)
    refine ⟨?_, fun p hp t ht r hr => reaches_of_parse hp ht hr⟩
    exact parse_of_agree (g.closed_reachableFrom root) (fun r hr => hagree r (by simpa using hr))
      hrecovery hroot tokens maxDepth?
  · intro d
    refine ⟨d.grammar [], standard?_eq d [], fun tokens maxDepth? p hp t ht r hr => ?_⟩
    have hreach := mem_reachableFrom.1 (reaches_of_parse hp ht hr)
    exact ⟨fun hoff => Dialect.not_managed_of_reaches hoff hreach,
      fun hoff => Dialect.not_atl_of_reaches hoff hreach⟩

/-- A rule that stands for any token, one above it, and one that neither of them mentions. -/
def anyTokenBeside (body : Expr) : Grammar :=
  ⟨.standard, #[some ⟨.rule .pointerLiteral, false⟩, some ⟨.anyToken, false⟩, some ⟨body, false⟩]⟩

/-- A stream of one word. -/
def loneWord : TokenStream :=
  .terminated [⟨.identifier, "x", 1, 1, 0⟩] ⟨.eof, "", 1, 2, 1⟩

/-- Whether the rule that is not mentioned matches everywhere or nowhere, a parse does not see
it. -/
theorem parse_anyTokenBeside_sees_reachable :
    (anyTokenBeside .never).dialect.errorRecovery =
      (anyTokenBeside .epsilon).dialect.errorRecovery ∧
    (anyTokenBeside .never).find? .literal ≠ (anyTokenBeside .epsilon).find? .literal ∧
    (∀ r ∈ (anyTokenBeside .never).reachableFrom .booleanLiteral,
      (anyTokenBeside .never).find? r = (anyTokenBeside .epsilon).find? r) ∧
    (anyTokenBeside .never).parse loneWord .booleanLiteral (some 2) =
      (anyTokenBeside .epsilon).parse loneWord .booleanLiteral (some 2) := by
  have hreach : (anyTokenBeside .never).reachableFrom .booleanLiteral =
      [.booleanLiteral, .pointerLiteral] := by decide +kernel
  have hagree : ∀ r ∈ (anyTokenBeside .never).reachableFrom .booleanLiteral,
      (anyTokenBeside .never).find? r = (anyTokenBeside .epsilon).find? r := by
    rw [hreach]
    intro r hr
    simp only [List.mem_cons, List.not_mem_nil, or_false] at hr
    rcases hr with rfl | rfl <;> rfl
  refine ⟨rfl, fun h => ?_, hagree, ?_⟩
  · cases (h : some _ = some _)
  · exact (parse_sees_reachable.1 (anyTokenBeside .never) (anyTokenBeside .epsilon) .booleanLiteral
      rfl hagree loneWord (some 2)).1

end Grammar

end PackratCpp
