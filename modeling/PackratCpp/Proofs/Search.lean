/-
  The search for the rules that a root reaches.

  * `Expr.references_eq`: the rules that an expression mentions are listed in the order of their
    first mention.
  * `Search.Turn`: one turn of a search follows the mentions of a rule that is pending, whichever
    it is.  `Searches`: what some turns from a root come to.
  * `Search.Sound`: what holds after any number of turns; `Searches.sound`.
  * `Grammar.exists_searches_explore`: `explore` takes such turns, and all of them if it has the
    fuel.
  * `Grammar.reachableFrom_spec`: so a search ends, after one turn for each rule that it finds, and
    it finds the reflexive-transitive closure.
-/
import Mathlib.Logic.Relation
import PackratCpp.Proofs.Registration

namespace PackratCpp

/-! ## The order of mentions -/

namespace Expr

/-- Adds a rule behind the others unless it is there. -/
def addMention (seen : List Rule) (r : Rule) : List Rule :=
  if r ∈ seen then seen else seen ++ [r]

mutual

theorem addReferences_eq (seen : List Rule) :
    ∀ e : Expr, addReferences seen e = e.mentions.foldl addMention seen
  | .rule r => rfl
  | .seq es | .choice es => by
    rw [addReferences, mentions]
    exact addReferencesAll_eq seen es
  | .option e | .star e | .plus e | .followedBy e | .notFollowedBy e => by
    rw [addReferences, mentions]
    exact addReferences_eq seen e
  | .token _ | .anyToken | .epsilon | .never => by
    rw [addReferences, mentions]
    rfl

theorem addReferencesAll_eq (seen : List Rule) :
    ∀ es : List Expr, addReferencesAll seen es = (allMentions es).foldl addMention seen
  | [] => by
    rw [addReferencesAll, allMentions]
    rfl
  | e :: es => by
    rw [addReferencesAll, allMentions, List.foldl_append, addReferencesAll_eq _ es,
      addReferences_eq seen e]

end

/-- **The rules that an expression mentions are listed in the order of their first mention.** -/
theorem references_eq (e : Expr) : e.references = e.mentions.eraseDups := by
  rw [references, addReferences_eq]
  induction e.mentions using List.reverseRecOn with
  | nil => rfl
  | append_singleton rules r ih =>
    rw [List.foldl_append, ih, eraseDups_concat]
    simp only [List.foldl_cons, List.foldl_nil, addMention, List.mem_eraseDups]

theorem mem_references {e : Expr} {r : Rule} : r ∈ e.references ↔ r ∈ e.mentions := by
  rw [references_eq, List.mem_eraseDups]

end Expr

/-! ## Turns of a search -/

/-- Where a search stands: the rules whose mentions are still to be followed, and all that have
been seen. -/
structure Search where
  pending : List Rule
  seen : List Rule

namespace Grammar

variable {g : Grammar} {root r s : Rule} {n : Nat} {a b : Search}

/-- The body of one rule mentions another.  A rule without a body mentions none. -/
def Refers (g : Grammar) (r s : Rule) : Prop :=
  ∃ p, g.find? r = some p ∧ s ∈ p.body.mentions

theorem mem_successors : s ∈ g.successors r ↔ g.Refers r s := by
  unfold successors Refers
  cases g.find? r with
  | none => simp
  | some p => simp [Expr.mem_references]

theorem reaches_iff : g.Reaches root r ↔ Relation.ReflTransGen g.Refers root r := by
  constructor
  · intro h
    induction h with
    | refl => exact .refl
    | tail _ hs ih => exact ih.tail (mem_successors.1 hs)
  · intro h
    induction h with
    | refl => exact .refl
    | tail _ hs ih => exact .tail ih (mem_successors.2 hs)

/-- One turn of a search takes up a pending rule, and each rule that it mentions and that has not
been seen becomes both seen and pending.  Neither the choice of the rule nor the order of those
that are added matters. -/
inductive Turn (g : Grammar) (a b : Search) : Prop
  | follow (r : Rule) (rest added : List Rule) : a.pending.Perm (r :: rest) → added.Nodup →
      (∀ s, s ∈ added ↔ g.Refers r s ∧ s ∉ a.seen) →
      b.pending.Perm (added ++ rest) → b.seen.Perm (added ++ a.seen) → Turn g a b

/-- Where a search from a root can stand after some turns. -/
inductive Searches (g : Grammar) (root : Rule) : Nat → Search → Prop
  | start : Searches g root 0 ⟨[root], [root]⟩
  | turn {n : Nat} {a b : Search} : Searches g root n a → g.Turn a b → Searches g root (n + 1) b

/-- What holds of a search after `n` turns.  Each of them has taken one rule off those that are
pending, for good. -/
structure SearchSound (g : Grammar) (root : Rule) (n : Nat) (a : Search) : Prop where
  nodup : a.seen.Nodup
  root_mem : root ∈ a.seen
  reached : ∀ r ∈ a.seen, Relation.ReflTransGen g.Refers root r
  followed : ∀ r ∈ a.seen, r ∈ a.pending ∨ ∀ s, g.Refers r s → s ∈ a.seen
  pending_subset : a.pending ⊆ a.seen
  turns : n + a.pending.length = a.seen.length

namespace SearchSound

theorem start : g.SearchSound root 0 ⟨[root], [root]⟩ where
  nodup := List.nodup_singleton root
  root_mem := List.mem_singleton_self root
  reached r hr := by
    rw [List.mem_singleton.1 hr]
  followed r hr := Or.inl hr
  pending_subset := List.Subset.refl _
  turns := rfl

theorem turn (h : g.SearchSound root n a) (hturn : g.Turn a b) :
    g.SearchSound root (n + 1) b := by
  obtain ⟨r, rest, added, hpending, hnodup, hadded, hpending', hseen'⟩ := hturn
  have hr : r ∈ a.seen := h.pending_subset (hpending.mem_iff.2 (List.mem_cons_self ..))
  have hsees : ∀ s, s ∈ b.seen ↔ s ∈ added ∨ s ∈ a.seen := fun s => by
    rw [hseen'.mem_iff, List.mem_append]
  have hwaits : ∀ s, s ∈ b.pending ↔ s ∈ added ∨ s ∈ rest := fun s => by
    rw [hpending'.mem_iff, List.mem_append]
  have hold : ∀ s, s ∈ a.pending ↔ s = r ∨ s ∈ rest := fun s => by
    rw [hpending.mem_iff, List.mem_cons]
  refine ⟨?_, (hsees root).2 (Or.inr h.root_mem), fun s hs => ?_, fun s hs => ?_, fun s hs => ?_, ?_⟩
  · exact hseen'.nodup_iff.2 (hnodup.append h.nodup fun s hs => ((hadded s).1 hs).2)
  · rcases (hsees s).1 hs with hs | hs
    · exact (h.reached r hr).tail ((hadded s).1 hs).1
    · exact h.reached s hs
  · by_cases hwait : s ∈ b.pending
    · exact Or.inl hwait
    obtain ⟨hnew, hrest⟩ := not_or.1 ((hwaits s).not.1 hwait)
    have hs := ((hsees s).1 hs).resolve_left hnew
    refine Or.inr fun q hq => (hsees q).2 ?_
    rcases h.followed s hs with hs' | hclosed
    · obtain rfl : s = r := ((hold s).1 hs').resolve_right hrest
      exact or_iff_not_imp_right.2 fun hq' => (hadded q).2 ⟨hq, hq'⟩
    · exact Or.inr (hclosed q hq)
  · rcases (hwaits s).1 hs with hs | hs
    · exact (hsees s).2 (Or.inl hs)
    · exact (hsees s).2 (Or.inr (h.pending_subset ((hold s).2 (Or.inr hs))))
  · have hturns := h.turns
    rw [hpending.length_eq, List.length_cons] at hturns
    rw [hpending'.length_eq, hseen'.length_eq, List.length_append, List.length_append]
    omega

theorem mem_seen_iff (h : g.SearchSound root n a) (hdone : a.pending = []) :
    r ∈ a.seen ↔ Relation.ReflTransGen g.Refers root r := by
  refine ⟨h.reached r, fun hr => ?_⟩
  induction hr with
  | refl => exact h.root_mem
  | tail _ hs ih =>
    refine (h.followed _ ih).resolve_left ?_ _ hs
    rw [hdone]
    exact List.not_mem_nil

end SearchSound

/-- **What a turn keeps holds after any number of them.** -/
theorem Searches.sound (h : g.Searches root n a) : g.SearchSound root n a := by
  induction h with
  | start => exact .start
  | turn _ hturn ih => exact ih.turn hturn

theorem exists_turn (g : Grammar) {a : Search} (h : a.pending ≠ []) : ∃ b, g.Turn a b := by
  obtain ⟨r, rest, hpending⟩ := List.exists_cons_of_ne_nil h
  let added := (g.successors r).filter fun s => !a.seen.contains s
  refine ⟨⟨added ++ rest, added ++ a.seen⟩, .follow r rest added (.of_eq hpending)
    ((nodup_successors g r).filter _) (fun s => ?_) (.refl _) (.refl _)⟩
  simp [added, mem_successors]

theorem exists_searches_explore {fuel : Nat} {pending seen : List Rule}
    (h : g.Searches root n ⟨pending, seen⟩) :
    ∃ m a, g.Searches root m a ∧ a.seen = g.explore fuel pending seen ∧
      (a.pending = [] ∨ m = n + fuel) := by
  induction fuel generalizing n pending seen with
  | zero => exact ⟨n, _, h, rfl, Or.inr rfl⟩
  | succ fuel ih =>
    cases pending with
    | nil => exact ⟨n, _, h, rfl, Or.inl rfl⟩
    | cons r pending =>
      obtain ⟨m, a, ha, hseen, hend⟩ := ih (h.turn (.follow r pending
        ((g.successors r).filter fun s => !seen.contains s) (.refl _)
        ((nodup_successors g r).filter _) (fun s => by simp [mem_successors]) (.refl _) (.refl _)))
      exact ⟨m, a, ha, hseen, hend.imp_right fun hm => by omega⟩

/-! ## What a search finds -/

theorem pairwise_all : Rule.all.Pairwise fun r s => r.index < s.index := by
  have hindex : Rule.all.map Rule.index = List.range Rule.count := by decide +kernel
  have hrange := List.pairwise_lt_range (n := Rule.count)
  rw [← hindex, List.pairwise_map] at hrange
  exact hrange

theorem pairwise_reachableFrom (g : Grammar) (root : Rule) :
    (g.reachableFrom root).Pairwise fun r s => r.index < s.index :=
  pairwise_all.filter _

theorem nodup_reachableFrom (g : Grammar) (root : Rule) : (g.reachableFrom root).Nodup :=
  (pairwise_reachableFrom g root).imp fun h heq => by
    rw [heq] at h
    exact Nat.lt_irrefl _ h

namespace SearchSound

theorem length_seen_le (h : g.SearchSound root n a) :
    a.seen.length ≤ (g.reachableFrom root).length :=
  (List.subperm_of_subset h.nodup fun r hr =>
    mem_reachableFrom.2 (reaches_iff.2 (h.reached r hr))).length_le

theorem seen_perm (h : g.SearchSound root n a) (hdone : a.pending = []) :
    a.seen.Perm (g.reachableFrom root) ∧ n = (g.reachableFrom root).length := by
  have hperm : a.seen.Perm (g.reachableFrom root) :=
    (List.perm_ext_iff_of_nodup h.nodup (nodup_reachableFrom g root)).2 fun r => by
      rw [h.mem_seen_iff hdone, mem_reachableFrom, reaches_iff]
  have hturns := h.turns
  rw [hdone, hperm.length_eq, List.length_nil, Nat.add_zero] at hturns
  exact ⟨hperm, hturns⟩

end SearchSound

/-- **What can be reached is found.**  For every grammar, rules without a body included, and every
root, the list is in the order of the registry without repetitions, and holds the rules at the end
of a finite chain of mentions in bodies, the root itself among them.  It is what a search has seen
at its end, and each search ends, whichever pending rule it takes up next: it takes no more turns
than there are rules listed, and when nothing is pending it has taken one for each and has seen
them all.  The mentions that it follows are the rules that stand anywhere in an expression, each
once, in the order of their first mention. -/
theorem reachableFrom_spec (g : Grammar) (root : Rule) :
    (g.reachableFrom root).Pairwise (fun r s => r.index < s.index) ∧
    (∀ r, r ∈ g.reachableFrom root ↔ Relation.ReflTransGen g.Refers root r) ∧
    (∀ n a, g.Searches root n a → n ≤ (g.reachableFrom root).length ∧
      (a.pending ≠ [] → ∃ b, g.Searches root (n + 1) b) ∧
      (a.pending = [] → n = (g.reachableFrom root).length ∧ a.seen.Perm (g.reachableFrom root))) ∧
    (∃ n a, g.Searches root n a ∧ a.pending = [] ∧
      g.reachableFrom root = Rule.all.filter fun r => a.seen.contains r) ∧
    ∀ e : Expr, e.references = e.mentions.eraseDups ∧ e.references.Nodup ∧
      ∀ r, r ∈ e.references ↔ r ∈ e.mentions := by
  have hbound : ∀ {n a}, g.Searches root n a →
      n + a.pending.length ≤ (g.reachableFrom root).length := fun h =>
    h.sound.turns ▸ h.sound.length_seen_le
  refine ⟨pairwise_reachableFrom g root, fun r => mem_reachableFrom.trans reaches_iff,
    fun n a h => ⟨?_, fun hpending => ?_, fun hdone => ?_⟩, ?_,
    fun e => ⟨e.references_eq, e.nodup_references, fun r => Expr.mem_references⟩⟩
  · exact Nat.le_trans (Nat.le_add_right ..) (hbound h)
  · obtain ⟨b, hb⟩ := g.exists_turn hpending
    exact ⟨b, h.turn hb⟩
  · exact (h.sound.seen_perm hdone).symm
  · obtain ⟨n, a, ha, hseen, hend⟩ : ∃ n a, g.Searches root n a ∧
        a.seen = g.explore (Rule.count + 1) [root] [root] ∧
        (a.pending = [] ∨ n = 0 + (Rule.count + 1)) := exists_searches_explore .start
    refine ⟨n, a, ha, hend.resolve_right fun hn => ?_, by rw [hseen]; rfl⟩
    -- the fuel is more than there are rules
    have hcount := Rule.length_le_count (nodup_reachableFrom g root)
    have := hbound ha
    omega

/-- A rule that mentions two others, of which one mentions it and one has no body. -/
example : reachableFrom ⟨.standard, #[some ⟨.seq [.rule .literal, .rule .pointerLiteral], false⟩,
    none, some ⟨.star (.rule .booleanLiteral), false⟩]⟩ .literal =
      [.booleanLiteral, .pointerLiteral, .literal] := by
  decide +kernel

end Grammar

end PackratCpp
