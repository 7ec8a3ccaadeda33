/-
  Template-ids that leave their closing to a `>>` behind them.

  * `Rule.isOpen`: the rules that stop right before the `>>` that closes them.  `Rule.isCloser`: the
    rules that take it.
  * `Tree.unclosed`: the template-ids in a tree that lack their closing there.  `Tree.exists_around`: any
    other one has a nearest node around it that takes a `>>`.
  * `Tree.ClosedBy`: the children of a node either hold no `>>` and lack none, or end with the one `>>`
    that they hold, which is where the one template-id among them that lacks its closing ends.
  * `Tree.bijOn_stop`: if that is so of all nodes that take a `>>`, then template-ids and `>>` belong
    together one by one.
-/
import Mathlib.Data.List.Nodup
import Mathlib.Data.Set.Function
import PackratCpp.Proofs.Nodes

namespace PackratCpp

namespace Rule

/-- The rules that stop right before the `>>` that closes them. -/
def isOpen : Rule → Bool
  | .innerTypeParameter | .innerTemplateId | .innerTypeId | .innerTrailingTypeSpecifier |
    .innerSimpleTemplateId => true
  | _ => false

/-- The rules that take the `>>`. -/
def isCloser : Rule → Bool
  | .simpleTemplateId | .templateId | .typeIdEnclosed | .templateParameterListEnclosed => true
  | _ => false

end Rule

/-- Whether the token at an index is spelled `>>`. -/
def TokenStream.isShift (s : TokenStream) (i : Nat) : Bool :=
  (s.get? i).any fun t => t.text = ">>"

/-! ## Template-ids that lack their closing -/

namespace Tree

/-- Whether a tree is a node of a rule that takes a `>>`. -/
def isCloser (t : Tree) : Bool :=
  t.rule?.any Rule.isCloser

/-- Whether a tree is a template-id that is closed by a `>>` behind it. -/
def isInner (t : Tree) : Bool :=
  t.rule? = some .innerSimpleTemplateId

/-- `u.Around n`: the tree `n` is inside `u`, and nothing between them takes a `>>`. -/
inductive Around : Tree → Tree → Prop
  | child {u n} : n ∈ u.children → Around u n
  | deeper {u v n} : v ∈ u.children → v.isCloser = false → Around v n → Around u n

mutual

/-- The template-ids inside a tree that are not closed there. -/
def unclosed : Tree → List Tree
  | .leaf _ => []
  | .node r s e cs =>
    if r.isCloser then []
    else if r = .innerSimpleTemplateId then .node r s e cs :: unclosedAll cs
    else unclosedAll cs

/-- The template-ids inside some trees that are not closed there. -/
def unclosedAll : List Tree → List Tree
  | [] => []
  | t :: ts => unclosed t ++ unclosedAll ts

end

/-- The tokens among some trees. -/
def tokensAmong (ts : List Tree) : List Nat :=
  ts.filterMap fun
    | .leaf i => some i
    | .node .. => none

/-- The tokens among some trees that are spelled `>>`. -/
def shiftsAmong (tokens : TokenStream) (ts : List Tree) : List Nat :=
  (tokensAmong ts).filter tokens.isShift

/-- Some trees hold no `>>` and lack none, or they hold one, at the end, and lack this one. -/
inductive ClosedBy (tokens : TokenStream) (ts : List Tree) : Prop
  | single : shiftsAmong tokens ts = [] → unclosedAll ts = [] → ClosedBy tokens ts
  | double {n} : shiftsAmong tokens ts = [n.stop] → unclosedAll ts = [n] →
      ts.getLast? = some (.leaf n.stop) → ClosedBy tokens ts

theorem unclosedAll_append (ts us : List Tree) :
    unclosedAll (ts ++ us) = unclosedAll ts ++ unclosedAll us := by
  induction ts with
  | nil => rfl
  | cons t ts ih => simp only [List.cons_append, unclosedAll, ih, List.append_assoc]

theorem shiftsAmong_append (tokens : TokenStream) (ts us : List Tree) :
    shiftsAmong tokens (ts ++ us) = shiftsAmong tokens ts ++ shiftsAmong tokens us := by
  simp only [shiftsAmong, tokensAmong, List.filterMap_append, List.filter_append]

mutual

theorem mem_of_mem_unclosed {n : Tree} : ∀ t : Tree, n ∈ t.unclosed →
    n ∈ t.preorder ∧ n.isInner = true
  | .leaf _, h => nomatch h
  | .node r s e cs, h => by
    rw [unclosed] at h
    split_ifs at h with hcloser hr
    · cases h
    · rcases List.mem_cons.1 h with rfl | h
      · exact ⟨List.mem_cons_self .., by rw [hr]; rfl⟩
      · exact (mem_of_mem_unclosedAll cs h).imp_left (List.mem_cons_of_mem _)
    · exact (mem_of_mem_unclosedAll cs h).imp_left (List.mem_cons_of_mem _)

theorem mem_of_mem_unclosedAll {n : Tree} : ∀ ts : List Tree, n ∈ unclosedAll ts →
    n ∈ preorderAll ts ∧ n.isInner = true
  | [], h => nomatch h
  | t :: ts, h => by
    rcases List.mem_append.1 h with h | h
    · exact (mem_of_mem_unclosed t h).imp_left (List.mem_append_left _)
    · exact (mem_of_mem_unclosedAll ts h).imp_left (List.mem_append_right _)

end

theorem mem_unclosed_self {n : Tree} (h : n.isInner = true) : n ∈ n.unclosed := by
  cases n with
  | leaf => cases h
  | node r s e cs =>
    have hr : r = .innerSimpleTemplateId := by simpa [isInner, rule?] using h
    subst hr
    exact List.mem_cons_self ..

theorem mem_unclosedAll {n t : Tree} {ts : List Tree} (ht : t ∈ ts) (h : n ∈ t.unclosed) :
    n ∈ unclosedAll ts := by
  induction ts with
  | nil => cases ht
  | cons d ts ih =>
    rcases List.mem_cons.1 ht with rfl | ht
    · exact List.mem_append_left _ h
    · exact List.mem_append_right _ (ih ht)

theorem mem_unclosed_of_children {n t : Tree} (ht : t.isCloser = false)
    (h : n ∈ unclosedAll t.children) : n ∈ t.unclosed := by
  cases t with
  | leaf => cases h
  | node r s e cs =>
    have hr : ¬ r.isCloser = true := by simpa [isCloser, rule?] using ht
    rw [unclosed, if_neg hr]
    split_ifs
    · exact List.mem_cons_of_mem _ h
    · exact h

theorem Around.mem_unclosedAll {u n : Tree} (h : Around u n) (hn : n.isInner = true) :
    n ∈ unclosedAll u.children := by
  induction h with
  | child hm => exact Tree.mem_unclosedAll hm (mem_unclosed_self hn)
  | deeper hm hv _ ih => exact Tree.mem_unclosedAll hm (mem_unclosed_of_children hv (ih hn))

mutual

theorem around_of_mem_unclosed {n : Tree} : ∀ t : Tree, n ∈ t.unclosed →
    t.isCloser = false ∧ (n = t ∨ Around t n)
  | .leaf _, h => nomatch h
  | .node r s e cs, h => by
    rw [unclosed] at h
    split_ifs at h with hcloser hr
    · cases h
    all_goals
      refine ⟨by simpa [isCloser, rule?] using hcloser, ?_⟩
    · rcases List.mem_cons.1 h with rfl | h
      · exact Or.inl rfl
      · exact Or.inr (around_of_mem_unclosedAll cs (fun _ hm => hm) h)
    · exact Or.inr (around_of_mem_unclosedAll cs (fun _ hm => hm) h)

theorem around_of_mem_unclosedAll {n u : Tree} : ∀ ts : List Tree,
    (∀ t ∈ ts, t ∈ u.children) → n ∈ unclosedAll ts → Around u n
  | [], _, h => nomatch h
  | t :: ts, hts, h => by
    rcases List.mem_append.1 h with h | h
    · obtain ⟨ht, rfl | haround⟩ := around_of_mem_unclosed t h
      · exact .child (hts _ (List.mem_cons_self ..))
      · exact .deeper (hts _ (List.mem_cons_self ..)) ht haround
    · exact around_of_mem_unclosedAll ts (fun _ hm => hts _ (List.mem_cons_of_mem _ hm)) h

end

mutual

/-- **A template-id in a tree is not closed there, or there is a nearest node around it that takes a
`>>`.** -/
theorem exists_around {n : Tree} (hn : n.isInner = true) : ∀ t : Tree, n ∈ t.preorder →
    n ∈ t.unclosed ∨ ∃ u ∈ t.preorder, u.isCloser = true ∧ Around u n
  | .leaf i, h => by
    rw [List.mem_singleton.1 h] at hn
    cases hn
  | .node r s e cs, h => by
    rcases List.mem_cons.1 h with rfl | h
    · exact Or.inl (mem_unclosed_self hn)
    · rcases exists_around_of_mem hn cs h with h | ⟨u, hu, hcloser, haround⟩
      · by_cases hr : (node r s e cs).isCloser = true
        · exact Or.inr ⟨_, List.mem_cons_self .., hr,
            around_of_mem_unclosedAll cs (fun _ hm => hm) h⟩
        · exact Or.inl (mem_unclosed_of_children (Bool.eq_false_iff.2 hr) h)
      · exact Or.inr ⟨u, List.mem_cons_of_mem _ hu, hcloser, haround⟩

theorem exists_around_of_mem {n : Tree} (hn : n.isInner = true) : ∀ ts : List Tree,
    n ∈ preorderAll ts →
    n ∈ unclosedAll ts ∨ ∃ u ∈ preorderAll ts, u.isCloser = true ∧ Around u n
  | [], h => nomatch h
  | t :: ts, h => by
    rcases List.mem_append.1 h with h | h
    · rcases exists_around hn t h with h | ⟨u, hu, hcloser, haround⟩
      · exact Or.inl (List.mem_append_left _ h)
      · exact Or.inr ⟨u, List.mem_append_left _ hu, hcloser, haround⟩
    · rcases exists_around_of_mem hn ts h with h | ⟨u, hu, hcloser, haround⟩
      · exact Or.inl (List.mem_append_right _ h)
      · exact Or.inr ⟨u, List.mem_append_right _ hu, hcloser, haround⟩

end

/-! ### Counting -/

/-- The places where the template-ids inside some trees end. -/
def innerStops (ts : List Tree) : List Nat :=
  (ts.filter isInner).map Tree.stop

section
variable {tokens : TokenStream}

theorem ClosedBy.count_le {ts : List Tree} (h : ClosedBy tokens ts) (i : Nat) :
    ((unclosedAll ts).map Tree.stop).count i ≤ (tokensAmong ts).count i := by
  cases h with
  | single _ hnone => simp [hnone]
  | @double n hshifts hn _ =>
    have hcount := (List.filter_sublist (p := tokens.isShift) (l := tokensAmong ts)).count_le i
    rw [hn, List.map_singleton, ← hshifts]
    exact hcount

mutual

/-- At any place end as many template-ids as there are tokens there, but for those that are not
closed.  The tokens among the children of a node are what each of its own template-ids gets. -/
theorem count_innerStops_le (i : Nat) : ∀ t : Tree,
    (∀ u ∈ t.preorder, u.isCloser = true → ClosedBy tokens u.children) →
    (innerStops t.preorder).count i ≤ t.leaves.count i + (t.unclosed.map Tree.stop).count i
  | .leaf j, _ => by simp [innerStops, preorder, isInner, rule?]
  | .node r s e cs, h => by
    have hcs := countAll_innerStops_le i cs fun u hu => h u (List.mem_cons_of_mem _ hu)
    rw [unclosed, leaves]
    split_ifs with hcloser hr
    · -- whatever its children lack is made up for by the tokens among them
      have hclosed := (h _ (List.mem_cons_self ..) hcloser).count_le i
      have hinner : (node r s e cs).isInner = false := by
        simp only [isInner, rule?, Option.some.injEq, decide_eq_false_iff_not]
        rintro rfl
        cases hcloser
      simp only [children] at hclosed
      simp only [innerStops, preorder, List.filter_cons, hinner] at hcs ⊢
      simp only [List.map_nil, List.count_nil, Bool.false_eq_true, if_false]
      omega
    · subst hr
      have hinner : (node .innerSimpleTemplateId s e cs).isInner = true := rfl
      simp only [innerStops, preorder, List.filter_cons, hinner, if_true, List.map_cons,
        List.count_cons] at hcs ⊢
      omega
    · have hinner : (node r s e cs).isInner = false := by simpa [isInner, rule?] using hr
      simp only [innerStops, preorder, List.filter_cons, hinner] at hcs ⊢
      simp only [Bool.false_eq_true, if_false]
      omega

theorem countAll_innerStops_le (i : Nat) : ∀ ts : List Tree,
    (∀ u ∈ preorderAll ts, u.isCloser = true → ClosedBy tokens u.children) →
    (innerStops (preorderAll ts)).count i + (tokensAmong ts).count i ≤
      (leavesAll ts).count i + ((unclosedAll ts).map Tree.stop).count i
  | [], _ => by simp [innerStops, preorderAll, tokensAmong]
  | t :: ts, h => by
    have ht := count_innerStops_le i t fun u hu => h u (List.mem_append_left _ hu)
    have hts := countAll_innerStops_le i ts fun u hu => h u (List.mem_append_right _ hu)
    simp only [innerStops, preorderAll, leavesAll, unclosedAll, List.filter_append,
      List.map_append, List.count_append] at ht hts ⊢
    cases t with
    | leaf j =>
      have hnone : ((leaf j).preorder.filter isInner).map Tree.stop = [] := rfl
      have htokens : tokensAmong (leaf j :: ts) = [j] ++ tokensAmong ts := rfl
      have hleaves : (leaf j).leaves = [j] := rfl
      rw [hnone, htokens, hleaves, List.count_append, List.count_nil]
      omega
    | node r s e cs =>
      have hsame : tokensAmong (node r s e cs :: ts) = tokensAmong ts := rfl
      rw [hsame]
      omega

end

/-! ### Closing one by one -/

theorem mem_tokensAmong {ts : List Tree} {i : Nat} : i ∈ tokensAmong ts ↔ .leaf i ∈ ts := by
  constructor
  · intro h
    obtain ⟨t, ht, hi⟩ := List.mem_filterMap.1 h
    cases t <;> cases hi
    exact ht
  · intro h
    exact List.mem_filterMap.2 ⟨_, h, rfl⟩

/-- Where nothing lacks its closing, each template-id that a `>>` closes is closed by the last child of
the nearest node around it that takes a `>>`. -/
theorem ClosedBy.last_eq {u n : Tree} (h : ClosedBy tokens u.children) (hn : n.isInner = true)
    (haround : Around u n) :
    u.children.getLast? = some (.leaf n.stop) ∧ tokens.isShift n.stop = true := by
  have hmem := haround.mem_unclosedAll hn
  cases h with
  | single _ hnone => rw [hnone] at hmem; cases hmem
  | @double m hshifts hm hlast =>
    rw [hm, List.mem_singleton] at hmem
    subst hmem
    have hshift : n.stop ∈ shiftsAmong tokens u.children := by
      rw [hshifts]
      exact List.mem_singleton_self _
    exact ⟨hlast, (List.mem_filter.1 hshift).2⟩

variable {t : Tree}

theorem innerStops_nodup (ht : t.Tiled)
    (hclosed : ∀ u ∈ t.preorder, u.isCloser = true → ClosedBy tokens u.children)
    (hnone : t.unclosed = []) : (innerStops t.preorder).Nodup := by
  have hleaves : t.leaves.Nodup := by
    rw [ht.leaves_eq.1]
    exact List.nodup_range'
  refine List.nodup_iff_count_le_one.2 fun i => ?_
  have hle := count_innerStops_le i t hclosed
  have hone := List.nodup_iff_count_le_one.1 hleaves i
  rw [hnone, List.map_nil, List.count_nil] at hle
  omega

/-- **The template-ids that a `>>` closes and the `>>` that close them belong together one by one**:
each template-id ends where its `>>` is. -/
theorem bijOn_stop (ht : t.Tiled)
    (hclosed : ∀ u ∈ t.preorder, u.isCloser = true → ClosedBy tokens u.children)
    (hnone : t.unclosed = []) :
    Set.BijOn Tree.stop {n | n ∈ t.preorder ∧ n.isInner = true}
      {i | ∃ u ∈ t.preorder, u.isCloser = true ∧ .leaf i ∈ u.children ∧ tokens.isShift i = true} := by
  refine ⟨?mapsTo, ?injOn, ?surjOn⟩
  case mapsTo =>
    rintro n ⟨hn, hinner⟩
    rcases exists_around hinner t hn with h | ⟨u, hu, hcloser, haround⟩
    · rw [hnone] at h
      cases h
    · obtain ⟨hlast, hshift⟩ := (hclosed u hu hcloser).last_eq hinner haround
      exact ⟨u, hu, hcloser, List.mem_of_getLast? hlast, hshift⟩
  case injOn =>
    rintro n ⟨hn, hinner⟩ m ⟨hm, hinner'⟩ heq
    exact List.inj_on_of_nodup_map (innerStops_nodup ht hclosed hnone)
      (List.mem_filter.2 ⟨hn, hinner⟩) (List.mem_filter.2 ⟨hm, hinner'⟩) heq
  case surjOn =>
    rintro i ⟨u, hu, hcloser, hi, hshift⟩
    have hmem : i ∈ shiftsAmong tokens u.children :=
      List.mem_filter.2 ⟨mem_tokensAmong.2 hi, hshift⟩
    cases hclosed u hu hcloser with
    | single hshifts _ => rw [hshifts] at hmem; cases hmem
    | @double n hshifts hn _ =>
      rw [hshifts, List.mem_singleton] at hmem
      have hin : n ∈ unclosedAll u.children := by
        rw [hn]
        exact List.mem_singleton_self _
      obtain ⟨hmem', hinner⟩ := mem_of_mem_unclosedAll _ hin
      exact ⟨n, ⟨(preorder_sublist t hu).subset (mem_preorder_of_children hmem'), hinner⟩, hmem.symm⟩

end

theorem unclosedAll_node {q : Rule} (hcloser : q.isCloser = false)
    (hinner : q ≠ .innerSimpleTemplateId) (production : Production) (p stop : Nat)
    (ts : List Tree) : unclosedAll [production.node q p stop ts] = unclosedAll ts := by
  rcases production.node_cases q p stop ts with heq | heq
  · rw [← heq]
  · simp [heq, unclosedAll, unclosed, hcloser, hinner]

end Tree

end PackratCpp
