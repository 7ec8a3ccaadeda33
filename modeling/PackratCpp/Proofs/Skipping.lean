/-
  Where skipped input is found in a tree.

  * `Tree.isSkipped`: a tree is a piece of skipped input.
  * `Segments.filter_preorderAll`: only the pieces of a division are, and nothing inside them.
  * `Segments.isChain`, `Segments.recovered_pairwise`: no two of them are next to each other, and
    the report lists them in order.
  * `Grammar.standard_parse_segments`: all this for the parse of any stream in any dialect with
    recovery, and that a suffix of the stream is read as it is there.
-/
import Mathlib.Data.List.Chain
import PackratCpp.Proofs.Segments

namespace PackratCpp

namespace Tree

/-- Whether a tree is skipped input. -/
def isSkipped : Tree → Bool
  | .node .recoveredDeclaration _ _ _ => true
  | _ => false

theorem rule?_of_isSkipped {t : Tree} (h : t.isSkipped = true) :
    t.rule? = some .recoveredDeclaration := by
  unfold isSkipped at h
  split at h
  · rfl
  · cases h

theorem RulesWithin.filter_isSkipped {ts : List Tree} (h : RulesWithin Rule.isNested ts) :
    (preorderAll ts).filter isSkipped = [] := by
  rw [List.filter_eq_nil_iff]
  intro t ht hs
  exact absurd (h t ht _ (rule?_of_isSkipped hs)) (by decide)

end Tree

theorem Parse.recovered?_eq_none {tokens : TokenStream} {t : Tree} (h : t.isSkipped = false) :
    recovered? tokens t = none := by
  unfold recovered?
  split
  · cases h
  · rfl

theorem Parse.filterMap_recovered? (tokens : TokenStream) (ts : List Tree) :
    ts.filterMap (recovered? tokens) =
      (ts.filter Tree.isSkipped).filterMap (recovered? tokens) := by
  rw [List.filterMap_filter]
  refine List.filterMap_congr fun t _ => ?_
  cases h : t.isSkipped with
  | true => rfl
  | false => exact recovered?_eq_none h

namespace Segments

variable {g : Grammar} {tokens : TokenStream} {p : Nat} {ts : List Tree}

/-- **Skipped input is found among the pieces only.** -/
theorem filter_preorderAll (hg : g.Recovers) (h : Segments g tokens p ts) :
    (Tree.preorderAll ts).filter Tree.isSkipped = ts.filter Tree.isSkipped := by
  induction h with
  | done => rfl
  | declaration _ _ hd _ ih =>
    have hnone := (hd.yields.rulesWithin hg.closed rfl).filter_isSkipped
    rw [Tree.preorderAll, Tree.preorderAll, List.append_nil] at hnone
    rw [Tree.preorderAll, List.filter_append, hnone, ih]
    rfl
  | @skipped p q ts _ _ _ _ _ ih =>
    have hnone : (Tree.preorderAll (Tree.leavesBetween p q)).filter Tree.isSkipped = [] :=
      (Tree.rulesWithin_leaves _).filter_isSkipped
    have hself : (Tree.preorder (.skipped p q)).filter Tree.isSkipped = [.skipped p q] := by
      rw [Tree.skipped, Tree.preorder, List.filter_cons_of_pos rfl, hnone]
    rw [Tree.preorderAll, List.filter_append, hself, ih]
    rfl

theorem head?_isSkipped (h : Segments g tokens p ts)
    (hend : p = tokens.eofIndex ∨ g.Declares tokens p) : ∀ t ∈ ts.head?, t.isSkipped = false := by
  intro t ht
  cases h with
  | done => cases ht
  | declaration => cases ht; rfl
  | skipped hlt hle hnone =>
    rcases hend with rfl | hend
    · omega
    · exact absurd hend (hnone p (Nat.le_refl _) hlt)

/-- **No two pieces of skipped input are next to each other.** -/
theorem isChain (h : Segments g tokens p ts) :
    ts.IsChain fun t u => ¬ (t.isSkipped = true ∧ u.isSkipped = true) := by
  induction h with
  | done => exact .nil
  | declaration _ _ _ _ ih => exact List.isChain_cons.2 ⟨fun u _ hs => (by cases hs.1), ih⟩
  | skipped _ _ _ hend h ih =>
    refine List.isChain_cons.2 ⟨fun u hu hs => ?_, ih⟩
    rw [h.head?_isSkipped hend u hu] at hs
    cases hs.2

theorem not_declares (h : Segments g tokens p ts) {s e : Nat} {cs : List Tree}
    (hm : .node .recoveredDeclaration s e cs ∈ ts) {i : Nat} (hs : s ≤ i) (he : i < e) :
    ¬ g.Declares tokens i := by
  induction h with
  | done => cases hm
  | declaration _ _ _ _ ih =>
    rcases List.mem_cons.1 hm with hm | hm
    · cases hm
    · exact ih hm
  | skipped _ _ hnone _ _ ih =>
    rcases List.mem_cons.1 hm with hm | hm
    · cases hm
      exact hnone i hs he
    · exact ih hm

theorem recovered_bounds (h : Segments g tokens p ts) :
    ∀ a ∈ ts.filterMap (Parse.recovered? tokens), p ≤ a.start ∧ a.start < a.stop := by
  induction h with
  | done => intro a ha; cases ha
  | declaration hlt _ _ _ ih => exact fun a ha => ⟨by have := (ih a ha).1; omega, (ih a ha).2⟩
  | @skipped p q ts hlt _ _ _ _ ih =>
    have hself : Parse.recovered? tokens (.skipped p q) =
      some ⟨(tokens.getClamped p).line, p, q⟩ := rfl
    rw [List.filterMap_cons_some hself]
    intro a ha
    rcases List.mem_cons.1 ha with rfl | ha
    · exact ⟨Nat.le_refl _, hlt⟩
    · exact ⟨by have := (ih a ha).1; omega, (ih a ha).2⟩

/-- **The pieces of skipped input are reported in order**, with something between any two. -/
theorem recovered_pairwise (h : Segments g tokens p ts) :
    (ts.filterMap (Parse.recovered? tokens)).Pairwise fun a b => a.stop < b.start := by
  induction h with
  | done => exact .nil
  | declaration _ _ _ _ ih => exact ih
  | @skipped p q ts hlt _ _ hend h ih =>
    have hself : Parse.recovered? tokens (.skipped p q) =
      some ⟨(tokens.getClamped p).line, p, q⟩ := rfl
    rw [List.filterMap_cons_some hself]
    refine List.pairwise_cons.2 ⟨fun b hb => ?_, ih⟩
    cases h with
    | done => cases hb
    | declaration hlt' _ _ h =>
      have := (h.recovered_bounds b hb).1
      simp only
      omega
    | skipped hlt' _ hnone =>
      rcases hend with rfl | hend
      · omega
      · exact absurd hend (hnone q (Nat.le_refl _) hlt')

end Segments

/-! ## Parses -/

namespace Grammar.Recovers

variable {g : Grammar} {tokens : TokenStream} {children : List Tree}

theorem filter_preorder (hg : g.Recovers) (h : Segments g tokens 0 children) :
    (Tree.node .translationUnit 0 tokens.length
      (children ++ [.leaf tokens.eofIndex])).preorder.filter Tree.isSkipped =
      children.filter Tree.isSkipped := by
  rw [Tree.preorder, List.filter_cons_of_neg Bool.false_ne_true, Tree.preorderAll_append,
    List.filter_append, h.filter_preorderAll hg]
  exact List.append_nil _

theorem recovered_eq (hg : g.Recovers) (h : Segments g tokens 0 children) {r : Parse}
    (htokens : r.tokens = tokens)
    (ht : r.tree = .node .translationUnit 0 tokens.length (children ++ [.leaf tokens.eofIndex])) :
    r.recovered = children.filterMap (Parse.recovered? tokens) := by
  rw [Parse.recovered, htokens, Parse.filterMap_recovered?, ht, hg.filter_preorder h,
    ← Parse.filterMap_recovered?]

theorem parse_drop (hg : g.Recovers) (h : Segments g tokens 0 children) {k : Nat} {t : Tree}
    (ht : (children ++ [.leaf tokens.eofIndex])[k]? = some t) :
    ∃ r, g.parse (tokens.drop t.start) .translationUnit none = .ok r ∧
      r.tree.children.map (Tree.shift t.start) =
        (children ++ [Tree.leaf tokens.eofIndex]).drop k := by
  have hk : k < (children ++ [Tree.leaf tokens.eofIndex]).length :=
    (List.getElem?_eq_some_iff.1 ht).1
  rw [List.length_append, List.length_singleton] at hk
  have hrest : Segments g tokens t.start (children.drop k) := by
    by_cases hlt : k < children.length
    · rw [List.getElem?_append_left hlt] at ht
      exact h.drop ht
    · obtain rfl : k = children.length := by omega
      rw [List.getElem?_concat_length, Option.some.injEq] at ht
      rw [← ht, List.drop_length]
      exact .done
  have hle := hrest.le_eofIndex
  obtain ⟨r, children', hr, -, htree, hseg⟩ := hg.parse_segments (tokens.drop t.start)
  refine ⟨r, hr, ?_⟩
  have hshift := hseg.shift hg hle
  rw [Nat.zero_add] at hshift
  rw [htree, Tree.children, List.map_append, hshift.unique hrest,
    List.drop_append_of_le_length (by omega), List.map_singleton, Tree.shift,
    TokenStream.eofIndex_drop hle]

end Grammar.Recovers

/-- **Recovery is greedy segmentation.**  In every dialect with recovery, and without a limit on
depth, the children of a translation unit are a declaration wherever one can be read and
otherwise one piece of skipped input up to the next place where one can be, and then the end
of input.  So skipped input is found nowhere else, no two pieces of it are next to each
other, no declaration can be read inside one, the report lists them in order, and from the start
of any child on the suffix of the stream is read as the remaining children. -/
theorem Grammar.standard_parse_segments (language : Language) (ext : Extensions)
    (tokens : TokenStream) :
    ∃ g, Grammar.standard? ⟨true, language, ext⟩ [] = .ok g ∧
    ∃ r children, g.parse tokens .translationUnit none = .ok r ∧
      r.tree = .node .translationUnit 0 tokens.length (children ++ [.leaf tokens.eofIndex]) ∧
      Segments g tokens 0 children ∧
      r.tree.preorder.filter Tree.isSkipped = children.filter Tree.isSkipped ∧
      children.IsChain (fun t u => ¬ (t.isSkipped = true ∧ u.isSkipped = true)) ∧
      (∀ s e cs, .node .recoveredDeclaration s e cs ∈ children →
        ∀ i, s ≤ i → i < e → ¬ g.Declares tokens i) ∧
      r.recovered = children.filterMap (Parse.recovered? tokens) ∧
      (r.recovered.Pairwise fun a b => a.stop < b.start) ∧
      (∀ a ∈ r.recovered, a.start < a.stop) ∧
      ∀ k t, r.tree.children[k]? = some t →
        ∃ r', g.parse (tokens.drop t.start) .translationUnit none = .ok r' ∧
          r'.tree.children.map (Tree.shift t.start) = r.tree.children.drop k := by
  have hg : (Dialect.grammar ⟨true, language, ext⟩ []).Recovers :=
    Dialect.recovers rfl (by simp) (by simp)
  obtain ⟨r, children, hr, htokens, ht, hseg⟩ := hg.parse_segments tokens
  have hrecovered := hg.recovered_eq hseg htokens ht
  refine ⟨_, Grammar.standard?_eq _ _, r, children, hr, ht, hseg,
    ht ▸ hg.filter_preorder hseg, hseg.isChain,
    fun s e cs hm i hs he => hseg.not_declares hm hs he, hrecovered, ?_, ?_, fun k t hk => ?_⟩
  · rw [hrecovered]
    exact hseg.recovered_pairwise
  · rw [hrecovered]
    exact fun a ha => (hseg.recovered_bounds a ha).2
  · rw [ht] at hk ⊢
    exact hg.parse_drop hseg hk

end PackratCpp
