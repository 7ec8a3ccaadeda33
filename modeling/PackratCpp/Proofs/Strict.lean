/-
  Reading without recovery.

  * `Grammar.StrictOf`: a grammar is another one without recovery.
  * `Segments.strict_turns`: without recovery a translation unit takes the declarations up to the
    first piece of skipped input.
  * `Segments.strict_parse`: so it is read if nothing would have to be skipped, and otherwise
    the diagnosis is of a token there or further on.
  * `Grammar.standard_strict_agrees`: the two ways of reading agree in every dialect.
-/
import PackratCpp.Proofs.Skipping

namespace PackratCpp

/-- A translation unit that is read without recovery. -/
def Production.strictUnit : Production :=
  ⟨.seq [.star (.rule .declaration), .token (.kind .eof)], false⟩

/-- A grammar is another one without recovery: they differ at the top level only. -/
structure Grammar.StrictOf (s g : Grammar) : Prop where
  translationUnit : s.find? .translationUnit = some .strictUnit
  agree : ∀ r, r.isNested = true → s.find? r = g.find? r

theorem Dialect.strictOf (language : Language) (ext : Extensions) :
    (Dialect.grammar ⟨false, language, ext⟩ []).StrictOf
      (Dialect.grammar ⟨true, language, ext⟩ []) where
  translationUnit := find?_translationUnit (by simp)
  agree _ := find?_grammar_recovery language ext false true

namespace Segments

variable {s g : Grammar} {tokens : TokenStream} {p : Nat} {ts : List Tree}

theorem strict_turns (hg : g.Recovers) (hs : s.StrictOf g) (h : Segments g tokens p ts) :
    ∃ q ds rest log, ts = ds ++ rest ∧ (∀ t ∈ ds, t.isSkipped = false) ∧
      Derives s tokens .translationUnit (.turns (.rule .declaration)) p (.matched q ds) log ∧
      (rest = [] ∧ q = tokens.eofIndex ∨
        q < tokens.eofIndex ∧ ∃ q' us, rest = .skipped q q' :: us) := by
  have hle := h.le_eofIndex
  have hlen := tokens.length_eq
  -- Where no declaration can be read, there is no further item.
  have hstop : ∀ p, p ≤ tokens.eofIndex → ¬ g.Declares tokens p →
      ∃ log, Derives s tokens .translationUnit (.turns (.rule .declaration)) p
        (.matched p []) log := by
    intro p hp hno
    obtain ⟨v, log, hd⟩ := hg.ranked.total .translationUnit .declaration
      (show p ≤ tokens.length by omega)
    cases v with
    | matched stop trees => exact absurd ⟨_, _, _, hd⟩ hno
    | failed => exact ⟨log, .turnsStop (hd.of_agree hg.closed hs.agree rfl)⟩
  induction h with
  | done =>
    obtain ⟨log, hd⟩ := hstop _ (Nat.le_refl _) hg.not_declares_eofIndex
    exact ⟨_, [], [], log, rfl, by simp, hd, Or.inl ⟨rfl, rfl⟩⟩
  | @declaration p q cs log ts hlt hqe hd _ ih =>
    obtain ⟨q', ds, rest, log', rfl, hds, hd', hrest⟩ := ih hqe
    refine ⟨q', .node .declaration p q cs :: ds, rest, log ++ log', rfl, ?_,
      .turnsMatch (hd.of_agree hg.closed hs.agree rfl) (by omega) hd', hrest⟩
    intro t ht
    rcases List.mem_cons.1 ht with rfl | ht
    · rfl
    · exact hds t ht
  | @skipped p q ts hlt hqe hnone _ _ _ =>
    obtain ⟨log, hd⟩ := hstop p (by omega) (hnone p (Nat.le_refl _) hlt)
    exact ⟨p, [], _, log, rfl, by simp, hd, Or.inr ⟨by omega, q, ts, rfl⟩⟩

/-- **Without recovery, a translation unit is read if nothing would have to be skipped**, and as
the same tree.  Otherwise its end was expected where the first piece of skipped input starts, and
the diagnosis is of a token there or further on. -/
theorem strict_parse (hg : g.Recovers) (hs : s.StrictOf g) (h : Segments g tokens 0 ts) :
    ((∀ t ∈ ts, t.isSkipped = false) ∧ ∃ r, s.parse tokens .translationUnit none = .ok r ∧
      r.tree = .node .translationUnit 0 tokens.length (ts ++ [.leaf tokens.eofIndex])) ∨
    ∃ d q q' ds us, s.parse tokens .translationUnit none = .error (.recognition d) ∧
      ts = ds ++ .skipped q q' :: us ∧ (∀ t ∈ ds, t.isSkipped = false) ∧ q ≤ d.position := by
  obtain ⟨q, ds, rest, log, rfl, hds, hd, ⟨rfl, rfl⟩ | ⟨hlt, q', us, rfl⟩⟩ :=
    h.strict_turns hg hs
  · obtain ⟨t, ht, heof⟩ := tokens.exists_eof
    have hbody : Derives s tokens .translationUnit (.expr Production.strictUnit.body) 0
        (.matched (tokens.eofIndex + 1) (ds ++ ([.leaf tokens.eofIndex] ++ []))) _ :=
      .seq (.itemsMatch (.star hd) (.itemsMatch (.tokenPass ht heof) .itemsDone))
    obtain ⟨r, hr, htree, -⟩ := Grammar.parse_of_matched hs.translationUnit
      (Grammar.unlimited_unrefused_iff.2 ⟨_, _, hbody⟩) hbody (Or.inr tokens.length_eq.symm)
    rw [List.append_nil]
    exact Or.inl ⟨hds, r, hr, by rw [htree, tokens.length_eq]; rfl⟩
  · obtain ⟨t, ht, heof⟩ := TokenStream.exists_token hlt
    have hbody : Derives s tokens .translationUnit (.expr Production.strictUnit.body) 0 .failed _ :=
      .seq (.itemsFail (.star hd) (.itemsStop (.tokenFail ht heof)))
    have hparse := Grammar.parse_of_failed hs.translationUnit
      (Grammar.unlimited_unrefused_iff.2 ⟨_, _, hbody⟩) hbody
    refine Or.inr ⟨_, q, q', ds, us, hparse, rfl, hds, ?_⟩
    have hnoted := Furthest.absorbs_noteAll Furthest.none
      (List.mem_append_right log (List.mem_singleton_self
        (⟨q, .token (.kind .eof), .translationUnit⟩ : Attempt)))
    exact Nat.le_min.2 ⟨hnoted.position_le, Nat.le_of_lt hlt⟩

end Segments

/-- **Reading with and without recovery agree.**  In every dialect, and without a limit on depth, a
stream is read without recovery exactly if nothing is skipped with recovery, and then the
trees are the same.  Otherwise the failure is diagnosed, at a token where the first piece of
skipped input starts or further on. -/
theorem Grammar.standard_strict_agrees (language : Language) (ext : Extensions)
    (tokens : TokenStream) :
    ∃ strict recovering, Grammar.standard? ⟨false, language, ext⟩ [] = .ok strict ∧
      Grammar.standard? ⟨true, language, ext⟩ [] = .ok recovering ∧
      ∃ r, recovering.parse tokens .translationUnit none = .ok r ∧
        ((∃ r', strict.parse tokens .translationUnit none = .ok r') ↔
          ∀ t ∈ r.tree.preorder, t.isSkipped = false) ∧
        (∀ r', strict.parse tokens .translationUnit none = .ok r' → r'.tree = r.tree) ∧
        ∀ e, strict.parse tokens .translationUnit none = .error e →
          ∃ d, e = .recognition d ∧
            ∃ first, r.recovered.head? = some first ∧ first.start ≤ d.position := by
  have hg : (Dialect.grammar ⟨true, language, ext⟩ []).Recovers :=
    Dialect.recovers rfl (by simp) (by simp)
  obtain ⟨r, children, hr, htokens, ht, hseg⟩ := hg.parse_segments tokens
  have hfilter := hg.filter_preorder hseg
  rw [← ht] at hfilter
  have hskips : (∀ t ∈ r.tree.preorder, t.isSkipped = false) ↔
      ∀ t ∈ children, t.isSkipped = false := by
    simp only [← Bool.not_eq_true, ← List.filter_eq_nil_iff, hfilter]
  refine ⟨_, _, Grammar.standard?_eq _ _, Grammar.standard?_eq _ _, r, hr, ?_⟩
  rcases hseg.strict_parse hg (Dialect.strictOf language ext) with
    ⟨hnone, r', hr', ht'⟩ | ⟨d, q, q', ds, us, hd, hchildren, hds, hq⟩
  · refine ⟨⟨fun _ => hskips.2 hnone, fun _ => ⟨r', hr'⟩⟩, fun r'' hr'' => ?_, fun e he => ?_⟩
    · rw [hr'] at hr''
      cases hr''
      rw [ht', ht]
    · rw [hr'] at he
      cases he
  · have hrecovered := hg.recovered_eq hseg htokens ht
    refine ⟨⟨?_, fun hno => ?_⟩, fun r' hr' => ?_, fun e he => ?_⟩
    · rintro ⟨r', hr'⟩
      rw [hd] at hr'
      cases hr'
    · have hskip := hskips.1 hno (.skipped q q') (by simp [hchildren])
      cases hskip
    · rw [hd] at hr'
      cases hr'
    · rw [hd] at he
      cases he
      refine ⟨d, rfl, ⟨(tokens.getClamped q).line, q, q'⟩, ?_, hq⟩
      have hnone : ds.filterMap (Parse.recovered? tokens) = [] :=
        List.filterMap_eq_nil_iff.2 fun t ht => Parse.recovered?_eq_none (hds t ht)
      rw [hrecovered, hchildren, List.filterMap_append, hnone]
      rfl

end PackratCpp
