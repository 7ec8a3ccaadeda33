/-
  What is read between square brackets is what is read without them.

  * `TokenStream.Framed`: a stream has the tokens of another one, some places further on and in front of a
    `]`.
  * `TokenStream.Framed.exists_accepts`, `TokenStream.Framed.stop_matches`: tests and lookaheads that pass
    the check on square brackets do not see this `]`.
  * `Derives.framed`, `Grammar.Gives.framed`: so tasks and rules come to the same verdicts in both streams.
-/
import PackratCpp.Proofs.Dependence
import PackratCpp.Proofs.Shift
import PackratCpp.Proofs.Squares
import PackratCpp.Proofs.Window

namespace PackratCpp

/-- A stream has the tokens of another one, `k` places further on and in front of a `]`. -/
structure TokenStream.Framed (s s' : TokenStream) (k : Nat) : Prop where
  inside : ∀ {i}, i < s.eofIndex →
    (s'.get? (i + k)).map Token.reading = (s.get? i).map Token.reading
  closed : ∃ t, s'.get? (s.eofIndex + k) = some t ∧ t.kind = .punctuator ∧ t.text = "]"

section
variable {g : Grammar} {s s' : TokenStream} {r : Rule} {e : Expr} {inside : Bool} {n n' p k : Nat}
  {v : Verdict} {log : List Attempt}

theorem TokenStream.Framed.cases_of_le (h : s.Framed s' k) (hp : p ≤ s.eofIndex) :
    ∃ t t', s.get? p = some t ∧ s'.get? (p + k) = some t' ∧
      (t.isEof = false ∧ t.reading = t'.reading ∨
        p = s.eofIndex ∧ t.kind = .eof ∧ t'.kind = .punctuator ∧ t'.text = "]") := by
  rcases Nat.lt_or_eq_of_le hp with hlt | rfl
  · obtain ⟨t, ht, heof⟩ := TokenStream.exists_token hlt
    have hread := h.inside hlt
    rw [ht, Option.map_some, Option.map_eq_some_iff] at hread
    obtain ⟨t', ht', hread⟩ := hread
    exact ⟨t, t', ht, ht', Or.inl ⟨heof, hread.symm⟩⟩
  · obtain ⟨t, ht, heof⟩ := s.exists_eof
    obtain ⟨t', ht', hkind, htext⟩ := h.closed
    exact ⟨t, t', ht, ht', Or.inr ⟨rfl, Token.isEof_iff.1 heof, hkind, htext⟩⟩

theorem TokenStream.Framed.spelledAt (h : s.Framed s' k) {a : String} (hp : p < s.eofIndex)
    (ha : s'.SpelledAt a (p + k)) : s.SpelledAt a p := by
  obtain ⟨u, hu, heof, htext⟩ := ha
  obtain ⟨t, t', ht, ht', ⟨-, hread⟩ | ⟨rfl, -⟩⟩ := h.cases_of_le hp.le
  · cases ht'.symm.trans hu
    exact ⟨t, ht, (Token.isEof_congr hread).trans heof, (Prod.mk.inj hread).2.trans htext⟩
  · exact absurd hp (Nat.lt_irrefl _)

theorem TokenStream.Framed.exists_accepts (h : s.Framed s' k) {test : Terminal}
    (htest : test.pending? inside n = some n') (hp : p ≤ s.eofIndex) (hn : (n : Int) ≤ s.owed p)
    (hinside : inside = true → s.InsideAt p) :
    ∃ t t', s.get? p = some t ∧ s'.get? (p + k) = some t' ∧ test.accepts t' = test.accepts t := by
  obtain ⟨t, t', ht, ht', ⟨-, hread⟩ | ⟨rfl, hkind, hkind', htext'⟩⟩ := h.cases_of_le hp
  · exact ⟨t, t', ht, ht', (test.accepts_congr hread).symm⟩
  refine ⟨t, t', ht, ht', ?_⟩
  have howed := s.owed_eofIndex
  obtain rfl : inside = false := by
    by_contra hin
    exact absurd (hinside (Bool.eq_true_of_not_eq_false hin)).lt_eofIndex (Nat.lt_irrefl _)
  cases test with
  | text a =>
    have hno : a ≠ "]" := by
      rintro rfl
      simp only [Terminal.pending?, reduceIte, Bool.not_false, Bool.and_true, decide_true] at htest
      split_ifs at htest <;> first | omega | contradiction
    simp [Terminal.accepts, Token.isEof, hkind, hkind', htext', hno.symm]
  | keyword w =>
    rw [Terminal.accepts, Terminal.accepts, hkind, hkind']
    rfl
  | kind a =>
    simp only [Terminal.pending?, Bool.not_false, Bool.true_and] at htest
    split_ifs at htest with hask
    simp only [Bool.or_eq_true, decide_eq_true_eq, not_or] at hask
    rw [Terminal.accepts, Terminal.accepts, hkind, hkind', beq_false_of_ne (Ne.symm hask.1),
      beq_false_of_ne (Ne.symm hask.2)]

theorem Derives.of_takeCloser {t : Token} (ht : s.get? p = some t) (heof : t.isEof = false)
    (htext : t.text = "]") {es : List Expr} (hes : Expr.takeCloser es = true) :
    ∃ log, Derives g s r (.alternatives es) p (.matched (p + 1) [.leaf p]) log := by
  induction es with
  | nil => cases hes
  | cons e es ih =>
    unfold Expr.takeCloser at hes
    split at hes
    · next a _ heq =>
      cases heq
      have haccepts : (Terminal.text a).accepts t = ("]" == a) := by
        simp [Terminal.accepts, heof, htext]
      by_cases ha : a = "]"
      · subst ha
        exact ⟨_, .alternativesMatch (.tokenPass ht haccepts)⟩
      · rw [beq_false_of_ne (Ne.symm ha)] at haccepts
        obtain ⟨log, hd⟩ := ih (by simpa [ha] using hes)
        exact ⟨_, .alternativesNext (.tokenFail ht haccepts) hd⟩
    · cases hes

theorem TokenStream.Framed.stop_matches (h : s.Framed s' k) (he : e.isStop = true)
    (hp : p ≤ s.eofIndex) (hout : ¬ s.InsideAt p) (hd : Derives g s r (.expr e) p v log) :
    v ≠ .failed ∧ ∃ stop trees log', Derives g s' r (.expr e) (p + k) (.matched stop trees) log' := by
  unfold Expr.isStop at he
  split at he
  case h_2 => cases he
  next es =>
  obtain ⟨hcloser, hend⟩ := Bool.and_eq_true_iff.1 he
  obtain ⟨t, t', ht, ht', ⟨heof, hread⟩ | ⟨rfl, hkind, hkind', htext'⟩⟩ := h.cases_of_le hp
  · have htext : t.text = "]" := by
      by_contra hno
      exact hout ⟨t, ht, heof, hno⟩
    obtain ⟨_, hd₁⟩ := Derives.of_takeCloser ht heof htext hcloser
    obtain ⟨_, hd₂⟩ := Derives.of_takeCloser ht' (Token.isEof_congr hread ▸ heof)
      ((Prod.mk.inj hread).2 ▸ htext) hcloser
    refine ⟨?_, _, _, _, .choice hd₂⟩
    rw [(hd.unique (.choice hd₁)).1]
    exact nofun
  · have heof' : t'.isEof = false := by simp [Token.isEof, hkind']
    obtain ⟨_, hd'⟩ := Derives.of_takeCloser ht' heof' htext' hcloser
    refine ⟨?_, _, _, _, .choice hd'⟩
    rintro rfl
    have hrefused := hd.accepts_eq_false (of_decide_eq_true hend) ht
    simp [Terminal.accepts, hkind] at hrefused

/-- What a lookahead looks for matches in the frame where it does alone, if it comes to the same as soon as
it is known that there is a token inside. -/
theorem TokenStream.Framed.ahead (h : s.Framed s' k)
    (he : (if (e.pending? (inside || e.isStop) n).isSome then some n else none) = some n')
    (hp : p ≤ s.eofIndex) (hinside : inside = true → s.InsideAt p)
    (hd : Derives g s r (.expr e) p v log)
    (hsame : ∀ {m}, (Task.expr e).pending? (inside || e.isStop) n = some m →
      ((inside || e.isStop) = true → s.InsideAt p) →
      ∃ log', Derives g s' r (.expr e) (p + k) (v.shift k) log') :
    ∃ v' log', Derives g s' r (.expr e) (p + k) v' log' ∧ (v' = .failed ↔ v = .failed) := by
  by_cases hin : e.isStop = true → s.InsideAt p
  · obtain ⟨-, m, hm⟩ := Task.pending?_ahead he
    obtain ⟨log', hd'⟩ := hsame hm fun hor => (Bool.or_eq_true_iff.1 hor).elim hinside hin
    refine ⟨_, log', hd', ?_⟩
    cases v <;> simp [Verdict.shift]
  · obtain ⟨hstop, hout⟩ := Classical.not_imp.1 hin
    obtain ⟨hv, stop, trees, log', hd'⟩ := h.stop_matches hstop hp hout hd
    exact ⟨_, log', hd', by simp [hv]⟩

/-- **Between brackets is as alone**: a task comes to the same verdict in both streams.  The induction is on
the derivation; that matches keep what is owed keeps the hypotheses up. -/
theorem Derives.framed (hg : g.Steady) (hs : s.Contained) (hframe : s.Framed s' k) {t : Task}
    (h : Derives g s r t p v log) (ht : t.pending? inside n = some n') (hp : p ≤ s.eofIndex)
    (hn : (n : Int) ≤ s.owed p) (hinside : inside = true → s.InsideAt p) :
    ∃ log', Derives g s' r t (p + k) (v.shift k) log' := by
  induction h generalizing inside n n' with
  | @tokenPass r test p _ hi ha =>
    obtain ⟨u, u', hu, hu', haccepts⟩ := hframe.exists_accepts ht hp hn hinside
    cases hi.symm.trans hu
    have hd : Derives g s' r (.expr (.token test)) (p + k) _ _ := .tokenPass hu' (haccepts.trans ha)
    rw [Nat.add_right_comm] at hd
    exact ⟨_, hd⟩
  | tokenFail hi ha =>
    obtain ⟨u, u', hu, hu', haccepts⟩ := hframe.exists_accepts ht hp hn hinside
    cases hi.symm.trans hu
    exact ⟨_, .tokenFail hu' (haccepts.trans ha)⟩
  | tokenBeyond hi =>
    obtain ⟨u, u', hu, -⟩ := hframe.exists_accepts ht hp hn hinside
    cases hi.symm.trans hu
  | @anyPass r p _ hi he =>
    obtain ⟨u, u', hu, hu', ⟨-, hread⟩ | ⟨-, hkind, -⟩⟩ := hframe.cases_of_le hp
    · cases hi.symm.trans hu
      have hd : Derives g s' r (.expr .anyToken) (p + k) _ _ :=
        .anyPass hu' (Token.isEof_congr hread ▸ he)
      rw [Nat.add_right_comm] at hd
      exact ⟨_, hd⟩
    · cases hi.symm.trans hu
      simp [Token.isEof, hkind] at he
  | anyFail hi =>
    simp only [Task.pending?, Expr.pending?] at ht
    split_ifs at ht with hin
    obtain ⟨u, hu, heof, -⟩ := hinside hin
    cases heof.symm.trans (hi u hu)
  | ruleMatch hf _ ih =>
    simp only [Task.pending?, Expr.pending?] at ht
    split_ifs at ht with hr
    obtain ⟨m, hm⟩ := hg hf hr
    obtain ⟨_, hd'⟩ := ih hm hp (hs.closes _ hp) TokenStream.insideAt_of_false
    rw [Verdict.shift, Tree.shift_tree?]
    exact ⟨_, .ruleMatch hf hd'⟩
  | ruleFail hf _ ih =>
    simp only [Task.pending?, Expr.pending?] at ht
    split_ifs at ht with hr
    obtain ⟨m, hm⟩ := hg hf hr
    obtain ⟨_, hd'⟩ := ih hm hp (hs.closes _ hp) TokenStream.insideAt_of_false
    exact ⟨_, .ruleFail hf hd'⟩
  | ruleMissing hf => exact ⟨_, .ruleMissing hf⟩
  | seq _ ih => exact (ih ht hp hn hinside).imp fun _ => .seq
  | itemsDone => exact ⟨_, .itemsDone⟩
  | itemsStop _ ih =>
    obtain ⟨m, hm, -⟩ := Task.pending?_items ht
    exact (ih hm hp hn hinside).imp fun _ => .itemsStop
  | itemsMatch hd _ ih₁ ih₂ =>
    obtain ⟨m, hm, hasm | hrest⟩ := Task.pending?_items ht
    · cases hd.eq_failed_of_asm hs hasm
    · have hfirst := hd.keeps hg hs hm hp hn hinside
      obtain ⟨_, hd₁⟩ := ih₁ hm hp hn hinside
      obtain ⟨_, hd₂⟩ := ih₂ hrest hfirst.le_eofIndex (hfirst.le_owed hn)
        fun he => hd.inside_of_keepsInside he hp hn
      rw [Verdict.shift, List.map_append]
      exact ⟨_, .itemsMatch hd₁ hd₂⟩
  | itemsFail hd _ ih₁ ih₂ =>
    obtain ⟨m, hm, hasm | hrest⟩ := Task.pending?_items ht
    · cases hd.eq_failed_of_asm hs hasm
    · have hfirst := hd.keeps hg hs hm hp hn hinside
      obtain ⟨_, hd₁⟩ := ih₁ hm hp hn hinside
      obtain ⟨_, hd₂⟩ := ih₂ hrest hfirst.le_eofIndex (hfirst.le_owed hn)
        fun he => hd.inside_of_keepsInside he hp hn
      exact ⟨_, .itemsFail hd₁ hd₂⟩
  | choice _ ih => exact (ih ht hp hn hinside).imp fun _ => .choice
  | alternativesDone => exact ⟨_, .alternativesDone⟩
  | alternativesMatch _ ih =>
    obtain ⟨rfl, ⟨m, hle, hm⟩, -⟩ := Task.pending?_alternatives ht
    exact (ih hm hp hn hinside).imp fun _ => .alternativesMatch
  | alternativesNext _ _ ih₁ ih₂ =>
    obtain ⟨rfl, ⟨m, hle, hm⟩, hrest⟩ := Task.pending?_alternatives ht
    obtain ⟨_, hd₁⟩ := ih₁ hm hp hn hinside
    exact (ih₂ hrest hp hn hinside).elim fun _ hd₂ => ⟨_, .alternativesNext hd₁ hd₂⟩
  | optionMatch _ ih =>
    obtain ⟨rfl, m, hle, hm⟩ := Task.pending?_turns ht
    exact (ih hm hp hn TokenStream.insideAt_of_false).imp fun _ => .optionMatch
  | optionSkip _ ih =>
    obtain ⟨rfl, m, hle, hm⟩ := Task.pending?_turns ht
    exact (ih hm hp hn TokenStream.insideAt_of_false).imp fun _ => .optionSkip
  | star _ ih => exact (ih ht hp hn hinside).imp fun _ => .star
  | plusFail _ ih =>
    obtain ⟨rfl, m, hle, hm⟩ := Task.pending?_turns ht
    exact (ih hm hp hn TokenStream.insideAt_of_false).imp fun _ => .plusFail
  | plusEmpty _ ih =>
    obtain ⟨rfl, m, hle, hm⟩ := Task.pending?_turns ht
    exact (ih hm hp hn TokenStream.insideAt_of_false).imp fun _ => .plusEmpty
  | plusMatch hd hne _ ih₁ ih₂ =>
    obtain ⟨rfl, m, hle, hm⟩ := Task.pending?_turns ht
    have hturns : (Task.turns _).pending? false _ = some _ := ht
    have hfirst := (hd.keeps hg hs hm hp hn TokenStream.insideAt_of_false).weaken hle
    obtain ⟨_, hd₁⟩ := ih₁ hm hp hn TokenStream.insideAt_of_false
    obtain ⟨_, hd₂⟩ := ih₂ hturns hfirst.le_eofIndex (hfirst.le_owed hn) TokenStream.insideAt_of_false
    rw [Verdict.shift, List.map_append]
    exact ⟨_, .plusMatch hd₁ (by omega) hd₂⟩
  | turnsStop _ ih =>
    obtain ⟨rfl, m, hle, hm⟩ := Task.pending?_turns ht
    exact (ih hm hp hn TokenStream.insideAt_of_false).imp fun _ => .turnsStop
  | turnsEmpty _ ih =>
    obtain ⟨rfl, m, hle, hm⟩ := Task.pending?_turns ht
    exact (ih hm hp hn TokenStream.insideAt_of_false).imp fun _ => .turnsEmpty
  | turnsMatch hd hne _ ih₁ ih₂ =>
    obtain ⟨rfl, m, hle, hm⟩ := Task.pending?_turns ht
    have hturns : (Task.turns _).pending? false _ = some _ := ht
    have hfirst := (hd.keeps hg hs hm hp hn TokenStream.insideAt_of_false).weaken hle
    obtain ⟨_, hd₁⟩ := ih₁ hm hp hn TokenStream.insideAt_of_false
    obtain ⟨_, hd₂⟩ := ih₂ hturns hfirst.le_eofIndex (hfirst.le_owed hn) TokenStream.insideAt_of_false
    rw [Verdict.shift, List.map_append]
    exact ⟨_, .turnsMatch hd₁ (by omega) hd₂⟩
  | aheadMatch hd ih =>
    obtain ⟨v', _, hd', hv⟩ := hframe.ahead ht hp hinside hd fun hm => ih hm hp hn
    cases v' with
    | matched => exact ⟨_, .aheadMatch hd'⟩
    | failed => cases hv.1 rfl
  | aheadFail hd ih =>
    obtain ⟨v', _, hd', hv⟩ := hframe.ahead ht hp hinside hd fun hm => ih hm hp hn
    cases hv.2 rfl
    exact ⟨_, .aheadFail hd'⟩
  | notAheadMatch hd ih =>
    obtain ⟨v', _, hd', hv⟩ := hframe.ahead ht hp hinside hd fun hm => ih hm hp hn
    cases v' with
    | matched => exact ⟨_, .notAheadMatch hd'⟩
    | failed => cases hv.1 rfl
  | notAheadFail hd ih =>
    obtain ⟨v', _, hd', hv⟩ := hframe.ahead ht hp hinside hd fun hm => ih hm hp hn
    cases hv.2 rfl
    exact ⟨_, .notAheadFail hd'⟩
  | epsilon => exact ⟨_, .epsilon⟩
  | never => exact ⟨_, .never⟩

theorem Grammar.Gives.framed (hg : g.Steady) (hs : s.Contained) (hframe : s.Framed s' k) {q : Rule}
    (h : g.Gives s q p v) (hq : q.isNested = true) (hp : p ≤ s.eofIndex) :
    g.Gives s' q (p + k) (v.shift k) := by
  have hpending : (Task.expr (.rule q)).pending? false 0 = some 0 := by
    rw [Task.pending?, Expr.pending?, if_pos hq]
  intro r
  obtain ⟨log, hd⟩ := h r
  exact hd.framed hg hs hframe hpending hp (hs.closes p hp) TokenStream.insideAt_of_false

end

end PackratCpp
