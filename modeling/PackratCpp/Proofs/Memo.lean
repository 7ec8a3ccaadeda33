/-
  Why answers may be remembered.

  * `Furthest.noteAll`: the furthest failure after some attempts; `Furthest.Absorbs`: an
    attempt that changes it no more, now or later.
  * `Findings.Remembers`: each answer that is remembered for a rule and a place is the verdict
    that `Derives` has on this rule at this place, and its attempts are absorbed.  So looking
    it up does what working it out again would do.
  * `Runs.derives`: a run that refuses no rule keeps this, comes out as the verdict on its
    task, and takes the attempts of its derivation into account in order.
-/
import PackratCpp.Proofs.Run

namespace PackratCpp

/-! ## The furthest failure -/

namespace Furthest

/-- Takes a failed attempt into account. -/
def note (f : Furthest) (a : Attempt) : Furthest :=
  f.record a.position (some a.rule) a.expectation

/-- Takes some failed attempts into account, in order. -/
def noteAll (f : Furthest) (log : List Attempt) : Furthest :=
  log.foldl note f

/-- An attempt falls short of the furthest failure, or is listed there. -/
def Absorbs (f : Furthest) (a : Attempt) : Prop :=
  f.isNone = false ∧
    (a.position < f.position ∨ a.position = f.position ∧ a.expectation ∈ f.expected)

variable {f : Furthest} {a b : Attempt} {log : List Attempt}

theorem noteAll_append (log log' : List Attempt) :
    f.noteAll (log ++ log') = (f.noteAll log).noteAll log' :=
  List.foldl_append ..

theorem Absorbs.note_eq (h : f.Absorbs a) : f.note a = f := by
  obtain ⟨hn, hp⟩ := h
  have hlt : ¬ f.position < a.position := by omega
  unfold note record
  rw [if_neg (by simp [hlt, hn])]
  rcases hp with hp | ⟨hp, he⟩
  · rw [if_neg (by simp [Nat.ne_of_lt hp])]
  · rw [if_neg (by simp [he])]

theorem Absorbs.position_le (h : f.Absorbs a) : a.position ≤ f.position :=
  h.2.elim Nat.le_of_lt fun h => Nat.le_of_eq h.1

theorem absorbs_note (f : Furthest) (a : Attempt) : (f.note a).Absorbs a := by
  unfold note record Absorbs
  split_ifs with h₁ h₂
  · exact ⟨by simp [isNone], Or.inr ⟨rfl, by simp⟩⟩
  · simp only [Bool.and_eq_true, decide_eq_true_eq] at h₂
    exact ⟨by simp [isNone], Or.inr ⟨h₂.1, by simp⟩⟩
  · simp only [Bool.or_eq_true, decide_eq_true_eq, not_or, Bool.not_eq_true] at h₁
    refine ⟨h₁.2, ?_⟩
    rcases Nat.lt_or_eq_of_le (Nat.not_lt.1 h₁.1) with hp | hp
    · exact Or.inl hp
    · exact Or.inr ⟨hp, by simpa [hp] using h₂⟩

theorem Absorbs.note (h : f.Absorbs a) (b : Attempt) : (f.note b).Absorbs a := by
  obtain ⟨hn, hp⟩ := h
  unfold Furthest.note record Absorbs
  split_ifs with h₁ h₂
  · have hlt : f.position < b.position := by simpa [hn] using h₁
    exact ⟨by simp [isNone], Or.inl (by simp only; omega)⟩
  · exact ⟨by simp [isNone], hp.imp id fun ⟨hp, he⟩ => ⟨hp, Array.mem_push_of_mem _ he⟩⟩
  · exact ⟨hn, hp⟩

theorem Absorbs.noteAll (h : f.Absorbs a) (log : List Attempt) : (f.noteAll log).Absorbs a := by
  induction log generalizing f with
  | nil => exact h
  | cons b log ih => exact ih (h.note b)

theorem absorbs_noteAll (f : Furthest) (h : a ∈ log) : (f.noteAll log).Absorbs a := by
  induction log generalizing f with
  | nil => cases h
  | cons b log ih =>
    rcases List.mem_cons.1 h with rfl | h
    · exact (absorbs_note f a).noteAll log
    · exact ih (f.note b) h

theorem noteAll_eq (h : ∀ a ∈ log, f.Absorbs a) : f.noteAll log = f := by
  induction log with
  | nil => rfl
  | cons b log ih =>
    have hb : f.note b = f := (h b (List.mem_cons_self ..)).note_eq
    show (f.note b).noteAll log = f
    rw [hb, ih fun a ha => h a (List.mem_cons_of_mem _ ha)]

end Furthest

/-! ## Verdicts and outcomes -/

/-- A verdict as the outcome of a run. -/
def Verdict.outcome : Verdict → Outcome
  | .matched stop trees => .matched stop trees
  | .failed => .failed

/-- A remembered answer as a verdict. -/
def Answer.verdict : Answer → Verdict
  | .matched stop tree? => .matched stop tree?.toList
  | .failed => .failed

theorem Answer.outcome_eq (a : Answer) : a.outcome = a.verdict.outcome := by
  cases a <;> rfl

variable {g : Grammar} {tokens : TokenStream}

theorem Derives.around {r q : Rule} {p : Nat} {v : Verdict} {log : List Attempt}
    (h : Derives g tokens r (.expr (.rule q)) p v log) (r' : Rule) :
    Derives g tokens r' (.expr (.rule q)) p v log := by
  cases h with
  | ruleMatch hf h => exact .ruleMatch hf h
  | ruleFail hf h => exact .ruleFail hf h
  | ruleMissing hf => exact .ruleMissing hf

/-! ## Remembered answers -/

/-- Each answer has a derivation, whose attempts are absorbed by the furthest failure. -/
def Findings.Remembers (g : Grammar) (tokens : TokenStream) (st : Findings) : Prop :=
  ∀ q p answer, st.answer? q p = some answer →
    ∃ log, Derives g tokens q (.expr (.rule q)) p answer.verdict log ∧
      ∀ a ∈ log, st.furthest.Absorbs a

namespace Findings

theorem remembers_initial (g : Grammar) (tokens : TokenStream) : initial.Remembers g tokens := by
  intro q p answer h
  simp at h

variable {st : Findings}

theorem Remembers.sound (h : st.Remembers g tokens) : st.Sound g tokens := by
  intro q p stop tree? ha
  obtain ⟨log, hd, -⟩ := h q p _ ha
  exact hd.yields

theorem Remembers.expect (h : st.Remembers g tokens) (p : Nat) (r : Rule) (e : Expectation) :
    (st.expect p (some r) e).Remembers g tokens := by
  intro q i answer hq
  obtain ⟨log, hd, ha⟩ := h q i answer hq
  exact ⟨log, hd, fun a hm => (ha a hm).note ⟨p, e, r⟩⟩

theorem Remembers.remember (h : st.Remembers g tokens) {q : Rule} {p : Nat} {answer : Answer}
    {log : List Attempt} (hd : Derives g tokens q (.expr (.rule q)) p answer.verdict log)
    (ha : ∀ a ∈ log, st.furthest.Absorbs a) : (st.remember q p answer).Remembers g tokens := by
  intro q' p' answer' hq
  rw [answer?_remember] at hq
  split_ifs at hq with hqp
  · obtain ⟨rfl, rfl⟩ := hqp
    cases hq
    exact ⟨log, hd, ha⟩
  · exact h q' p' answer' hq

end Findings

/-! ## Runs that refuse nothing -/

namespace Runs

variable {s : Setup} {room : Nat} {r : Rule} {t : Task} {p : Nat} {st st' : Findings}
  {o : Outcome}

theorem refusals_le (h : Runs s room r t p st o st') : st.refusals ≤ st'.refusals := by
  induction h with
  | refused => exact Nat.le_succ _
  | itemsNext _ _ ih₁ ih₂ | alternativesNext _ _ ih₁ ih₂ | plusNext _ _ _ ih₁ ih₂
  | turnsNext _ _ _ ih₁ ih₂ => exact Nat.le_trans ih₁ ih₂
  | ruleMatch _ _ _ ih | ruleFail _ _ _ ih | ruleAbort _ _ _ ih | seq _ ih | itemsStop _ _ ih
  | choice _ ih | alternativesTake _ _ ih | option _ ih | star _ ih | plusStop _ _ ih
  | plusEmpty _ ih | turnsStop _ _ ih | turnsEmpty _ ih | followedBy _ ih | notFollowedBy _ ih =>
    exact ih
  | _ => exact Nat.le_refl _

/-- **A run that refuses no rule comes out as the verdict on its task.**  The induction is on
the run; what carries it is that every answer has a derivation whose attempts are absorbed,
so that a remembered answer stands for its derivation and changes nothing else. -/
theorem derives (h : Runs s room r t p st o st') (hst : st.Remembers s.grammar s.tokens)
    (hrun : st'.refusals = st.refusals) :
    st'.Remembers s.grammar s.tokens ∧ ∃ v log, o = v.outcome ∧
      Derives s.grammar s.tokens r t p v log ∧ st'.furthest = st.furthest.noteAll log := by
  induction h with
  | tokenPass ht ha => exact ⟨hst, _, _, rfl, .tokenPass ht ha, rfl⟩
  | tokenFail ht ha => exact ⟨hst.expect _ _ _, _, _, rfl, .tokenFail ht ha, rfl⟩
  | tokenBeyond ht => exact ⟨hst, .failed, _, rfl, .tokenBeyond ht, rfl⟩
  | anyPass ht he => exact ⟨hst, _, _, rfl, .anyPass ht he, rfl⟩
  | anyFail ht => exact ⟨hst.expect _ _ _, _, _, rfl, .anyFail ht, rfl⟩
  | @hit _ r _ _ _ answer hq =>
    obtain ⟨log, hd, ha⟩ := hst _ _ _ hq
    exact ⟨hst, _, log, answer.outcome_eq, hd.around r, (Furthest.noteAll_eq ha).symm⟩
  | refused => exact absurd hrun (Nat.succ_ne_self _)
  | missing _ hf => exact ⟨hst, _, _, rfl, .ruleMissing hf, rfl⟩
  | ruleMatch _ hf _ ih =>
    obtain ⟨hst', v, log, hv, hd, hfur⟩ := ih hst hrun
    cases v <;> cases hv
    refine ⟨hst'.remember (.ruleMatch hf hd) fun a ha => ?_, _, log, rfl, .ruleMatch hf hd, hfur⟩
    rw [hfur]
    exact Furthest.absorbs_noteAll _ ha
  | ruleFail _ hf _ ih =>
    obtain ⟨hst', v, log, hv, hd, hfur⟩ := ih hst hrun
    cases v <;> cases hv
    refine ⟨hst'.remember (.ruleFail hf hd) fun a ha => ?_, _, log, rfl, .ruleFail hf hd, hfur⟩
    rw [hfur]
    exact Furthest.absorbs_noteAll _ ha
  | ruleAbort _ _ _ ih =>
    obtain ⟨-, v, -, hv, -⟩ := ih hst hrun
    cases v <;> cases hv
  | seq _ ih =>
    obtain ⟨hst', v, log, hv, hd, hfur⟩ := ih hst hrun
    exact ⟨hst', v, log, hv, .seq hd, hfur⟩
  | itemsDone => exact ⟨hst, _, _, rfl, .itemsDone, rfl⟩
  | itemsStop _ hm ih =>
    obtain ⟨hst', v, log, rfl, hd, hfur⟩ := ih hst hrun
    cases v with
    | matched => cases hm
    | failed => exact ⟨hst', _, log, rfl, .itemsStop hd, hfur⟩
  | itemsNext h₁ h₂ ih₁ ih₂ =>
    have h₁le := h₁.refusals_le
    have h₂le := h₂.refusals_le
    obtain ⟨hst₁, v, log, hv, hd, hfur⟩ := ih₁ hst (by omega)
    obtain ⟨hst₂, w, log', rfl, hd', hfur'⟩ := ih₂ hst₁ (by omega)
    cases v <;> cases hv
    rw [hfur, ← Furthest.noteAll_append] at hfur'
    cases w with
    | matched => exact ⟨hst₂, _, _, rfl, .itemsMatch hd hd', hfur'⟩
    | failed => exact ⟨hst₂, _, _, rfl, .itemsFail hd hd', hfur'⟩
  | choice _ ih =>
    obtain ⟨hst', v, log, hv, hd, hfur⟩ := ih hst hrun
    exact ⟨hst', v, log, hv, .choice hd, hfur⟩
  | alternativesDone => exact ⟨hst, _, _, rfl, .alternativesDone, rfl⟩
  | alternativesTake _ hm ih =>
    obtain ⟨hst', v, log, rfl, hd, hfur⟩ := ih hst hrun
    cases v with
    | matched => exact ⟨hst', _, log, rfl, .alternativesMatch hd, hfur⟩
    | failed => exact absurd rfl hm
  | alternativesNext h₁ h₂ ih₁ ih₂ =>
    have h₁le := h₁.refusals_le
    have h₂le := h₂.refusals_le
    obtain ⟨hst₁, v, log, hv, hd, hfur⟩ := ih₁ hst (by omega)
    obtain ⟨hst₂, w, log', hw, hd', hfur'⟩ := ih₂ hst₁ (by omega)
    cases v <;> cases hv
    rw [hfur, ← Furthest.noteAll_append] at hfur'
    exact ⟨hst₂, w, _, hw, .alternativesNext hd hd', hfur'⟩
  | option _ ih =>
    obtain ⟨hst', v, log, rfl, hd, hfur⟩ := ih hst hrun
    cases v with
    | matched => exact ⟨hst', _, log, rfl, .optionMatch hd, hfur⟩
    | failed => exact ⟨hst', .matched _ [], log, rfl, .optionSkip hd, hfur⟩
  | star _ ih =>
    obtain ⟨hst', v, log, hv, hd, hfur⟩ := ih hst hrun
    exact ⟨hst', v, log, hv, .star hd, hfur⟩
  | plusStop _ hm ih =>
    obtain ⟨hst', v, log, rfl, hd, hfur⟩ := ih hst hrun
    cases v with
    | matched => cases hm
    | failed => exact ⟨hst', _, log, rfl, .plusFail hd, hfur⟩
  | plusEmpty _ ih =>
    obtain ⟨hst', v, log, hv, hd, hfur⟩ := ih hst hrun
    cases v <;> cases hv
    exact ⟨hst', _, log, rfl, .plusEmpty hd, hfur⟩
  | plusNext h₁ hq h₂ ih₁ ih₂ =>
    have h₁le := h₁.refusals_le
    have h₂le := h₂.refusals_le
    obtain ⟨hst₁, v, log, hv, hd, hfur⟩ := ih₁ hst (by omega)
    obtain ⟨hst₂, w, log', rfl, hd', hfur'⟩ := ih₂ hst₁ (by omega)
    cases v <;> cases hv
    rw [hfur, ← Furthest.noteAll_append] at hfur'
    cases w with
    | matched => exact ⟨hst₂, _, _, rfl, .plusMatch hd hq hd', hfur'⟩
    | failed => cases hd'
  | turnsStop _ hm ih =>
    obtain ⟨hst', v, log, rfl, hd, hfur⟩ := ih hst hrun
    cases v with
    | matched => cases hm
    | failed => exact ⟨hst', .matched _ [], log, rfl, .turnsStop hd, hfur⟩
  | turnsEmpty _ ih =>
    obtain ⟨hst', v, log, hv, hd, hfur⟩ := ih hst hrun
    cases v <;> cases hv
    exact ⟨hst', _, log, rfl, .turnsEmpty hd, hfur⟩
  | turnsNext h₁ hq h₂ ih₁ ih₂ =>
    have h₁le := h₁.refusals_le
    have h₂le := h₂.refusals_le
    obtain ⟨hst₁, v, log, hv, hd, hfur⟩ := ih₁ hst (by omega)
    obtain ⟨hst₂, w, log', rfl, hd', hfur'⟩ := ih₂ hst₁ (by omega)
    cases v <;> cases hv
    rw [hfur, ← Furthest.noteAll_append] at hfur'
    cases w with
    | matched => exact ⟨hst₂, _, _, rfl, .turnsMatch hd hq hd', hfur'⟩
    | failed => cases hd'
  | followedBy _ ih =>
    obtain ⟨hst', v, log, rfl, hd, hfur⟩ := ih hst hrun
    cases v with
    | matched => exact ⟨hst', .matched _ [], log, rfl, .aheadMatch hd, hfur⟩
    | failed => exact ⟨hst', _, log, rfl, .aheadFail hd, hfur⟩
  | notFollowedBy _ ih =>
    obtain ⟨hst', v, log, rfl, hd, hfur⟩ := ih hst hrun
    cases v with
    | matched => exact ⟨hst', .failed, log, rfl, .notAheadMatch hd, hfur⟩
    | failed => exact ⟨hst', .matched _ [], log, rfl, .notAheadFail hd, hfur⟩
  | epsilon => exact ⟨hst, _, _, rfl, .epsilon, rfl⟩
  | never => exact ⟨hst, .failed, _, rfl, .never, rfl⟩

end Runs

end PackratCpp
