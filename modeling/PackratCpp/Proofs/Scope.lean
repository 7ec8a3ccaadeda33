/-
  Rules that keep to themselves.

  * `Expr.within`, `Grammar.Closed`: an expression mentions no rule but some; neither do the
    bodies of these rules.
  * `Runs.answer?_outside`: a run within such rules leaves the answers of all others alone;
    `Runs.answer?_elsewhere`: a rule above them is remembered in its own place only.
  * `Yields.rulesWithin`: no other rule has a node in its trees.
  * `Derives.of_agree`: grammars that agree on such rules give the same verdicts.
  * `Expr.sparesEof`, `Yields.le_eofIndex`: an expression that never takes the end of input
    stops before it.  `Expr.callsEarly`: an expression gets to no rule behind it.
-/
import PackratCpp.Proofs.Memo

namespace PackratCpp

/-! ## Closed sets of rules -/

namespace Expr

theorem check_of_mem {check : Expr → Bool} {checkAll : List Expr → Bool}
    (hcons : ∀ e es, checkAll (e :: es) = (check e && checkAll es)) {e : Expr} {es : List Expr}
    (h : checkAll es = true) (hm : e ∈ es) : check e = true := by
  induction es with
  | nil => cases hm
  | cons d es ih =>
    rw [hcons, Bool.and_eq_true] at h
    rcases List.mem_cons.1 hm with rfl | hm
    · exact h.1
    · exact ih h.2 hm

mutual

/-- Whether an expression mentions no rule but those that are `inside`. -/
def within (inside : Rule → Bool) : Expr → Bool
  | .rule r => inside r
  | .seq items => allWithin inside items
  | .choice alternatives => allWithin inside alternatives
  | .option body | .star body | .plus body | .followedBy body | .notFollowedBy body =>
    within inside body
  | .token _ | .anyToken | .epsilon | .never => true

/-- Whether none of some expressions mentions another rule. -/
def allWithin (inside : Rule → Bool) : List Expr → Bool
  | [] => true
  | e :: es => within inside e && allWithin inside es

end

variable {inside : Rule → Bool}

theorem within_of_mem {e : Expr} {es : List Expr} (h : allWithin inside es = true) (hm : e ∈ es) :
    e.within inside = true :=
  check_of_mem (fun _ _ => by rw [allWithin]) h hm

end Expr

/-- Whether a task mentions no rule but those that are `inside`. -/
def Task.within (inside : Rule → Bool) : Task → Bool
  | .expr e | .turns e => e.within inside
  | .items es | .alternatives es => Expr.allWithin inside es

/-- The bodies of some rules mention no other rule. -/
def Grammar.Closed (g : Grammar) (inside : Rule → Bool) : Prop :=
  ∀ r production, inside r = true → g.find? r = some production →
    production.body.within inside = true

variable {g : Grammar} {tokens : TokenStream} {inside : Rule → Bool}

namespace Task

theorem within_items {e : Expr} {es : List Expr} :
    (Task.items (e :: es)).within inside = true ↔
      (Task.expr e).within inside = true ∧ (Task.items es).within inside = true :=
  Bool.and_eq_true_iff

theorem within_alternatives {e : Expr} {es : List Expr} :
    (Task.alternatives (e :: es)).within inside = true ↔
      (Task.expr e).within inside = true ∧ (Task.alternatives es).within inside = true :=
  Bool.and_eq_true_iff

end Task

/-- **A run within closed rules leaves the answers of all others alone.** -/
theorem Runs.answer?_outside {s : Setup} {room : Nat} {r : Rule} {t : Task} {p : Nat}
    {st st' : Findings} {o : Outcome} (h : Runs s room r t p st o st')
    (hclosed : s.grammar.Closed inside) (ht : t.within inside = true) {q : Rule}
    (hq : inside q = false) (i : Nat) : st'.answer? q i = st.answer? q i := by
  induction h with
  | ruleMatch _ hf _ ih | ruleFail _ hf _ ih =>
    rw [Findings.answer?_remember, if_neg, ih (hclosed _ _ ht hf), Findings.answer?_enter]
    rintro ⟨rfl, -⟩
    cases hq.symm.trans ht
  | ruleAbort _ hf _ ih => rw [ih (hclosed _ _ ht hf), Findings.answer?_enter]
  | seq _ ih | choice _ ih | option _ ih | star _ ih | plusStop _ _ ih | plusEmpty _ ih
  | turnsStop _ _ ih | turnsEmpty _ ih | followedBy _ ih | notFollowedBy _ ih => exact ih ht
  | itemsStop _ _ ih => exact ih (Task.within_items.1 ht).1
  | alternativesTake _ _ ih => exact ih (Task.within_alternatives.1 ht).1
  | itemsNext _ _ ih₁ ih₂ =>
    rw [ih₂ (Task.within_items.1 ht).2, ih₁ (Task.within_items.1 ht).1]
  | alternativesNext _ _ ih₁ ih₂ =>
    rw [ih₂ (Task.within_alternatives.1 ht).2, ih₁ (Task.within_alternatives.1 ht).1]
  | plusNext _ _ _ ih₁ ih₂ | turnsNext _ _ _ ih₁ ih₂ => rw [ih₂ ht, ih₁ ht]
  | _ => rfl

theorem Runs.answer?_elsewhere {s : Setup} {room : Nat} {r q : Rule} {p : Nat}
    {st st' : Findings} {o : Outcome} (h : Runs s room r (.expr (.rule q)) p st o st')
    (hclosed : s.grammar.Closed inside) (hq : inside q = false)
    (hbody : ∀ production, s.grammar.find? q = some production →
      production.body.within inside = true) {i : Nat} (hi : i ≠ p) :
    st'.answer? q i = st.answer? q i := by
  cases h with
  | hit | refused | missing => rfl
  | ruleMatch _ hf hrun | ruleFail _ hf hrun =>
    rw [Findings.answer?_remember, if_neg fun h => hi h.2,
      hrun.answer?_outside hclosed (hbody _ hf) hq, Findings.answer?_enter]
  | ruleAbort _ hf hrun =>
    rw [hrun.answer?_outside hclosed (hbody _ hf) hq, Findings.answer?_enter]

/-! ## Nodes -/

namespace Tree

theorem preorderAll_append (ts us : List Tree) :
    preorderAll (ts ++ us) = preorderAll ts ++ preorderAll us := by
  induction ts with
  | nil => rfl
  | cons t ts ih => simp only [List.cons_append, preorderAll, ih, List.append_assoc]

/-- Every node in some trees belongs to a rule that is `inside`. -/
def RulesWithin (inside : Rule → Bool) (ts : List Tree) : Prop :=
  ∀ t ∈ preorderAll ts, ∀ r, t.rule? = some r → inside r = true

theorem RulesWithin.append {ts us : List Tree} (h : RulesWithin inside ts)
    (h' : RulesWithin inside us) : RulesWithin inside (ts ++ us) := by
  intro t ht
  rw [preorderAll_append, List.mem_append] at ht
  exact ht.elim (h t) (h' t)

theorem rulesWithin_leaf (i : Nat) : RulesWithin inside [.leaf i] := by
  intro t ht r hr
  simp only [preorderAll, preorder, List.append_nil, List.mem_singleton] at ht
  subst ht
  cases hr

theorem rulesWithin_leaves (is : List Nat) : RulesWithin inside (is.map .leaf) := by
  induction is with
  | nil => intro t ht; cases ht
  | cons i is ih => exact (rulesWithin_leaf i).append ih

theorem RulesWithin.tree? {ts : List Tree} (h : RulesWithin inside ts) {r : Rule}
    (hr : inside r = true) (production : Production) (p stop : Nat) :
    RulesWithin inside (production.tree? r p stop ts).toList := by
  have hnode : RulesWithin inside [.node r p stop ts] := by
    intro t ht q hq
    simp only [preorderAll, preorder, List.append_nil, List.mem_cons] at ht
    rcases ht with rfl | ht
    · cases hq; exact hr
    · exact h t ht q hq
  unfold Production.tree? Production.node
  split_ifs
  · intro t ht
    cases ht
  · split
    · exact h
    · exact hnode

end Tree

/-- **Only closed rules have nodes in what they span.** -/
theorem Yields.rulesWithin {t : Task} {p stop : Nat} {trees : List Tree}
    (h : Yields g tokens t p stop trees) (hclosed : g.Closed inside)
    (ht : t.within inside = true) : Tree.RulesWithin inside trees := by
  induction h with
  | token | anyToken => exact Tree.rulesWithin_leaf _
  | rule hf _ ih => exact (ih (hclosed _ _ ht hf)).tree? ht _ _ _
  | seq _ ih | choice _ ih | option _ ih | star _ ih => exact ih ht
  | alternatives hm _ ih => exact ih (Expr.within_of_mem ht hm)
  | itemsNext _ _ ih₁ ih₂ =>
    exact (ih₁ (Task.within_items.1 ht).1).append (ih₂ (Task.within_items.1 ht).2)
  | plus _ _ ih₁ ih₂ | turnsNext _ _ ih₁ ih₂ => exact (ih₁ ht).append (ih₂ ht)
  | _ => intro t ht; cases ht

/-! ## Grammars that agree -/

/-- **Grammars that agree on closed rules give the same verdicts**, after the same attempts. -/
theorem Derives.of_agree {g' : Grammar} {r : Rule} {t : Task} {p : Nat} {v : Verdict}
    {log : List Attempt} (h : Derives g tokens r t p v log) (hclosed : g.Closed inside)
    (hagree : ∀ r, inside r = true → g'.find? r = g.find? r) (ht : t.within inside = true) :
    Derives g' tokens r t p v log := by
  induction h with
  | tokenPass hi ha => exact .tokenPass hi ha
  | tokenFail hi ha => exact .tokenFail hi ha
  | tokenBeyond hi => exact .tokenBeyond hi
  | anyPass hi he => exact .anyPass hi he
  | anyFail hi => exact .anyFail hi
  | ruleMatch hf _ ih => exact .ruleMatch ((hagree _ ht).trans hf) (ih (hclosed _ _ ht hf))
  | ruleFail hf _ ih => exact .ruleFail ((hagree _ ht).trans hf) (ih (hclosed _ _ ht hf))
  | ruleMissing hf => exact .ruleMissing ((hagree _ ht).trans hf)
  | seq _ ih => exact .seq (ih ht)
  | itemsDone => exact .itemsDone
  | itemsStop _ ih => exact .itemsStop (ih (Task.within_items.1 ht).1)
  | itemsMatch _ _ ih₁ ih₂ =>
    exact .itemsMatch (ih₁ (Task.within_items.1 ht).1) (ih₂ (Task.within_items.1 ht).2)
  | itemsFail _ _ ih₁ ih₂ =>
    exact .itemsFail (ih₁ (Task.within_items.1 ht).1) (ih₂ (Task.within_items.1 ht).2)
  | choice _ ih => exact .choice (ih ht)
  | alternativesDone => exact .alternativesDone
  | alternativesMatch _ ih => exact .alternativesMatch (ih (Task.within_alternatives.1 ht).1)
  | alternativesNext _ _ ih₁ ih₂ =>
    exact .alternativesNext (ih₁ (Task.within_alternatives.1 ht).1)
      (ih₂ (Task.within_alternatives.1 ht).2)
  | optionMatch _ ih => exact .optionMatch (ih ht)
  | optionSkip _ ih => exact .optionSkip (ih ht)
  | star _ ih => exact .star (ih ht)
  | plusFail _ ih => exact .plusFail (ih ht)
  | plusEmpty _ ih => exact .plusEmpty (ih ht)
  | plusMatch _ hq _ ih₁ ih₂ => exact .plusMatch (ih₁ ht) hq (ih₂ ht)
  | turnsStop _ ih => exact .turnsStop (ih ht)
  | turnsEmpty _ ih => exact .turnsEmpty (ih ht)
  | turnsMatch _ hq _ ih₁ ih₂ => exact .turnsMatch (ih₁ ht) hq (ih₂ ht)
  | aheadMatch _ ih => exact .aheadMatch (ih ht)
  | aheadFail _ ih => exact .aheadFail (ih ht)
  | notAheadMatch _ ih => exact .notAheadMatch (ih ht)
  | notAheadFail _ ih => exact .notAheadFail (ih ht)
  | epsilon => exact .epsilon
  | never => exact .never

/-! ## The end of input -/

namespace Expr

mutual

/-- Whether no part of an expression takes the end of input.  Lookaheads take nothing. -/
def sparesEof : Expr → Bool
  | .token test => test ≠ .kind .eof
  | .seq items => allSpareEof items
  | .choice alternatives => allSpareEof alternatives
  | .option body | .star body | .plus body => sparesEof body
  | .rule _ | .anyToken | .followedBy _ | .notFollowedBy _ | .epsilon | .never => true

/-- Whether none of some expressions takes the end of input. -/
def allSpareEof : List Expr → Bool
  | [] => true
  | e :: es => sparesEof e && allSpareEof es

end

mutual

/-- Whether no rule comes behind something that may take the end of input. -/
def callsEarly : Expr → Bool
  | .seq items => callEarlyInTurn items
  | .choice alternatives => callEarly alternatives
  | .option body | .followedBy body | .notFollowedBy body => callsEarly body
  | .star body | .plus body =>
    callsEarly body && (sparesEof body || within (fun _ => false) body)
  | .token _ | .anyToken | .rule _ | .epsilon | .never => true

/-- The same for a sequence. -/
def callEarlyInTurn : List Expr → Bool
  | [] => true
  | e :: es => callsEarly e && (sparesEof e || allWithin (fun _ => false) es) &&
      callEarlyInTurn es

/-- The same for each of some expressions. -/
def callEarly : List Expr → Bool
  | [] => true
  | e :: es => callsEarly e && callEarly es

end

theorem sparesEof_of_mem {e : Expr} {es : List Expr} (h : allSpareEof es = true) (hm : e ∈ es) :
    e.sparesEof = true :=
  check_of_mem (fun _ _ => by rw [allSpareEof]) h hm

end Expr

theorem Terminal.accepts_eof (t : Token) : (Terminal.kind .eof).accepts t = t.isEof := rfl

theorem Terminal.isEof_eq_false {test : Terminal} {t : Token} (h : test.accepts t = true)
    (htest : test ≠ .kind .eof) : t.isEof = false := by
  cases test with
  | text s => simp only [accepts, Bool.and_eq_true, Bool.not_eq_true'] at h; exact h.1
  | keyword w =>
    simp only [accepts, Bool.and_eq_true, beq_iff_eq] at h
    simp [Token.isEof, h.1]
  | kind k =>
    simp only [accepts, beq_iff_eq] at h
    simpa [Token.isEof, h] using fun hk => htest (by rw [hk])

/-- Whether a task never takes the end of input. -/
def Task.sparesEof : Task → Bool
  | .expr e | .turns e => e.sparesEof
  | .items es | .alternatives es => Expr.allSpareEof es

/-- The bodies of some rules never take the end of input. -/
def Grammar.SparesEof (g : Grammar) (inside : Rule → Bool) : Prop :=
  ∀ r production, inside r = true → g.find? r = some production →
    production.body.sparesEof = true

/-- **What never takes the end of input stops before it.** -/
theorem Yields.le_eofIndex {t : Task} {p stop : Nat} {trees : List Tree}
    (h : Yields g tokens t p stop trees) (hclosed : g.Closed inside) (hspares : g.SparesEof inside)
    (ht : t.within inside = true) (hs : t.sparesEof = true) (hp : p ≤ tokens.eofIndex) :
    stop ≤ tokens.eofIndex := by
  induction h with
  | token hi ha =>
    have htest := of_decide_eq_true hs
    exact TokenStream.lt_eofIndex hi (Terminal.isEof_eq_false ha htest)
  | anyToken hi he => exact TokenStream.lt_eofIndex hi he
  | rule hf _ ih => exact ih (hclosed _ _ ht hf) (hspares _ _ ht hf) hp
  | seq _ ih | choice _ ih | option _ ih | star _ ih => exact ih ht hs hp
  | alternatives hm _ ih => exact ih (Expr.within_of_mem ht hm) (Expr.sparesEof_of_mem hs hm) hp
  | itemsNext _ _ ih₁ ih₂ =>
    obtain ⟨ht₁, ht₂⟩ := Task.within_items.1 ht
    obtain ⟨hs₁, hs₂⟩ := Bool.and_eq_true_iff.1 hs
    exact ih₂ ht₂ hs₂ (ih₁ ht₁ hs₁ hp)
  | plus _ _ ih₁ ih₂ | turnsNext _ _ ih₁ ih₂ => exact ih₂ ht hs (ih₁ ht hs hp)
  | _ => exact hp

end PackratCpp
