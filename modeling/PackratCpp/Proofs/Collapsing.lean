/-
  Rules that give way to an only child.

  * `Runs.unique`: a run is settled by where it starts.
  * `Grammar.uncollapsed`: a grammar in which every rule that matches something has a node.
  * `Tree.collapsed`: a tree in which, from the leaves up, each node of a rule that gives way is
    replaced by its child if it has just one.
  * `Runs.collapsed`: a run of the one grammar is a run of the other, with the trees collapsed.
  * `Grammar.parse_uncollapsed`: so parses succeed and fail alike, at the same cost, and the trees
    differ by collapsing only.
-/
import PackratCpp.Proofs.Visits

namespace PackratCpp

/-! ## One run -/

namespace Runs

variable {s : Setup} {room : Nat} {r : Rule} {t : Task} {p : Nat} {st st₁ st₂ : Findings}
  {o₁ o₂ : Outcome}

/-- **A run is settled by where it starts**: what it comes to, and what it finds out. -/
theorem unique (h : Runs s room r t p st o₁ st₁) (h' : Runs s room r t p st o₂ st₂) :
    o₁ = o₂ ∧ st₁ = st₂ := by
  induction h generalizing o₂ st₂ with
  | tokenPass ht ha => cases h' <;> simp_all
  | tokenFail ht ha => cases h' <;> simp_all
  | tokenBeyond ht => cases h' <;> simp_all
  | anyPass ht he => cases h' <;> simp_all
  | anyFail ht => cases h' <;> simp_all
  | hit ha =>
    cases h' with
    | hit ha' => rw [ha] at ha'; cases ha'; exact ⟨rfl, rfl⟩
    | refused hn | missing hn | ruleMatch hn | ruleFail hn | ruleAbort hn =>
      rw [ha] at hn
      cases hn
  | refused hn =>
    cases h' with
    | hit ha => rw [ha] at hn; cases hn
    | refused => exact ⟨rfl, rfl⟩
  | missing hn hf =>
    cases h' with
    | hit ha => rw [ha] at hn; cases hn
    | missing => exact ⟨rfl, rfl⟩
    | ruleMatch _ hf' | ruleFail _ hf' | ruleAbort _ hf' => rw [hf] at hf'; cases hf'
  | ruleMatch hn hf _ ih =>
    cases h' with
    | hit ha => rw [ha] at hn; cases hn
    | missing _ hf' => rw [hf] at hf'; cases hf'
    | ruleMatch _ hf' h =>
      cases hf.symm.trans hf'
      obtain ⟨ho, rfl⟩ := ih h
      cases ho
      exact ⟨rfl, rfl⟩
    | ruleFail _ hf' h | ruleAbort _ hf' h =>
      cases hf.symm.trans hf'
      cases (ih h).1
  | ruleFail hn hf _ ih =>
    cases h' with
    | hit ha => rw [ha] at hn; cases hn
    | missing _ hf' => rw [hf] at hf'; cases hf'
    | ruleFail _ hf' h =>
      cases hf.symm.trans hf'
      obtain ⟨-, rfl⟩ := ih h
      exact ⟨rfl, rfl⟩
    | ruleMatch _ hf' h | ruleAbort _ hf' h =>
      cases hf.symm.trans hf'
      cases (ih h).1
  | ruleAbort hn hf _ ih =>
    cases h' with
    | hit ha => rw [ha] at hn; cases hn
    | missing _ hf' => rw [hf] at hf'; cases hf'
    | ruleAbort _ hf' h =>
      cases hf.symm.trans hf'
      exact ih h
    | ruleMatch _ hf' h | ruleFail _ hf' h =>
      cases hf.symm.trans hf'
      cases (ih h).1
  | seq _ ih => cases h' with | seq h => exact ih h
  | itemsDone => cases h'; exact ⟨rfl, rfl⟩
  | itemsStop _ hm ih =>
    cases h' with
    | itemsStop h _ => exact ih h
    | itemsNext h _ => rw [(ih h).1] at hm; cases hm
  | itemsNext _ _ ih₁ ih₂ =>
    cases h' with
    | itemsStop h hm => rw [← (ih₁ h).1] at hm; cases hm
    | itemsNext h k =>
      obtain ⟨ho, rfl⟩ := ih₁ h
      cases ho
      obtain ⟨rfl, rfl⟩ := ih₂ k
      exact ⟨rfl, rfl⟩
  | choice _ ih => cases h' with | choice h => exact ih h
  | alternativesDone => cases h'; exact ⟨rfl, rfl⟩
  | alternativesTake _ hne ih =>
    cases h' with
    | alternativesTake h _ => exact ih h
    | alternativesNext h _ => exact absurd (ih h).1 hne
  | alternativesNext _ _ ih₁ ih₂ =>
    cases h' with
    | alternativesTake h hne => exact absurd (ih₁ h).1.symm hne
    | alternativesNext h k =>
      obtain ⟨-, rfl⟩ := ih₁ h
      exact ih₂ k
  | option _ ih =>
    cases h' with
    | option h =>
      obtain ⟨rfl, rfl⟩ := ih h
      exact ⟨rfl, rfl⟩
  | star _ ih => cases h' with | star h => exact ih h
  | plusStop _ hm ih =>
    cases h' with
    | plusStop h _ => exact ih h
    | plusEmpty h | plusNext h => rw [(ih h).1] at hm; cases hm
  | plusEmpty _ ih =>
    cases h' with
    | plusStop h hm => rw [← (ih h).1] at hm; cases hm
    | plusEmpty h => exact ⟨rfl, (ih h).2⟩
    | plusNext h hq => cases (ih h).1; exact absurd rfl hq
  | plusNext _ hq _ ih₁ ih₂ =>
    cases h' with
    | plusStop h hm => rw [← (ih₁ h).1] at hm; cases hm
    | plusEmpty h => cases (ih₁ h).1; exact absurd rfl hq
    | plusNext h _ k =>
      obtain ⟨ho, rfl⟩ := ih₁ h
      cases ho
      obtain ⟨rfl, rfl⟩ := ih₂ k
      exact ⟨rfl, rfl⟩
  | turnsStop _ hm ih =>
    cases h' with
    | turnsStop h _ =>
      obtain ⟨rfl, rfl⟩ := ih h
      exact ⟨rfl, rfl⟩
    | turnsEmpty h | turnsNext h => rw [(ih h).1] at hm; cases hm
  | turnsEmpty _ ih =>
    cases h' with
    | turnsStop h hm => rw [← (ih h).1] at hm; cases hm
    | turnsEmpty h => exact ⟨rfl, (ih h).2⟩
    | turnsNext h hq => cases (ih h).1; exact absurd rfl hq
  | turnsNext _ hq _ ih₁ ih₂ =>
    cases h' with
    | turnsStop h hm => rw [← (ih₁ h).1] at hm; cases hm
    | turnsEmpty h => cases (ih₁ h).1; exact absurd rfl hq
    | turnsNext h _ k =>
      obtain ⟨ho, rfl⟩ := ih₁ h
      cases ho
      obtain ⟨rfl, rfl⟩ := ih₂ k
      exact ⟨rfl, rfl⟩
  | followedBy _ ih =>
    cases h' with
    | followedBy h =>
      obtain ⟨rfl, rfl⟩ := ih h
      exact ⟨rfl, rfl⟩
  | notFollowedBy _ ih =>
    cases h' with
    | notFollowedBy h =>
      obtain ⟨rfl, rfl⟩ := ih h
      exact ⟨rfl, rfl⟩
  | epsilon => cases h'; exact ⟨rfl, rfl⟩
  | never => cases h'; exact ⟨rfl, rfl⟩

end Runs

/-! ## Collapsing -/

/-- Whether a rule gives way to an only child. -/
def Grammar.collapses (g : Grammar) (rule : Rule) : Bool :=
  (g.find? rule).any (·.collapse)

/-- The grammar in which no rule gives way to an only child. -/
def Grammar.uncollapsed (g : Grammar) : Grammar :=
  g.mapProductions fun p => { p with collapse := false }

theorem Grammar.find?_uncollapsed (g : Grammar) (rule : Rule) :
    g.uncollapsed.find? rule = (g.find? rule).map fun p => { p with collapse := false } :=
  g.find?_mapProductions _ rule

namespace Tree

mutual

/-- The tree in which, from the leaves up, each node of a rule that gives way is replaced by its
child if it has just one. -/
def collapsed (gives : Rule → Bool) : Tree → Tree
  | .leaf i => .leaf i
  | .node r s e cs =>
    match gives r, collapsedAll gives cs with
    | true, [t] => t
    | _, ts => .node r s e ts

/-- Some trees, each of them collapsed. -/
def collapsedAll (gives : Rule → Bool) : List Tree → List Tree
  | [] => []
  | t :: ts => collapsed gives t :: collapsedAll gives ts

end

variable {gives : Rule → Bool}

theorem collapsedAll_eq_map (ts : List Tree) : collapsedAll gives ts = ts.map (collapsed gives) := by
  induction ts with
  | nil => rfl
  | cons t ts ih => rw [collapsedAll, ih, List.map_cons]

end Tree

theorem Production.collapsed_node (p : Production) {gives : Rule → Bool} {rule : Rule}
    (hgives : gives rule = p.collapse) (start stop : Nat) (trees : List Tree) :
    (Tree.node rule start stop trees).collapsed gives =
      p.node rule start stop (trees.map (Tree.collapsed gives)) := by
  rw [Tree.collapsed, Tree.collapsedAll_eq_map, hgives]
  unfold node
  generalize trees.map (Tree.collapsed gives) = ts
  cases p.collapse with
  | false => rfl
  | true =>
    match ts with
    | [] | [_] | _ :: _ :: _ => rfl

theorem Production.collapsed_tree? {p p' : Production} {gives : Rule → Bool} {rule : Rule}
    (hkeeps : p'.collapse = false) (hgives : gives rule = p.collapse) (start stop : Nat)
    (trees : List Tree) :
    (p'.tree? rule start stop trees).map (Tree.collapsed gives) =
      p.tree? rule start stop (trees.map (Tree.collapsed gives)) := by
  unfold tree?
  split_ifs
  · rfl
  · rw [node_of_not_collapse (by simp [hkeeps]), Option.map_some, p.collapsed_node hgives]

/-- An outcome with its trees collapsed. -/
def Outcome.collapsed (gives : Rule → Bool) : Outcome → Outcome
  | .matched stop trees => .matched stop (trees.map (Tree.collapsed gives))
  | .failed => .failed
  | .aborted => .aborted

/-- An answer with its tree collapsed. -/
def Answer.collapsed (gives : Rule → Bool) : Answer → Answer
  | .matched stop tree? => .matched stop (tree?.map (Tree.collapsed gives))
  | .failed => .failed

/-- Findings with the trees of all answers collapsed. -/
def Findings.collapsed (gives : Rule → Bool) (f : Findings) : Findings :=
  { f with answer? := fun q p => (f.answer? q p).map (Answer.collapsed gives) }

section
variable {gives : Rule → Bool}

namespace Outcome

theorem isMatched_collapsed (o : Outcome) : (o.collapsed gives).isMatched = o.isMatched := by
  cases o <;> rfl

theorem collapsed_eq_failed {o : Outcome} : o.collapsed gives = .failed ↔ o = .failed := by
  cases o <;> simp [collapsed]

theorem collapsed_ite (skipping : Bool) :
    (if skipping then failed else aborted).collapsed gives =
      if skipping then failed else aborted := by
  cases skipping <;> rfl

theorem collapsed_eq_aborted {o : Outcome} : o.collapsed gives = .aborted ↔ o = .aborted := by
  cases o <;> simp [collapsed]

theorem collapsed_orSkip (o : Outcome) (p : Nat) :
    (o.orSkip p).collapsed gives = (o.collapsed gives).orSkip p := by
  cases o <;> rfl

theorem collapsed_asAhead (o : Outcome) (p : Nat) :
    (o.asAhead p).collapsed gives = (o.collapsed gives).asAhead p := by
  cases o <;> rfl

theorem collapsed_asNotAhead (o : Outcome) (p : Nat) :
    (o.asNotAhead p).collapsed gives = (o.collapsed gives).asNotAhead p := by
  cases o <;> rfl

theorem collapsed_after (o : Outcome) (trees : List Tree) :
    (o.after trees).collapsed gives =
      (o.collapsed gives).after (trees.map (Tree.collapsed gives)) := by
  cases o <;> simp [after, collapsed]

end Outcome

theorem Answer.outcome_collapsed (a : Answer) :
    (a.collapsed gives).outcome = a.outcome.collapsed gives := by
  cases a with
  | matched stop tree? => cases tree? <;> rfl
  | failed => rfl

theorem Findings.collapsed_remember (f : Findings) (q : Rule) (p : Nat) (a : Answer) :
    (f.remember q p a).collapsed gives =
      (f.collapsed gives).remember q p (a.collapsed gives) := by
  unfold collapsed remember
  congr 1
  funext q' p'
  simp only
  split_ifs <;> rfl

end

/-- A setup in which no rule gives way to an only child. -/
def Setup.uncollapsed (s : Setup) : Setup :=
  { s with grammar := s.grammar.uncollapsed }

/-- **A run without collapsing is a run with collapsing**, all of its trees collapsed.  The induction
is on the run; each rule makes of the collapsed trees of its body what collapsing makes of its
node. -/
theorem Runs.collapsed {s : Setup} {room : Nat} {r : Rule} {t : Task} {p : Nat} {st st' : Findings}
    {o : Outcome} (h : Runs s.uncollapsed room r t p st o st') :
    Runs s room r t p (st.collapsed s.grammar.collapses) (o.collapsed s.grammar.collapses)
      (st'.collapsed s.grammar.collapses) := by
  have hnone : ∀ {f : Findings} {q p}, f.answer? q p = none →
      (f.collapsed s.grammar.collapses).answer? q p = none := by
    intro f q p hn
    simp only [Findings.collapsed, hn, Option.map_none]
  -- the rule as it is, collapsing or not
  have hrule : ∀ {q production}, s.uncollapsed.grammar.find? q = some production →
      ∃ production', s.grammar.find? q = some production' ∧ production'.body = production.body ∧
        production.collapse = false ∧ s.grammar.collapses q = production'.collapse := by
    intro q production hf
    rw [Setup.uncollapsed, Grammar.find?_uncollapsed] at hf
    obtain ⟨production', hf', rfl⟩ := Option.map_eq_some_iff.1 hf
    exact ⟨production', hf', rfl, rfl, by simp only [Grammar.collapses, hf', Option.any_some]⟩
  induction h with
  | tokenPass ht ha => exact .tokenPass ht ha
  | tokenFail ht ha => exact .tokenFail ht ha
  | tokenBeyond ht => exact .tokenBeyond ht
  | anyPass ht he => exact .anyPass ht he
  | anyFail ht => exact .anyFail ht
  | @hit _ _ q p st answer ha =>
    rw [← Answer.outcome_collapsed]
    have hanswer : (st.collapsed s.grammar.collapses).answer? q p =
        some (answer.collapsed s.grammar.collapses) := by
      simp only [Findings.collapsed, ha, Option.map_some]
    exact .hit hanswer
  | refused hn =>
    have hskip : s.uncollapsed.skipping = s.skipping := rfl
    rw [hskip, Outcome.collapsed_ite]
    exact .refused (hnone hn)
  | missing hn hf =>
    refine .missing (hnone hn) ?_
    rw [Setup.uncollapsed, Grammar.find?_uncollapsed] at hf
    exact Option.map_eq_none_iff.1 hf
  | ruleMatch hn hf _ ih =>
    obtain ⟨production', hf', hbody, hkeep, hgives⟩ := hrule hf
    rw [← hbody] at ih
    have htree := Production.collapsed_tree? hkeep hgives
    rw [Findings.collapsed_remember, Outcome.collapsed, Answer.collapsed, ← Option.toList_map, htree]
    exact .ruleMatch (hnone hn) hf' ih
  | ruleFail hn hf _ ih =>
    obtain ⟨production', hf', hbody, -⟩ := hrule hf
    rw [← hbody] at ih
    rw [Findings.collapsed_remember]
    exact .ruleFail (hnone hn) hf' ih
  | ruleAbort hn hf _ ih =>
    obtain ⟨production', hf', hbody, -⟩ := hrule hf
    rw [← hbody] at ih
    exact .ruleAbort (hnone hn) hf' ih
  | seq _ ih => exact .seq ih
  | itemsDone => exact .itemsDone
  | itemsStop _ hm ih => exact .itemsStop ih (by rwa [Outcome.isMatched_collapsed])
  | itemsNext _ _ ih₁ ih₂ =>
    rw [Outcome.collapsed_after]
    exact .itemsNext ih₁ ih₂
  | choice _ ih => exact .choice ih
  | alternativesDone => exact .alternativesDone
  | alternativesTake _ hne ih => exact .alternativesTake ih (mt Outcome.collapsed_eq_failed.1 hne)
  | alternativesNext _ _ ih₁ ih₂ => exact .alternativesNext ih₁ ih₂
  | option _ ih => rw [Outcome.collapsed_orSkip]; exact .option ih
  | star _ ih => exact .star ih
  | plusStop _ hm ih => exact .plusStop ih (by rwa [Outcome.isMatched_collapsed])
  | plusEmpty _ ih => exact .plusEmpty ih
  | plusNext _ hq _ ih₁ ih₂ =>
    rw [Outcome.collapsed_after]
    exact .plusNext ih₁ hq ih₂
  | turnsStop _ hm ih =>
    rw [Outcome.collapsed_orSkip]
    exact .turnsStop ih (by rwa [Outcome.isMatched_collapsed])
  | turnsEmpty _ ih => exact .turnsEmpty ih
  | turnsNext _ hq _ ih₁ ih₂ =>
    rw [Outcome.collapsed_after]
    exact .turnsNext ih₁ hq ih₂
  | followedBy _ ih => rw [Outcome.collapsed_asAhead]; exact .followedBy ih
  | notFollowedBy _ ih => rw [Outcome.collapsed_asNotAhead]; exact .notFollowedBy ih
  | epsilon => exact .epsilon
  | never => exact .never

/-! ## Parses -/

theorem State.exists_slot (k : Nat) : ∃ r p, slot r p = k := by
  have hlt : k % Rule.count < Rule.count := Nat.mod_lt _ (by decide)
  have hmem : k % Rule.count ∈ Rule.all.map Rule.index := by
    rw [Rule.all_map_index]
    exact List.mem_range.2 hlt
  obtain ⟨r, -, hr⟩ := List.mem_map.1 hmem
  refine ⟨r, k / Rule.count, ?_⟩
  rw [slot, hr, Nat.mul_comm]
  exact Nat.div_add_mod k Rule.count

theorem State.size_memo_eq (st st' : State)
    (h : ∀ q p, (st.findings.answer? q p).isSome = (st'.findings.answer? q p).isSome) :
    st.memo.size = st'.memo.size := by
  have hkeys : st.memo.keys.Perm st'.memo.keys := by
    refine (List.perm_ext_iff_of_nodup Std.TreeMap.nodup_keys Std.TreeMap.nodup_keys).2 fun k => ?_
    obtain ⟨r, p, rfl⟩ := exists_slot k
    have hrp := h r p
    simp only [findings, Option.isSome_map, memo?] at hrp
    rw [Std.TreeMap.mem_keys, Std.TreeMap.mem_keys, ← Std.TreeMap.contains_iff_mem,
      ← Std.TreeMap.contains_iff_mem, ← Std.TreeMap.isSome_getElem?_eq_contains,
      ← Std.TreeMap.isSome_getElem?_eq_contains, hrp]
  have hlen := hkeys.length_eq
  rwa [Std.TreeMap.length_keys, Std.TreeMap.length_keys] at hlen

namespace Grammar

variable {g : Grammar} {tokens : TokenStream} {root : Rule} {production : Production}
  {maxDepth? : Option Nat}

theorem evaluateRoot_aborts
    (hfatal : (g.evaluateRoot tokens root production maxDepth?).2.fatal = true) :
    ∃ f, Runs (g.setup tokens root maxDepth?) (room tokens maxDepth?) root (.expr production.body) 0
      Findings.initial.enter .aborted f := by
  have h := g.evaluateRoot_follows tokens root production maxDepth?
  generalize g.evaluateRoot tokens root production maxDepth? = result at h hfatal
  rw [← State.findings_initial root]
  cases h with
  | matched hf | failed hf => exact absurd (hf.symm.trans hfatal) Bool.noConfusion
  | aborted _ hr => exact ⟨_, hr⟩

theorem evaluateRoot_uncollapsed (g : Grammar) (tokens : TokenStream) (root : Rule)
    (production : Production) (maxDepth? : Option Nat) :
    let result := g.evaluateRoot tokens root production maxDepth?
    let result' := g.uncollapsed.evaluateRoot tokens root { production with collapse := false }
      maxDepth?
    (result.2.fatal = true ∧ result'.2.fatal = true) ∨
      (result.2.fatal = false ∧ result'.2.fatal = false ∧
        rootOutcome result = (rootOutcome result').collapsed g.collapses ∧
        result.2.findings = result'.2.findings.collapsed g.collapses) := by
  intro result result'
  have hsetup : g.uncollapsed.setup tokens root maxDepth? =
    (g.setup tokens root maxDepth?).uncollapsed := rfl
  cases hfatal' : result'.2.fatal with
  | true =>
    obtain ⟨f, hr'⟩ := evaluateRoot_aborts hfatal'
    rw [hsetup] at hr'
    cases hfatal : result.2.fatal with
    | true => exact Or.inl ⟨rfl, rfl⟩
    | false =>
      have ho := (hr'.collapsed.unique (evaluateRoot_runs hfatal)).1
      exact absurd ho.symm (rootOutcome_ne_aborted _)
  | false =>
    have hr' := evaluateRoot_runs hfatal'
    rw [hsetup] at hr'
    cases hfatal : result.2.fatal with
    | true =>
      obtain ⟨f, hr⟩ := evaluateRoot_aborts hfatal
      have ho := (hr'.collapsed.unique hr).1
      exact absurd (Outcome.collapsed_eq_aborted.1 ho) (rootOutcome_ne_aborted _)
    | false =>
      obtain ⟨ho, hfindings⟩ := (evaluateRoot_runs hfatal).unique hr'.collapsed
      exact Or.inr ⟨rfl, rfl, ho, hfindings⟩

theorem parse_uncollapsed_of_matched (hroot : g.find? root = some production)
    (hfatal : (g.evaluateRoot tokens root production maxDepth?).2.fatal = false)
    (hfatal' : (g.uncollapsed.evaluateRoot tokens root { production with collapse := false }
      maxDepth?).2.fatal = false) {stop : Nat} {trees : List Tree}
    (ho : rootOutcome (g.evaluateRoot tokens root production maxDepth?) =
      .matched stop (trees.map (Tree.collapsed g.collapses)))
    (ho' : rootOutcome (g.uncollapsed.evaluateRoot tokens root { production with collapse := false }
      maxDepth?) = .matched stop trees)
    (hfindings : (g.evaluateRoot tokens root production maxDepth?).2.findings =
      (g.uncollapsed.evaluateRoot tokens root { production with collapse := false }
        maxDepth?).2.findings.collapsed g.collapses)
    (hstop : stop = tokens.eofIndex ∨ stop = tokens.length) :
    ∃ r' r, g.uncollapsed.parse tokens root maxDepth? = .ok r' ∧
      g.parse tokens root maxDepth? = .ok r ∧ r.tree = r'.tree.collapsed g.collapses ∧
      r.evaluations = r'.evaluations ∧ r.hits = r'.hits ∧ r.entries = r'.entries ∧
      r.refusals = r'.refusals := by
  have hroot' : g.uncollapsed.find? root = some { production with collapse := false } := by
    rw [find?_uncollapsed, hroot, Option.map_some]
  obtain ⟨r', hr', htree', -⟩ := parse_of_outcome hroot' hfatal' ho' hstop
  obtain ⟨r, hr, htree, -⟩ := parse_of_outcome hroot hfatal ho hstop
  obtain ⟨hvisits', hentries', hhits', hrefusals'⟩ := counts_of_parse hroot' hr'
  obtain ⟨hvisits, hentries, hhits, hrefusals⟩ := counts_of_parse hroot hr
  have hgives : g.collapses root = production.collapse := by
    simp only [collapses, hroot, Option.any_some]
  have hnode : ({ production with collapse := false } : Production).node root 0 stop trees =
    .node root 0 stop trees := Production.node_of_not_collapse (by simp)
  have hsize := State.size_memo_eq (g.evaluateRoot tokens root production maxDepth?).2
    (g.uncollapsed.evaluateRoot tokens root { production with collapse := false } maxDepth?).2
    fun q p => by
      rw [hfindings]
      exact Option.isSome_map
  refine ⟨r', r, hr', hr, ?_, ?_, ?_, ?_, ?_⟩
  · rw [htree, htree', hnode, production.collapsed_node hgives]
  · rw [hvisits, hvisits']
    exact congrArg Findings.evaluations hfindings
  · rw [hhits, hhits']
    exact congrArg Findings.hits hfindings
  · rw [hentries, hentries', hsize]
  · rw [hrefusals, hrefusals']
    exact congrArg Findings.refusals hfindings

/-- **Collapsing only reshapes the tree.**  From any root and with any limit, a parse without collapsing
fails with the same error, or it finds a tree at the same cost, which is the one with collapsing once
each node of a rule that gives way is replaced, from the leaves up, by its child if it has just one. -/
theorem parse_uncollapsed (g : Grammar) (tokens : TokenStream) (root : Rule)
    (maxDepth? : Option Nat) :
    match g.uncollapsed.parse tokens root maxDepth? with
    | .error e => g.parse tokens root maxDepth? = .error e
    | .ok r' => ∃ r, g.parse tokens root maxDepth? = .ok r ∧
        r.tree = r'.tree.collapsed g.collapses ∧ r.evaluations = r'.evaluations ∧
        r.hits = r'.hits ∧ r.entries = r'.entries ∧ r.refusals = r'.refusals := by
  cases hroot : g.find? root with
  | none =>
    have hroot' : g.uncollapsed.find? root = none := by rw [find?_uncollapsed, hroot, Option.map_none]
    simp only [parse, hroot, hroot']
  | some production =>
    have hroot' : g.uncollapsed.find? root = some { production with collapse := false } := by
      rw [find?_uncollapsed, hroot, Option.map_some]
    rcases g.evaluateRoot_uncollapsed tokens root production maxDepth? with
      ⟨hfatal, hfatal'⟩ | ⟨hfatal, hfatal', ho, hfindings⟩
    · rw [parse_of_fatal hroot hfatal, parse_of_fatal hroot' hfatal']
    cases ho' : rootOutcome (g.uncollapsed.evaluateRoot tokens root
      { production with collapse := false } maxDepth?) with
    | aborted => exact absurd ho' (rootOutcome_ne_aborted _)
    | failed =>
      rw [ho'] at ho
      rw [parse_of_rootFailed hroot' hfatal' ho', parse_of_rootFailed hroot hfatal ho, hfindings]
      rfl
    | matched stop trees =>
      rw [ho'] at ho
      by_cases hstop : stop = tokens.eofIndex ∨ stop = tokens.length
      · obtain ⟨r', r, hr', hr⟩ :=
          parse_uncollapsed_of_matched hroot hfatal hfatal' ho ho' hfindings hstop
        rw [hr']
        exact ⟨r, hr⟩
      · rw [parse_of_rootPartial hroot' hfatal' ho' hstop, parse_of_rootPartial hroot hfatal ho hstop,
          hfindings]
        rfl

end Grammar

end PackratCpp
