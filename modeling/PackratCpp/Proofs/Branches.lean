/-
  An else goes with the nearest if.

  * `Derives.within`: a task comes to the same verdict in the body of any rule.
  * `Derives.atNodes`: every node in the trees of a verdict is what the body of its rule comes to at the
    start of its span.
  * `Dialect.reads_of_parse`, `Grammar.Reads.node`: so it is in the tree of an unlimited parse.
  * `Derives.ifStatement_cases`: an if statement has an else part exactly if one can be read behind its
    first branch.
  * `Grammar.standard_nearest_if`: an else is no part of an if statement around one that it could be a
    part of.
-/
import PackratCpp.Proofs.Agreement
import PackratCpp.Proofs.Forecast
import PackratCpp.Proofs.Matching
import PackratCpp.Proofs.Nodes

namespace PackratCpp

variable {g : Grammar} {tokens : TokenStream} {r : Rule} {p : Nat}

/-! ## Verdicts in the body of any rule -/

theorem Derives.within {t : Task} {v : Verdict} {log : List Attempt}
    (h : Derives g tokens r t p v log) (r' : Rule) : ∃ log', Derives g tokens r' t p v log' := by
  induction h with
  | tokenPass ht ha => exact ⟨_, .tokenPass ht ha⟩
  | tokenFail ht ha => exact ⟨_, .tokenFail ht ha⟩
  | tokenBeyond ht => exact ⟨_, .tokenBeyond ht⟩
  | anyPass ht he => exact ⟨_, .anyPass ht he⟩
  | anyFail ht => exact ⟨_, .anyFail ht⟩
  | ruleMatch hf hd => exact ⟨_, .ruleMatch hf hd⟩
  | ruleFail hf hd => exact ⟨_, .ruleFail hf hd⟩
  | ruleMissing hf => exact ⟨_, .ruleMissing hf⟩
  | seq _ ih => exact ih.imp fun _ => .seq
  | itemsDone => exact ⟨_, .itemsDone⟩
  | itemsStop _ ih => exact ih.imp fun _ => .itemsStop
  | itemsMatch _ _ ih₁ ih₂ =>
    obtain ⟨_, h₁⟩ := ih₁
    exact ih₂.elim fun _ h₂ => ⟨_, .itemsMatch h₁ h₂⟩
  | itemsFail _ _ ih₁ ih₂ =>
    obtain ⟨_, h₁⟩ := ih₁
    exact ih₂.elim fun _ h₂ => ⟨_, .itemsFail h₁ h₂⟩
  | choice _ ih => exact ih.imp fun _ => .choice
  | alternativesDone => exact ⟨_, .alternativesDone⟩
  | alternativesMatch _ ih => exact ih.imp fun _ => .alternativesMatch
  | alternativesNext _ _ ih₁ ih₂ =>
    obtain ⟨_, h₁⟩ := ih₁
    exact ih₂.elim fun _ h₂ => ⟨_, .alternativesNext h₁ h₂⟩
  | optionMatch _ ih => exact ih.imp fun _ => .optionMatch
  | optionSkip _ ih => exact ih.imp fun _ => .optionSkip
  | star _ ih => exact ih.imp fun _ => .star
  | plusFail _ ih => exact ih.imp fun _ => .plusFail
  | plusEmpty _ ih => exact ih.imp fun _ => .plusEmpty
  | plusMatch _ hq _ ih₁ ih₂ =>
    obtain ⟨_, h₁⟩ := ih₁
    exact ih₂.elim fun _ h₂ => ⟨_, .plusMatch h₁ hq h₂⟩
  | turnsStop _ ih => exact ih.imp fun _ => .turnsStop
  | turnsEmpty _ ih => exact ih.imp fun _ => .turnsEmpty
  | turnsMatch _ hq _ ih₁ ih₂ =>
    obtain ⟨_, h₁⟩ := ih₁
    exact ih₂.elim fun _ h₂ => ⟨_, .turnsMatch h₁ hq h₂⟩
  | aheadMatch _ ih => exact ih.imp fun _ => .aheadMatch
  | aheadFail _ ih => exact ih.imp fun _ => .aheadFail
  | notAheadMatch _ ih => exact ih.imp fun _ => .notAheadMatch
  | notAheadFail _ ih => exact ih.imp fun _ => .notAheadFail
  | epsilon => exact ⟨_, .epsilon⟩
  | never => exact ⟨_, .never⟩

/-! ## What nodes stand for -/

/-- What is said of a match is that the task comes to it. -/
def Judgment.derived (g : Grammar) (tokens : TokenStream) : Judgment := fun t p stop trees =>
  ∃ r log, Derives g tokens r t p (.matched stop trees) log

/-- **Every node is what its rule comes to.**  The induction is on the derivation: only a rule adds a
node, and that is the one of its body. -/
theorem Derives.atNodes {t : Task} {stop : Nat} {trees : List Tree} {log : List Attempt}
    (h : Derives g tokens r t p (.matched stop trees) log) :
    Judgment.AtNodes g (Judgment.derived g tokens) trees := by
  generalize hv : Verdict.matched stop trees = v at h
  induction h generalizing stop trees with
  | tokenPass ht ha | anyPass ht ha => cases hv; exact .leaf _
  | ruleMatch hf hd ih => cases hv; exact (ih rfl).tree? hf ⟨_, _, hd⟩ hd.yields.le
  | seq _ ih | choice _ ih | star _ ih => exact ih hv
  | itemsMatch _ _ ih₁ ih₂ | plusMatch _ _ _ ih₁ ih₂ | turnsMatch _ _ _ ih₁ ih₂ =>
    cases hv; exact (ih₁ rfl).append (ih₂ rfl)
  | alternativesMatch _ ih | optionMatch _ ih => cases hv; exact ih rfl
  | alternativesNext _ _ _ ih => exact ih hv
  | itemsDone | optionSkip | plusEmpty | turnsStop | turnsEmpty | aheadMatch | notAheadFail
  | epsilon => cases hv; exact .nil
  | tokenFail | tokenBeyond | anyFail | ruleFail | ruleMissing | itemsStop | itemsFail
  | alternativesDone | plusFail | aheadFail | notAheadMatch | never => cases hv

theorem Dialect.reads_of_parse {d : Dialect} {root : Rule} {result : Parse}
    (h : (d.grammar []).parse tokens root none = .ok result) :
    (d.grammar []).Reads tokens root result.tree := by
  obtain ⟨production, hroot⟩ := d.exists_find? [] root
  obtain ⟨v, log, hd⟩ := (d.ranked []).body_total hroot (Nat.zero_le tokens.length)
  have hrun := Grammar.unlimited_unrefused_iff.2 ⟨v, log, hd⟩
  exact (Grammar.parse_ok_iff hroot hrun result.tree).1 ⟨result, h, rfl⟩

theorem Grammar.Reads.exists_derives {root : Rule} {production : Production} {t : Tree}
    (h : g.Reads tokens root t) (hf : g.find? root = some production) :
    ∃ stop trees log, Derives g tokens root (.expr production.body) 0 (.matched stop trees) log ∧
      (stop = tokens.eofIndex ∨ stop = tokens.length) ∧ t = production.node root 0 stop trees := by
  obtain ⟨hf', hd, hstop⟩ := h
  cases hf.symm.trans hf'
  exact ⟨_, _, _, hd, hstop, rfl⟩

/-- **Every node of a tree is what its rule comes to** at the start of its span, the root included. -/
theorem Grammar.Reads.node {root s : Rule} {t : Tree} (h : g.Reads tokens root t) {start stop : Nat}
    {children : List Tree} (hm : .node s start stop children ∈ t.preorder) :
    ∃ production log, g.find? s = some production ∧
      Derives g tokens s (.expr production.body) start (.matched stop children) log := by
  obtain @⟨production, stop', trees, log, hf, hd, -⟩ := h
  have hinside : .node s start stop children ∈ Tree.preorderAll trees → ∃ production log,
      g.find? s = some production ∧
        Derives g tokens s (.expr production.body) start (.matched stop children) log := by
    intro hm
    obtain ⟨-, production, hs, r, log, hd⟩ := hd.atNodes _ _ _ _ hm
    obtain ⟨log, hd⟩ := hd.within s
    exact ⟨production, log, hs, hd⟩
  rcases production.node_cases root 0 stop' trees with heq | heq
  · refine hinside ?_
    rw [heq]
    simpa [Tree.preorderAll] using hm
  · rw [heq, Tree.preorder] at hm
    rcases List.mem_cons.1 hm with hroot | hm
    · cases hroot
      exact ⟨production, log, hf, hd⟩
    · exact hinside hm

/-! ## If statements -/

/-- An else and a statement. -/
def Expr.elseBranch : Expr :=
  .seq [.token (.keyword .kElse), .rule .statement]

/-- An if statement, with or without an else part. -/
def Expr.ifBody : Expr :=
  .seq [.token (.keyword .kIf), .token (.text "("), .rule .condition, .token (.text ")"),
    .rule .statement, .option .elseBranch]

/-- The rules of a grammar for if statements, which all have nodes of their own. -/
structure Grammar.Branches (g : Grammar) : Prop where
  ifStatement : g.find? .ifStatement = some ⟨.ifBody, false⟩
  condition : ∃ body, g.find? .condition = some ⟨body, false⟩
  statement : ∃ body, g.find? .statement = some ⟨body, false⟩

theorem Dialect.branches (d : Dialect) : (d.grammar []).Branches := by
  constructor
  case ifStatement =>
    exact find?_of_group (Rules.statements d.extensions) 7 (by simp [groups]) rfl
  case condition =>
    exact ⟨_, find?_of_group (Rules.statements d.extensions) 6 (by simp [groups]) rfl⟩
  case statement =>
    exact ⟨_, find?_of_group (Rules.statements d.extensions) 0 (by simp [groups]) rfl⟩

theorem Derives.leaf_notMem {s : Rule} {body : Expr} {stop i : Nat} {trees : List Tree}
    {log : List Attempt} (h : Derives g tokens r (.expr (.rule s)) p (.matched stop trees) log)
    (hs : g.find? s = some ⟨body, false⟩) : .leaf i ∉ trees := by
  cases h with
  | ruleMatch hf _ =>
    cases hs.symm.trans hf
    intro hm
    rw [Production.tree?] at hm
    split at hm
    · cases hm
    · cases List.mem_singleton.1 hm

theorem Terminal.text_of_accepts {s : String} {t : Token} (h : (Terminal.text s).accepts t = true) :
    t.text = s := by
  simp only [accepts, Bool.and_eq_true, beq_iff_eq] at h
  exact h.2

theorem Terminal.keyword_of_accepts {w : Keyword} {t : Token}
    (h : (Terminal.keyword w).accepts t = true) : t.kind = .keyword ∧ t.text = w.text := by
  simpa [accepts] using h

theorem Derives.leaf_not_else {test : Terminal} {stop i : Nat} {trees : List Tree}
    {log : List Attempt}
    (h : Derives g tokens r (.expr (.token test)) p (.matched stop trees) log)
    (htest : ∀ t, test.accepts t = true → t.text ≠ "else") (hi : .leaf i ∈ trees) :
    ¬ tokens.SpelledAt "else" i := by
  cases h with
  | tokenPass ht ha =>
    cases List.mem_singleton.1 hi
    rintro ⟨t, ht', -, htext⟩
    cases ht.symm.trans ht'
    exact htest _ ha htext

theorem Derives.elseBranch_matched (hg : g.Branches) {stop : Nat} {trees : List Tree}
    {log : List Attempt} (h : Derives g tokens r (.expr .elseBranch) p (.matched stop trees) log) :
    .leaf p ∈ trees ∧ tokens.SpelledAt "else" p ∧ ∀ i, .leaf i ∈ trees → i = p := by
  obtain ⟨body, hbody⟩ := hg.statement
  obtain ⟨_, _, _, _, _, rfl, helse, h₁⟩ := h.seq_cons
  obtain ⟨rfl, rfl, t, ht, ha⟩ := helse.token_matched
  obtain ⟨_, _, _, _, _, rfl, hstatement, h₂⟩ := h₁.seq_cons
  obtain ⟨rfl, rfl⟩ := h₂.seq_nil
  obtain ⟨hkind, htext⟩ := Terminal.keyword_of_accepts ha
  refine ⟨List.mem_cons_self .., ⟨t, ht, ?_, htext⟩, fun i hi => ?_⟩
  · simp [Token.isEof, hkind]
  · rw [List.append_nil, List.singleton_append, List.mem_cons] at hi
    rcases hi with hi | hi
    · cases hi
      rfl
    · exact absurd hi (hstatement.leaf_notMem hbody)

/-- **An if statement tries to read an else part** behind its first branch.  If there is none, the
statement ends there; otherwise the first token of the else part is the only else among its leaves. -/
theorem Derives.ifStatement_cases (hg : g.Branches) {stop : Nat} {children : List Tree}
    {log : List Attempt} (h : Derives g tokens r (.expr .ifBody) p (.matched stop children) log) :
    ∃ q v log', Derives g tokens r (.expr .elseBranch) q v log' ∧
      (v = .failed ∧ stop = q ∧ (∀ i, .leaf i ∈ children → ¬ tokens.SpelledAt "else" i) ∨
        v ≠ .failed ∧ .leaf q ∈ children ∧ tokens.SpelledAt "else" q ∧
          ∀ i, .leaf i ∈ children → tokens.SpelledAt "else" i → i = q) := by
  obtain ⟨condition, hcondition⟩ := hg.condition
  obtain ⟨statement, hstatement⟩ := hg.statement
  have hif : ∀ t, (Terminal.keyword .kIf).accepts t = true → t.text ≠ "else" := by
    intro t ha
    rw [(Terminal.keyword_of_accepts ha).2]
    decide
  have hopening : ∀ t, (Terminal.text "(").accepts t = true → t.text ≠ "else" := by
    intro t ha
    rw [Terminal.text_of_accepts ha]
    decide
  have hclosing : ∀ t, (Terminal.text ")").accepts t = true → t.text ≠ "else" := by
    intro t ha
    rw [Terminal.text_of_accepts ha]
    decide
  obtain ⟨_, _, _, _, _, rfl, hword, h₁⟩ := h.seq_cons
  obtain ⟨_, _, _, _, _, rfl, hopen, h₂⟩ := h₁.seq_cons
  obtain ⟨_, _, _, _, _, rfl, hcond, h₃⟩ := h₂.seq_cons
  obtain ⟨_, _, _, _, _, rfl, hclose, h₄⟩ := h₃.seq_cons
  obtain ⟨_, _, _, _, _, rfl, hthen, h₅⟩ := h₄.seq_cons
  obtain ⟨_, _, _, _, _, rfl, helse, h₆⟩ := h₅.seq_cons
  obtain ⟨rfl, rfl⟩ := h₆.seq_nil
  cases helse with
  | optionSkip hfailed =>
    refine ⟨_, _, _, hfailed, Or.inl ⟨rfl, rfl, fun i hi => ?_⟩⟩
    simp only [List.mem_append, List.not_mem_nil, or_false] at hi
    rcases hi with hi | hi | hi | hi | hi
    · exact hword.leaf_not_else hif hi
    · exact hopen.leaf_not_else hopening hi
    · exact absurd hi (hcond.leaf_notMem hcondition)
    · exact hclose.leaf_not_else hclosing hi
    · exact absurd hi (hthen.leaf_notMem hstatement)
  | optionMatch hbranch =>
    obtain ⟨hleaf, hspelled, honly⟩ := hbranch.elseBranch_matched hg
    refine ⟨_, _, _, hbranch, Or.inr ⟨nofun, ?_, hspelled, fun i hi hs => ?_⟩⟩
    · simp only [List.mem_append, hleaf, true_or, or_true]
    · simp only [List.mem_append, List.not_mem_nil, or_false] at hi
      rcases hi with hi | hi | hi | hi | hi | hi
      · exact absurd hs (hword.leaf_not_else hif hi)
      · exact absurd hs (hopen.leaf_not_else hopening hi)
      · exact absurd hi (hcond.leaf_notMem hcondition)
      · exact absurd hs (hclose.leaf_not_else hclosing hi)
      · exact absurd hi (hthen.leaf_notMem hstatement)
      · exact honly i hi

namespace Grammar

/-- **An else goes with the nearest if.**

In every dialect, for every stream and root rule: where the tree of an unlimited parse has an if
statement with an else of its own, and inside it an if statement that ends right before this else, the
inner one has an else of its own too. -/
theorem standard_nearest_if (d : Dialect) : ∃ g, standard? d [] = .ok g ∧
    ∀ (tokens : TokenStream) (root : Rule) (result : Parse),
      g.parse tokens root none = .ok result →
      ∀ (start stop start' i : Nat) (children children' : List Tree),
        .node .ifStatement start stop children ∈ result.tree.preorder →
        .leaf i ∈ children → tokens.SpelledAt "else" i →
        .node .ifStatement start' i children' ∈ Tree.preorderAll children →
        ∃ j, .leaf j ∈ children' ∧ tokens.SpelledAt "else" j := by
  refine ⟨_, standard?_eq d [], ?_⟩
  intro tokens root result hr start stop start' i children children' houter hi helse hinner
  have hg := d.branches
  have hreads := Dialect.reads_of_parse hr
  have hinside : .node .ifStatement start' i children' ∈ result.tree.preorder :=
    (Tree.preorder_sublist _ houter).mem (List.mem_cons_of_mem _ hinner)
  obtain ⟨production, log, hf, hd⟩ := hreads.node houter
  obtain ⟨production', log', hf', hd'⟩ := hreads.node hinside
  cases hg.ifStatement.symm.trans hf
  cases hg.ifStatement.symm.trans hf'
  obtain ⟨q, v, _, hbranch, hcase⟩ := hd.ifStatement_cases hg
  obtain ⟨q', v', _, hbranch', hcase'⟩ := hd'.ifStatement_cases hg
  rcases hcase' with ⟨rfl, rfl, -⟩ | ⟨-, hleaf, hspelled, -⟩
  · -- the inner statement looked for an else part at `i`, where the outer one found it
    rcases hcase with ⟨-, -, hnone⟩ | ⟨hv, -, -, honly⟩
    · exact absurd helse (hnone i hi)
    · obtain rfl := honly i hi helse
      exact absurd (hbranch.unique hbranch').1 hv
  · exact ⟨q', hleaf, hspelled⟩

/-- `if (a) if (b) ; else ; else ;`. -/
def nestedIf : TokenStream :=
  .terminated [⟨.keyword, "if", 1, 1, 0⟩, ⟨.punctuator, "(", 1, 4, 3⟩, ⟨.identifier, "a", 1, 5, 4⟩,
    ⟨.punctuator, ")", 1, 6, 5⟩, ⟨.keyword, "if", 1, 8, 7⟩, ⟨.punctuator, "(", 1, 11, 10⟩,
    ⟨.identifier, "b", 1, 12, 11⟩, ⟨.punctuator, ")", 1, 13, 12⟩, ⟨.punctuator, ";", 1, 15, 14⟩,
    ⟨.keyword, "else", 1, 17, 16⟩, ⟨.punctuator, ";", 1, 22, 21⟩, ⟨.keyword, "else", 1, 24, 23⟩,
    ⟨.punctuator, ";", 1, 29, 28⟩] ⟨.eof, "", 1, 30, 29⟩

/-- The inner statement ends right before the second else, and has the first one. -/
theorem nestedIf_nearest_if :
    ∃ g, standard? .standard [] = .ok g ∧ ∃ r, g.parse nestedIf .ifStatement none = .ok r ∧
      ∃ children children', .node .ifStatement 0 13 children ∈ r.tree.preorder ∧
        .leaf 11 ∈ children ∧ nestedIf.SpelledAt "else" 11 ∧
        .node .ifStatement 4 11 children' ∈ Tree.preorderAll children ∧
        ∃ j, .leaf j ∈ children' ∧ nestedIf.SpelledAt "else" j := by
  have hread : (Dialect.standard.forecast nestedIf .ifStatement).map (·.map fun root =>
      (root.rule?, root.start, root.stop,
        root.children.any fun t => t.rule? = none ∧ t.start = 11,
        (Tree.preorderAll root.children).any fun t =>
          t.rule? = some .ifStatement ∧ t.start = 4 ∧ t.stop = 11)) =
      some (some (some .ifStatement, 0, 13, true, true)) := by decide +kernel
  obtain ⟨r, hr, hread⟩ := Dialect.parse_of_forecast_map hread
  obtain ⟨g, hg, hnearest⟩ := standard_nearest_if .standard
  cases (standard?_eq _ _).symm.trans hg
  simp only [Prod.mk.injEq, List.any_eq_true, decide_eq_true_eq] at hread
  obtain ⟨hrule, hstart, hstop, ⟨t, ht, hleaf, ht11⟩, ⟨u, hu, hif, hu4, hu11⟩⟩ := hread
  obtain ⟨children, hroot⟩ := Tree.exists_node hrule
  obtain ⟨children', hnode⟩ := Tree.exists_node hif
  rw [hstart, hstop] at hroot
  rw [hu4, hu11] at hnode
  have houter : .node .ifStatement 0 13 children ∈ r.tree.preorder :=
    hroot ▸ r.tree.mem_preorder_self
  have helse : .leaf 11 ∈ children := by
    cases t with
    | leaf i =>
      cases ht11
      rwa [hroot] at ht
    | node => cases hleaf
  have hspelled : nestedIf.SpelledAt "else" 11 := ⟨_, rfl, rfl, rfl⟩
  have hinner : .node .ifStatement 4 11 children' ∈ Tree.preorderAll children := by
    rwa [hroot, hnode] at hu
  exact ⟨_, hg, r, hr, children, children', houter, helse, hspelled, hinner,
    hnearest nestedIf .ifStatement r hr 0 13 4 11 children children' houter helse hspelled hinner⟩

end Grammar

end PackratCpp
