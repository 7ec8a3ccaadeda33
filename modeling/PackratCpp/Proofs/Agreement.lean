/-
  A parse agrees with the meaning of its grammar.

  * `Grammar.parse_of_matched`, `Grammar.parse_of_partial`, `Grammar.parse_of_failed`: what a
    parse that refuses no rule makes of the verdict on the body of the root rule.
  * `Grammar.unlimited_unrefused_iff`: without a limit, a parse refuses no rule if there is a
    verdict, and only then.
  * `Grammar.parse_iff_reads`: a parse that refuses no rule finds the tree of the root rule, or
    fails where there is none, and each answer that it has kept is the verdict on its rule at
    its place.
-/
import PackratCpp.Proofs.Engine
import PackratCpp.Proofs.Settling

namespace PackratCpp

/-- No rule was refused: none was skipped for nesting too deep, nor was the parse given up. -/
def State.Unrefused (st : State) : Prop :=
  st.fatal = false ∧ st.refusals = 0

namespace Grammar

variable {g : Grammar} {tokens : TokenStream} {root : Rule} {production : Production}
  {maxDepth? : Option Nat}

theorem evaluateRoot_derives
    (hrun : (g.evaluateRoot tokens root production maxDepth?).2.Unrefused) :
    (g.evaluateRoot tokens root production maxDepth?).2.findings.Remembers g tokens ∧
      ∃ v log, rootOutcome (g.evaluateRoot tokens root production maxDepth?) = v.outcome ∧
        Derives g tokens root (.expr production.body) 0 v log ∧
        (g.evaluateRoot tokens root production maxDepth?).2.furthest =
          Furthest.none.noteAll log :=
  (evaluateRoot_runs hrun.1).derives (Findings.remembers_initial g tokens) hrun.2

theorem evaluateRoot_eq {v : Verdict} {log : List Attempt}
    (hrun : (g.evaluateRoot tokens root production maxDepth?).2.Unrefused)
    (hd : Derives g tokens root (.expr production.body) 0 v log) :
    rootOutcome (g.evaluateRoot tokens root production maxDepth?) = v.outcome ∧
      (g.evaluateRoot tokens root production maxDepth?).2.furthest =
        Furthest.none.noteAll log := by
  obtain ⟨-, w, log', ho, hd', hf⟩ := evaluateRoot_derives hrun
  obtain ⟨rfl, rfl⟩ := hd.unique hd'
  exact ⟨ho, hf⟩

theorem unrefused_of_derives {v : Verdict} {log : List Attempt}
    (hd : Derives g tokens root (.expr production.body) 0 v log)
    (hroom : Rule.count * (tokens.length + 1) ≤ room tokens maxDepth?) :
    (g.evaluateRoot tokens root production maxDepth?).2.Unrefused := by
  obtain ⟨n, hs⟩ := hd.settles
  have hs := (hs.bounded (Nat.zero_le _)).mono hroom
  have hnone : Findings.initial.enter.Remembers g tokens := Findings.remembers_initial g tokens
  have h := g.evaluateRoot_follows tokens root production maxDepth?
  rcases he : g.evaluateRoot tokens root production maxDepth? with ⟨stop?, st⟩
  rw [he] at h
  -- a run that gives up would have to come out as the verdict
  cases h with
  | aborted hf hr =>
    rw [State.findings_initial] at hr
    obtain ⟨-, w, -, hw, -⟩ := hr.derives hnone (hr.unrefused hnone hs)
    cases w <;> cases hw
  | matched hf hr | failed hf hr =>
    rw [State.findings_initial] at hr
    exact ⟨hf, hr.unrefused hnone hs⟩

/-- **Without a limit, a parse refuses no rule exactly where there is a verdict.** -/
theorem unlimited_unrefused_iff :
    (g.evaluateRoot tokens root production none).2.Unrefused ↔
      ∃ v log, Derives g tokens root (.expr production.body) 0 v log := by
  constructor
  · intro hrun
    obtain ⟨-, v, log, -, hd, -⟩ := evaluateRoot_derives hrun
    exact ⟨v, log, hd⟩
  · rintro ⟨v, log, hd⟩
    exact unrefused_of_derives hd (Nat.le_refl _)

section
variable (hroot : g.find? root = some production)
  (hrun : (g.evaluateRoot tokens root production maxDepth?).2.Unrefused)
include hroot hrun

theorem parse_of_matched {stop : Nat} {trees : List Tree} {log : List Attempt}
    (hd : Derives g tokens root (.expr production.body) 0 (.matched stop trees) log)
    (hstop : stop = tokens.eofIndex ∨ stop = tokens.length) :
    ∃ r, g.parse tokens root maxDepth? = .ok r ∧ r.tree = production.node root 0 stop trees ∧
      r.tokens = tokens :=
  parse_of_outcome hroot hrun.1 (evaluateRoot_eq hrun hd).1 hstop

theorem parse_of_partial {stop : Nat} {trees : List Tree} {log : List Attempt}
    (hd : Derives g tokens root (.expr production.body) 0 (.matched stop trees) log)
    (hstop : ¬ (stop = tokens.eofIndex ∨ stop = tokens.length)) :
    g.parse tokens root maxDepth? = .error (.recognition (diagnose tokens
      ((Furthest.none.noteAll log).record stop none .endOfInput))) := by
  obtain ⟨ho, hf⟩ := evaluateRoot_eq hrun hd
  have hnone : ¬ 0 < (g.evaluateRoot tokens root production maxDepth?).2.refusals := by
    rw [hrun.2]
    exact Nat.lt_irrefl 0
  rw [← hf, parse_of_rootPartial hroot hrun.1 ho hstop, errorOf]
  exact congrArg Except.error (if_neg hnone)

theorem parse_of_failed {log : List Attempt}
    (hd : Derives g tokens root (.expr production.body) 0 .failed log) :
    g.parse tokens root maxDepth? =
      .error (.recognition (diagnose tokens (Furthest.none.noteAll log))) := by
  obtain ⟨ho, hf⟩ := evaluateRoot_eq hrun hd
  have hnone : ¬ 0 < (g.evaluateRoot tokens root production maxDepth?).2.refusals := by
    rw [hrun.2]
    exact Nat.lt_irrefl 0
  rw [← hf, parse_of_rootFailed hroot hrun.1 ho, errorOf]
  exact congrArg Except.error (if_neg hnone)

/-- A parse that refuses no rule finds the tree of the root rule, or there is none and the
failure is diagnosed. -/
theorem parse_cases :
    (∃ r, g.parse tokens root maxDepth? = .ok r ∧ g.Reads tokens root r.tree) ∨
      (∃ d, g.parse tokens root maxDepth? = .error (.recognition d)) ∧
        ¬ ∃ tree, g.Reads tokens root tree := by
  obtain ⟨-, v, log, -, hd, -⟩ := evaluateRoot_derives hrun
  cases v with
  | failed =>
    refine Or.inr ⟨⟨_, parse_of_failed hroot hrun hd⟩, ?_⟩
    rintro ⟨tree, hf, hd', -⟩
    rw [hroot] at hf
    cases hf
    cases (hd.unique hd').1
  | matched stop trees =>
    by_cases hstop : stop = tokens.eofIndex ∨ stop = tokens.length
    · obtain ⟨r, hr, ht, -⟩ := parse_of_matched hroot hrun hd hstop
      exact Or.inl ⟨r, hr, ht ▸ .intro hroot hd hstop⟩
    · refine Or.inr ⟨⟨_, parse_of_partial hroot hrun hd hstop⟩, ?_⟩
      rintro ⟨tree, hf, hd', hstop'⟩
      rw [hroot] at hf
      cases hf
      cases (hd.unique hd').1
      exact hstop hstop'

end

theorem Reads.unique {t u : Tree} (h : g.Reads tokens root t) (h' : g.Reads tokens root u) :
    t = u := by
  obtain ⟨hf, hd, -⟩ := h
  obtain ⟨hf', hd', -⟩ := h'
  rw [hf] at hf'
  cases hf'
  cases (hd.unique hd').1
  rfl

theorem parse_ok_iff (hroot : g.find? root = some production)
    (hrun : (g.evaluateRoot tokens root production maxDepth?).2.Unrefused) (tree : Tree) :
    (∃ r, g.parse tokens root maxDepth? = .ok r ∧ r.tree = tree) ↔ g.Reads tokens root tree := by
  rcases parse_cases hroot hrun with ⟨r, hr, ht⟩ | ⟨⟨d, hd⟩, hno⟩
  · constructor
    · rintro ⟨r', hr', rfl⟩
      rw [hr] at hr'
      cases hr'
      exact ht
    · exact fun h => ⟨r, hr, ht.unique h⟩
  · constructor
    · rintro ⟨r', hr', -⟩
      rw [hd] at hr'
      cases hr'
    · exact fun h => absurd ⟨tree, h⟩ hno

/-- **A parse agrees with the meaning of its grammar.**  Without a limit it comes to an end
exactly where there is a verdict.  If it refuses no rule, it finds a tree exactly where the
stream has it from the root rule, any other end is a diagnosis, and every answer that has
been kept is, read in the arena, the verdict on its own rule at its own place. -/
theorem parse_iff_reads (hroot : g.find? root = some production) (maxDepth? : Option Nat) :
    ((g.evaluateRoot tokens root production none).2.Unrefused ↔
      ∃ v log, Derives g tokens root (.expr production.body) 0 v log) ∧
    ((g.evaluateRoot tokens root production maxDepth?).2.Unrefused →
      (∀ tree, (∃ r, g.parse tokens root maxDepth? = .ok r ∧ r.tree = tree) ↔
        g.Reads tokens root tree) ∧
      ((∃ d, g.parse tokens root maxDepth? = .error (.recognition d)) ↔
        ¬ ∃ tree, g.Reads tokens root tree) ∧
      ∀ q p memo, (g.evaluateRoot tokens root production maxDepth?).2.memo? q p = some memo →
        ∃ log, Derives g tokens q (.expr (.rule q)) p
          (memo.answer (g.evaluateRoot tokens root production maxDepth?).2.arena).verdict log) := by
  refine ⟨unlimited_unrefused_iff, fun hrun => ⟨parse_ok_iff hroot hrun, ?_, fun q p memo hm => ?_⟩⟩
  · rcases parse_cases hroot hrun with ⟨r, hr, ht⟩ | ⟨hd, hno⟩
    · refine ⟨?_, fun h => absurd ⟨_, ht⟩ h⟩
      rintro ⟨d, hd⟩
      rw [hr] at hd
      cases hd
    · exact ⟨fun _ => hno, fun _ => hd⟩
  · obtain ⟨log, hd, -⟩ := (evaluateRoot_derives hrun).1 q p _ (congrArg (Option.map _) hm)
    exact ⟨log, hd⟩

theorem exists_of_toOption {result : Except ParseError Parse} {α : Type} {f : Parse → α} {a : α}
    (h : result.toOption.map f = some a) : ∃ r, result = .ok r ∧ f r = a := by
  cases result with
  | error => cases h
  | ok r => exact ⟨r, rfl, Option.some.inj h⟩

/-- One token with or without a semicolon behind it. -/
def semicolonOptional : Production :=
  ⟨.choice [.seq [.rule .pointerLiteral, .token (.text ";")], .rule .pointerLiteral], false⟩

/-- A grammar that has it as `booleanLiteral`, and any token as `pointerLiteral`. -/
def tokenOptionally : Grammar :=
  ⟨.standard, #[some semicolonOptional, some ⟨.anyToken, false⟩]⟩

/-- A stream of one token. -/
def oneToken : TokenStream :=
  .terminated [⟨.identifier, "x", 1, 1, 0⟩] ⟨.eof, "", 1, 2, 1⟩

/-- The first alternative reads the token and fails behind it; the second one finds the token
remembered. -/
theorem parse_tokenOptionally :
    tokenOptionally.find? .booleanLiteral = some semicolonOptional ∧
    (tokenOptionally.evaluateRoot oneToken .booleanLiteral semicolonOptional (some 2)).2.Unrefused ∧
    ∃ r, tokenOptionally.parse oneToken .booleanLiteral (some 2) = .ok r ∧
      r.tree = .node .booleanLiteral 0 1 [.node .pointerLiteral 0 1 [.leaf 0]] := by
  have hrun : (tokenOptionally.evaluateRoot oneToken .booleanLiteral semicolonOptional
      (some 2)).2.Unrefused := ⟨rfl, rfl⟩
  have htoken : Derives tokenOptionally oneToken .booleanLiteral (.expr (.rule .pointerLiteral)) 0
      (.matched 1 [.node .pointerLiteral 0 1 [.leaf 0]]) [] :=
    @Derives.ruleMatch _ _ _ _ ⟨.anyToken, false⟩ 0 1 [.leaf 0] _ rfl (.anyPass rfl rfl)
  have hbody : Derives tokenOptionally oneToken .booleanLiteral (.expr semicolonOptional.body) 0
      (.matched 1 [.node .pointerLiteral 0 1 [.leaf 0]]) _ :=
    .choice (.alternativesNext (.seq (.itemsFail htoken (.itemsStop (.tokenFail rfl rfl))))
      (.alternativesMatch htoken))
  exact ⟨rfl, hrun,
    (((parse_iff_reads rfl (some 2)).2 hrun).1 _).2 (.intro rfl hbody (Or.inl rfl))⟩

end Grammar

end PackratCpp
