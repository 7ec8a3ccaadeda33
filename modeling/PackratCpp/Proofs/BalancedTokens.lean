/-
  Tokens whose brackets match.

  * `Groups tokens p q ts`: the tokens from `p` up to `q` fall into pairs of brackets with what they
    enclose, and runs of tokens that are no brackets; `ts` are their trees.
  * `Grammar.BalancesTokens.groups`: what is read as balanced tokens falls into such groups, and
    `Grammar.BalancesTokens.stop_eq`: it ends where a well nested stretch does.
  * `Groups.wellNested`, `Groups.unique`: groups are well nested, and a stretch falls into them in one
    way.
  * `Groups.node`, `Groups.exists_node`: what the nodes are, and that each pair of brackets has one.
  * `Grammar.standard_balancedTokenSeq`: what follows for every dialect.
-/
import Mathlib.Data.Set.Function
import PackratCpp.Proofs.Matching
import PackratCpp.Proofs.Segments

namespace PackratCpp

open BracketKind

/-! ## The rules -/

namespace Expr

/-- Brackets around balanced tokens. -/
def bracketed (b : BracketKind) : Expr :=
  .seq [.token (.text b.opener), .rule .balancedTokenSeq, .token (.text b.closer)]

/-- A bracket, or the end of input. -/
def bracketOrEof : List Terminal :=
  [.text "(", .text ")", .text "\x7b", .text "\x7d", .text "[", .text "]", .kind .eof]

/-- A token that is no bracket. -/
def neutralToken : Expr :=
  .seq [.notFollowedBy (.choice (bracketOrEof.map .token)), .anyToken]

/-- Brackets of some kinds, or as many tokens without a bracket as there are. -/
def groupAlternatives (kinds : List BracketKind) : List Expr :=
  kinds.map bracketed ++ [.plus neutralToken]

end Expr

/-- A grammar that has the rules for balanced tokens. -/
structure Grammar.BalancesTokens (g : Grammar) : Prop where
  sequence : g.find? .balancedTokenSeq = some ⟨.star (.rule .balancedToken), false⟩
  token : g.find? .balancedToken =
    some ⟨.choice (Expr.groupAlternatives [.round, .curly, .square]), false⟩

theorem Dialect.balancesTokens (d : Dialect) : (d.grammar []).BalancesTokens := by
  constructor
  case sequence =>
    exact find?_of_group (Rules.attributes d.extensions) 9 (by simp [groups]) rfl
  case token =>
    exact find?_of_group (Rules.attributes d.extensions) 10 (by simp [groups]) rfl

variable {g : Grammar} {tokens : TokenStream} {r : Rule} {p q m : Nat} {v : Verdict}
  {trees : List Tree} {log : List Attempt}

namespace Tree

/-- The balanced tokens from `p` up to `q`: a node, if there are any. -/
def balanced (p q : Nat) (ts : List Tree) : List Tree :=
  if q = p then [] else [.node .balancedTokenSeq p q ts]

/-- The brackets at `p` and `q` with what they enclose. -/
def enclosed (p q : Nat) (ts : List Tree) : List Tree :=
  .leaf p :: (balanced (p + 1) q ts ++ [.leaf q])

end Tree

/-! ## One group -/

theorem Derives.tests_failed_iff {tests : List Terminal}
    (h : Derives g tokens r (.alternatives (tests.map .token)) p v log) :
    v = .failed ↔ ∀ test ∈ tests, ∀ t, tokens.get? p = some t → test.accepts t = false := by
  induction tests generalizing log with
  | nil =>
    cases h
    simp
  | cons test tests ih =>
    have hhead : ∀ {v log}, Derives g tokens r (.expr (.token test)) p v log →
        (v = .failed ↔ ∀ t, tokens.get? p = some t → test.accepts t = false) := by
      intro v log h
      cases h <;> simp_all
    rw [List.forall_mem_cons]
    cases h with
    | alternativesMatch h => exact ⟨nofun, fun hall => nomatch (hhead h).2 hall.1⟩
    | alternativesNext h hrest => rw [ih hrest, and_iff_right ((hhead h).1 rfl)]

theorem TokenStream.neutralAt_iff_tests (hp : p ≤ tokens.eofIndex) : tokens.NeutralAt p ↔
    ∀ test ∈ Expr.bracketOrEof, ∀ t, tokens.get? p = some t → test.accepts t = false := by
  obtain ⟨t, ht⟩ := exists_get? (Nat.lt_of_le_of_lt hp tokens.eofIndex_lt_length)
  have hneutral : tokens.NeutralAt p ↔ t.isEof = false ∧ t.text ∉ spellings := by
    constructor
    · rintro ⟨t', ht', h⟩
      cases ht.symm.trans ht'
      exact h
    · exact fun h => ⟨t, ht, h⟩
  have heof : (t.kind == .eof) = t.isEof := rfl
  simp only [hneutral, Expr.bracketOrEof, List.forall_mem_cons, ht, Option.some.injEq,
    forall_eq', Terminal.accepts, heof, spellings]
  cases t.isEof
  · simp only [List.mem_cons, List.not_mem_nil, Bool.not_false, Bool.true_and, beq_eq_false_iff_ne,
      not_or, not_false_eq_true, and_true, true_and, IsEmpty.forall_iff, implies_true, ne_eq]
    tauto
  · simp

theorem Derives.neutralToken_cases (h : Derives g tokens r (.expr .neutralToken) p v log)
    (hp : p ≤ tokens.eofIndex) :
    (v = .matched (p + 1) [.leaf p] ∧ tokens.NeutralAt p) ∨
      (v = .failed ∧ ¬ tokens.NeutralAt p) := by
  have hahead : ∀ {v log}, Derives g tokens r
      (.expr (.choice (Expr.bracketOrEof.map .token))) p v log →
      (v = .failed ↔ tokens.NeutralAt p) := by
    intro v log h
    cases h with
    | choice h => rw [h.tests_failed_iff, TokenStream.neutralAt_iff_tests hp]
  exact h.tokenUnless_cases hahead fun hneutral => hneutral.lt_eofIndex

theorem Derives.neutralTokens_cases
    (h : Derives g tokens r (.expr (.plus .neutralToken)) p v log) (hp : p ≤ tokens.eofIndex) :
    (∃ q, v = .matched q (Tree.leavesBetween p q) ∧ p < q ∧ q ≤ tokens.eofIndex ∧
      (∀ i, p ≤ i → i < q → tokens.NeutralAt i) ∧ ¬ tokens.NeutralAt q) ∨
    (v = .failed ∧ ¬ tokens.NeutralAt p) :=
  h.plus_of_single _ (fun hi h => h.neutralToken_cases hi) (fun h => h.lt_eofIndex) hp

/-- Balanced tokens, read from `p` on, end at `q`. -/
def Grammar.Balances (g : Grammar) (tokens : TokenStream) (p q : Nat) (ts : List Tree) : Prop :=
  ∃ log, Derives g tokens .balancedTokenSeq (.turns (.rule .balancedToken)) p (.matched q ts) log

/-- What becomes of a group, brackets of some kinds or tokens that are no brackets. -/
inductive Grammar.GroupAt (g : Grammar) (tokens : TokenStream) (kinds : List BracketKind)
    (p : Nat) : Verdict → Prop
  /-- What is balanced behind a bracket ends at the other one. -/
  | bracket {b : BracketKind} {m : Nat} {ts : List Tree} : tokens.SpelledAt b.opener p →
      g.Balances tokens (p + 1) m ts → tokens.SpelledAt b.closer m →
      GroupAt g tokens kinds p (.matched (m + 1) (Tree.enclosed p m ts))
  /-- Tokens that are no brackets, as many as there are. -/
  | run {q : Nat} : p < q → q ≤ tokens.eofIndex → (∀ i, p ≤ i → i < q → tokens.NeutralAt i) →
      ¬ tokens.NeutralAt q → GroupAt g tokens kinds p (.matched q (Tree.leavesBetween p q))
  /-- Neither: what is balanced behind a bracket does not end at the other one. -/
  | none : ¬ tokens.NeutralAt p →
      (∀ b ∈ kinds, tokens.SpelledAt b.opener p →
        ∃ m ts, g.Balances tokens (p + 1) m ts ∧ ¬ tokens.SpelledAt b.closer m) →
      GroupAt g tokens kinds p .failed

theorem Grammar.GroupAt.lt {kinds : List BracketKind}
    (h : g.GroupAt tokens kinds p (.matched q trees)) : p < q := by
  cases h with
  | bracket _ hinner =>
    obtain ⟨_, hinner⟩ := hinner
    exact Nat.lt_of_lt_of_le hinner.yields.le (Nat.le_succ _)
  | run hpq => exact hpq

namespace Grammar.BalancesTokens

theorem sequence_cases (hg : g.BalancesTokens)
    (h : Derives g tokens r (.expr (.rule .balancedTokenSeq)) p v log) :
    ∃ q ts, v = .matched q (Tree.balanced p q ts) ∧ g.Balances tokens p q ts := by
  cases h with
  | ruleMatch hf h =>
    rw [hg.sequence] at hf
    cases hf
    cases h with
    | star h =>
      refine ⟨_, _, ?_, _, h⟩
      unfold Production.tree? Tree.balanced
      split_ifs <;> rfl
  | ruleFail hf h =>
    rw [hg.sequence] at hf
    cases hf
    cases h with
    | star h => cases h
  | ruleMissing hf => rw [hg.sequence] at hf; cases hf

theorem bracketed_cases (hg : g.BalancesTokens) {b : BracketKind}
    (h : Derives g tokens r (.expr (.bracketed b)) p v log) :
    (∃ m ts, v = .matched (m + 1) (Tree.enclosed p m ts) ∧ tokens.SpelledAt b.opener p ∧
      g.Balances tokens (p + 1) m ts ∧ tokens.SpelledAt b.closer m) ∨
    (v = .failed ∧ (tokens.SpelledAt b.opener p →
      ∃ m ts, g.Balances tokens (p + 1) m ts ∧ ¬ tokens.SpelledAt b.closer m)) := by
  cases h with
  | seq h =>
    cases h with
    | itemsStop h =>
      rcases h.text_cases with ⟨hv, -⟩ | ⟨-, hno⟩
      · cases hv
      · exact Or.inr ⟨rfl, fun hopen => absurd hopen hno⟩
    | itemsMatch h hrest =>
      rcases h.text_cases with ⟨hv, hopen⟩ | ⟨hv, -⟩
      · cases hv
        cases hrest with
        | itemsMatch hseq hrest =>
          obtain ⟨m, ts, hv, hinner⟩ := hg.sequence_cases hseq
          cases hv
          cases hrest with
          | itemsMatch hlast hnil =>
            cases hnil
            rcases hlast.text_cases with ⟨hv, hclose⟩ | ⟨hv, -⟩
            · cases hv
              exact Or.inl ⟨_, _, rfl, hopen, hinner, hclose⟩
            · cases hv
      · cases hv
    | itemsFail h hrest =>
      rcases h.text_cases with ⟨hv, -⟩ | ⟨hv, -⟩
      · cases hv
        refine Or.inr ⟨rfl, fun _ => ?_⟩
        cases hrest with
        | itemsStop hseq =>
          obtain ⟨m, ts, hv, -⟩ := hg.sequence_cases hseq
          cases hv
        | itemsFail hseq hrest =>
          obtain ⟨m, ts, hv, hinner⟩ := hg.sequence_cases hseq
          cases hv
          cases hrest with
          | itemsStop hlast =>
            rcases hlast.text_cases with ⟨hv, -⟩ | ⟨-, hno⟩
            · cases hv
            · exact ⟨_, _, hinner, hno⟩
          | itemsFail _ hnil => cases hnil
      · cases hv

/-- **What becomes of a group.**  The induction is on the kinds of brackets, which are tried in turn. -/
theorem groupAt (hg : g.BalancesTokens) {kinds : List BracketKind}
    (h : Derives g tokens r (.alternatives (Expr.groupAlternatives kinds)) p v log)
    (hp : p ≤ tokens.eofIndex) : g.GroupAt tokens kinds p v := by
  induction kinds generalizing log with
  | nil =>
    cases h with
    | alternativesMatch h =>
      rcases h.neutralTokens_cases hp with ⟨q, hv, hpq, hq, hall, hend⟩ | ⟨hv, -⟩
      · cases hv
        exact .run hpq hq hall hend
      · cases hv
    | alternativesNext h hnil =>
      cases hnil
      rcases h.neutralTokens_cases hp with ⟨q, hv, -⟩ | ⟨-, hno⟩
      · cases hv
      · exact .none hno nofun
  | cons b kinds ih =>
    cases h with
    | alternativesMatch h =>
      rcases hg.bracketed_cases h with ⟨m, ts, hv, hopen, hinner, hclose⟩ | ⟨hv, -⟩
      · cases hv
        exact .bracket hopen hinner hclose
      · cases hv
    | alternativesNext h hrest =>
      rcases hg.bracketed_cases h with ⟨m, ts, hv, -⟩ | ⟨-, hb⟩
      · cases hv
      cases ih hrest with
      | bracket hopen hinner hclose => exact .bracket hopen hinner hclose
      | run hpq hq hall hend => exact .run hpq hq hall hend
      | none hno hkinds => exact .none hno (List.forall_mem_cons.2 ⟨hb, hkinds⟩)

theorem groupAt_of_matched (hg : g.BalancesTokens)
    (h : Derives g tokens r (.expr (.rule .balancedToken)) p (.matched q trees) log)
    (hp : p ≤ tokens.eofIndex) : ∃ ts, trees = [.node .balancedToken p q ts] ∧
      g.GroupAt tokens [.round, .curly, .square] p (.matched q ts) := by
  cases h with
  | ruleMatch hf h =>
    rw [hg.token] at hf
    cases hf
    cases h with
    | choice h =>
      have hgroup := hg.groupAt h hp
      have hlt := hgroup.lt
      refine ⟨_, ?_, hgroup⟩
      rw [Production.tree?, if_neg (by omega)]
      rfl

theorem groupAt_of_failed (hg : g.BalancesTokens)
    (h : Derives g tokens r (.expr (.rule .balancedToken)) p .failed log)
    (hp : p ≤ tokens.eofIndex) : g.GroupAt tokens [.round, .curly, .square] p .failed := by
  cases h with
  | ruleFail hf h =>
    rw [hg.token] at hf
    cases hf
    cases h with
    | choice h => exact hg.groupAt h hp
  | ruleMissing hf => rw [hg.token] at hf; cases hf

end Grammar.BalancesTokens

/-! ## All groups -/

/-- How the tokens from `p` up to `q` fall into pairs of brackets with what they enclose, and runs of
tokens that are no brackets. -/
inductive Groups (tokens : TokenStream) : Nat → Nat → List Tree → Prop
  | nil {p : Nat} : Groups tokens p p []
  | bracket {b : BracketKind} {p m q : Nat} {ts us : List Tree} : tokens.SpelledAt b.opener p →
      Groups tokens (p + 1) m ts → tokens.SpelledAt b.closer m → Groups tokens (m + 1) q us →
      Groups tokens p q (.node .balancedToken p (m + 1) (Tree.enclosed p m ts) :: us)
  | run {p m q : Nat} {us : List Tree} : p < m → (∀ i, p ≤ i → i < m → tokens.NeutralAt i) →
      ¬ tokens.NeutralAt m → Groups tokens m q us →
      Groups tokens p q (.node .balancedToken p m (Tree.leavesBetween p m) :: us)

namespace Grammar.BalancesTokens

/-- **What is read as balanced tokens falls into groups.**  The induction is on what is left of the
stream. -/
theorem groups (hg : g.BalancesTokens) (h : g.Balances tokens p q trees)
    (hp : p ≤ tokens.eofIndex) : Groups tokens p q trees ∧ q ≤ tokens.eofIndex := by
  induction hn : tokens.eofIndex - p using Nat.strong_induction_on generalizing p q trees with
  | _ n ih =>
    obtain ⟨log, h⟩ := h
    cases h with
    | turnsStop => exact ⟨.nil, hp⟩
    | turnsEmpty => exact ⟨.nil, hp⟩
    | @turnsMatch _ _ _ m _ _ _ _ _ h _ hrest =>
      obtain ⟨ts, rfl, hgroup⟩ := hg.groupAt_of_matched h hp
      cases hgroup with
      | @bracket b m ts hopen hinner hclose =>
        have hpe := hopen.lt_eofIndex
        have hme := hclose.lt_eofIndex
        obtain ⟨hts, hm⟩ := ih (tokens.eofIndex - (p + 1)) (by omega) hinner (by omega) rfl
        have hle : p + 1 ≤ m := by
          obtain ⟨_, hinner⟩ := hinner
          exact hinner.yields.le
        obtain ⟨hus, hq⟩ := ih (tokens.eofIndex - (m + 1)) (by omega) ⟨_, hrest⟩ (by omega) rfl
        exact ⟨.bracket hopen hts hclose hus, hq⟩
      | run hpm hm hall hend =>
        obtain ⟨hus, hq⟩ := ih (tokens.eofIndex - m) (by omega) ⟨_, hrest⟩ hm rfl
        exact ⟨.run hpm hall hend hus, hq⟩

theorem stop_eq_start (hg : g.BalancesTokens) (h : g.Balances tokens p q trees)
    (hp : p ≤ tokens.eofIndex) (hneutral : ¬ tokens.NeutralAt p)
    (hopener : ∀ b : BracketKind, ¬ tokens.SpelledAt b.opener p) : q = p := by
  obtain ⟨log, h⟩ := h
  cases h with
  | turnsStop | turnsEmpty => rfl
  | turnsMatch h _ _ =>
    obtain ⟨ts, -, hgroup⟩ := hg.groupAt_of_matched h hp
    cases hgroup with
    | bracket hopen => exact absurd hopen (hopener _)
    | run hpm _ hall => exact absurd (hall _ (Nat.le_refl _) hpm) hneutral

theorem behind_run (hg : g.BalancesTokens) (h : g.Balances tokens p q trees)
    (hneutral : tokens.NeutralAt p) : ∃ m us, p < m ∧
      (∀ i, p ≤ i → i < m → tokens.NeutralAt i) ∧ g.Balances tokens m q us := by
  have hp := Nat.le_of_lt hneutral.lt_eofIndex
  obtain ⟨log, h⟩ := h
  cases h with
  | turnsStop h =>
    cases hg.groupAt_of_failed h hp with
    | none hno => exact absurd hneutral hno
  | turnsEmpty h =>
    obtain ⟨ts, -, hgroup⟩ := hg.groupAt_of_matched h hp
    exact absurd hgroup.lt (Nat.lt_irrefl p)
  | turnsMatch h _ hrest =>
    obtain ⟨ts, -, hgroup⟩ := hg.groupAt_of_matched h hp
    cases hgroup with
    | bracket hopen => exact absurd hopen (hneutral.not_spelledAt (opener_mem _))
    | run hpm _ hall => exact ⟨_, _, hpm, hall, _, hrest⟩

theorem behind_bracket (hg : g.BalancesTokens) (h : g.Balances tokens p q trees)
    {b : BracketKind} {j : Nat} (hopen : tokens.SpelledAt b.opener p)
    (hclose : tokens.SpelledAt b.closer j)
    (hinner : ∀ {m ts}, g.Balances tokens (p + 1) m ts → m = j) :
    ∃ us, g.Balances tokens (j + 1) q us := by
  have hp := Nat.le_of_lt hopen.lt_eofIndex
  obtain ⟨log, h⟩ := h
  cases h with
  | turnsStop h =>
    cases hg.groupAt_of_failed h hp with
    | none _ hkinds =>
      obtain ⟨m, ts, hm, hno⟩ := hkinds b (by cases b <;> simp) hopen
      exact absurd (hinner hm ▸ hclose) hno
  | turnsEmpty h =>
    obtain ⟨ts, -, hgroup⟩ := hg.groupAt_of_matched h hp
    exact absurd hgroup.lt (Nat.lt_irrefl p)
  | turnsMatch h _ hrest =>
    obtain ⟨ts, -, hgroup⟩ := hg.groupAt_of_matched h hp
    cases hgroup with
    | bracket _ hm =>
      obtain rfl := hinner hm
      exact ⟨_, _, hrest⟩
    | run hpm _ hall =>
      exact absurd hopen ((hall p (Nat.le_refl p) hpm).not_spelledAt (opener_mem b))

/-- **Balanced tokens end where a well nested stretch does**, if something other than a group comes
next.  The induction is on the length of the stretch. -/
theorem stop_eq (hg : g.BalancesTokens) {e : Nat} (h : g.Balances tokens p q trees)
    (hwell : WellNested (tokens.between p e)) (hpe : p ≤ e) (he : e ≤ tokens.eofIndex)
    (hneutral : ¬ tokens.NeutralAt e) (hopener : ∀ b : BracketKind, ¬ tokens.SpelledAt b.opener e) :
    q = e := by
  induction hn : e - p using Nat.strong_induction_on generalizing p q e trees with
  | _ n ih =>
    by_cases hlt : p < e
    case neg =>
      obtain rfl : p = e := by omega
      exact hg.stop_eq_start h he hneutral hopener
    rcases TokenStream.cases_of_lt (Nat.lt_of_lt_of_le hlt he) with hp | ⟨b, hopen⟩ | ⟨b, hclose⟩
    · -- a run ends at `e` or before
      obtain ⟨m, us, hpm, hall, hrest⟩ := hg.behind_run h hp
      have hme : m ≤ e := Nat.not_lt.1 fun hem => hneutral (hall e hpe hem)
      have hrun := TokenStream.wellNested_of_neutral (Nat.le_of_lt hpm) hall
      have hwell' := wellNested_right (Nat.le_of_lt hpm) hme hrun hwell
      exact ih (e - m) (by omega) hrest hwell' hme he hneutral hopener rfl
    · -- what is balanced behind an opening bracket ends at the closing one, which is no group
      obtain ⟨j, ⟨hpj, -, hclose, hinside⟩, hje, hwell'⟩ :=
        TokenStream.exists_matches he hlt hopen hwell
      obtain ⟨us, hrest⟩ := hg.behind_bracket h hopen hclose fun hm =>
        ih (j - (p + 1)) (by omega) hm hinside hpj (by omega)
          (fun hno => hno.not_spelledAt (closer_mem b) hclose)
          (fun c hc => hc.opener_not_closer hclose) rfl
      exact ih (e - (j + 1)) (by omega) hrest hwell' hje he hneutral hopener rfl
    · exact absurd hwell (TokenStream.not_wellNested_of_closer hlt hclose)

end Grammar.BalancesTokens

namespace Groups

variable {ts us : List Tree} {t : Tree} {b : BracketKind} {i j : Nat}

theorem le (h : Groups tokens p q ts) : p ≤ q := by
  induction h with
  | nil => exact Nat.le_refl _
  | bracket _ _ _ _ ih₁ ih₂ => omega
  | run hpm _ _ _ ih => omega

/-- **Groups are well nested.** -/
theorem wellNested (h : Groups tokens p q ts) : WellNested (tokens.between p q) := by
  induction h with
  | nil => exact wellNested_between_self _ _
  | bracket hopen hinner hclose hrest ih₁ ih₂ =>
    have hle := hinner.le
    have hmatch : tokens.Matches _ _ _ := ⟨Nat.lt_of_succ_le hle, hopen, hclose, ih₁⟩
    exact wellNested_between (by omega) hrest.le hmatch.wellNested ih₂
  | run hpm hall _ hrest ih =>
    exact wellNested_between (Nat.le_of_lt hpm) hrest.le
      (TokenStream.wellNested_of_neutral (Nat.le_of_lt hpm) hall) ih

theorem matches_of_inner {m : Nat} (h : Groups tokens (p + 1) m ts)
    (hopen : tokens.SpelledAt b.opener p) (hclose : tokens.SpelledAt b.closer m) :
    tokens.Matches b p m :=
  ⟨Nat.lt_of_succ_le h.le, hopen, hclose, h.wellNested⟩

/-- **A stretch falls into groups in one way.** -/
theorem unique (h : Groups tokens p q ts) (h' : Groups tokens p q us) : ts = us := by
  induction h generalizing us with
  | nil =>
    cases h' with
    | nil => rfl
    | bracket _ hinner _ hrest =>
      have := hinner.le
      have := hrest.le
      omega
    | run hpm _ _ hrest =>
      have := hrest.le
      omega
  | @bracket b p m q ts vs hopen hinner hclose hrest ih₁ ih₂ =>
    cases h' with
    | nil =>
      have := hinner.le
      have := hrest.le
      omega
    | bracket _ hinner' hclose' hrest' =>
      obtain rfl := TokenStream.closer_unique hinner.le hinner'.le hinner.wellNested
        hinner'.wellNested hclose hclose'
      rw [ih₁ hinner', ih₂ hrest']
    | run hpm hall =>
      exact absurd hopen ((hall _ (Nat.le_refl _) hpm).not_spelledAt (opener_mem b))
  | @run p m q vs hpm hall hend hrest ih =>
    cases h' with
    | nil =>
      have := hrest.le
      omega
    | @bracket b _ _ _ _ _ hopen =>
      exact absurd hopen ((hall _ (Nat.le_refl _) hpm).not_spelledAt (opener_mem b))
    | @run _ m' _ _ hpm' hall' hend' hrest' =>
      have hle : m' ≤ m := Nat.not_lt.1 fun hlt => hend (hall' m (by omega) hlt)
      have hge : m ≤ m' := Nat.not_lt.1 fun hlt => hend' (hall m' (by omega) hlt)
      obtain rfl := Nat.le_antisymm hle hge
      rw [ih hrest']

/-! ### Nodes -/

theorem mem_enclosed (h : Groups tokens (p + 1) q ts) (ht : t.rule? = some .balancedToken) :
    t ∈ Tree.preorderAll (Tree.enclosed p q ts) ↔ t ∈ Tree.preorderAll ts := by
  have hleaf : ∀ i, t ≠ .leaf i := by
    rintro i rfl
    cases ht
  have hseq : ∀ s e cs, t ≠ .node .balancedTokenSeq s e cs := by
    rintro s e cs rfl
    cases ht
  unfold Tree.enclosed Tree.balanced
  split_ifs with hq
  · subst hq
    obtain rfl := h.unique .nil
    simp [Tree.preorderAll, Tree.preorder, hleaf]
  · simp [Tree.preorderAll, Tree.preorder, hleaf, hseq]

theorem notMem_leavesBetween (ht : t.rule? = some .balancedToken) :
    t ∉ Tree.preorderAll (Tree.leavesBetween p q) := by
  intro hm
  have hnone : Tree.RulesWithin (fun _ => false) (Tree.leavesBetween p q) :=
    Tree.rulesWithin_leaves _
  cases hnone t hm _ ht

theorem node (h : Groups tokens p q ts)
    (hstart : tokens.NeutralAt p → p = 0 ∨ ¬ tokens.NeutralAt (p - 1))
    (hm : t ∈ Tree.preorderAll ts) (ht : t.rule? = some .balancedToken) :
    Groups tokens t.start t.stop [t] ∧
      (tokens.NeutralAt t.start → t.start = 0 ∨ ¬ tokens.NeutralAt (t.start - 1)) := by
  induction h with
  | nil => cases hm
  | bracket hopen hinner hclose _ ih₁ ih₂ =>
    rw [Tree.preorderAll, List.mem_append, Tree.preorder, List.mem_cons] at hm
    rcases hm with (rfl | hm) | hm
    · exact ⟨.bracket hopen hinner hclose .nil, hstart⟩
    · exact ih₁ (fun _ => Or.inr fun hno => hno.not_spelledAt (opener_mem _) hopen)
        ((hinner.mem_enclosed ht).1 hm)
    · exact ih₂ (fun _ => Or.inr fun hno => hno.not_spelledAt (closer_mem _) hclose) hm
  | run hpm hall hend _ ih =>
    rw [Tree.preorderAll, List.mem_append, Tree.preorder, List.mem_cons] at hm
    rcases hm with (rfl | hm) | hm
    · exact ⟨.run hpm hall hend .nil, hstart⟩
    · exact absurd hm (notMem_leavesBetween ht)
    · exact ih (fun hno => absurd hno hend) hm

theorem single_cases (h : Groups tokens p q [t]) :
    (∃ (b : BracketKind) (m : Nat), tokens.Matches b p m ∧ q = m + 1) ∨
      (p < q ∧ (∀ i, p ≤ i → i < q → tokens.NeutralAt i) ∧ ¬ tokens.NeutralAt q) := by
  cases h with
  | @bracket b _ m _ _ _ hopen hinner hclose hnil =>
    cases hnil
    exact Or.inl ⟨b, m, hinner.matches_of_inner hopen hclose, rfl⟩
  | run hpm hall hend hnil =>
    cases hnil
    exact Or.inr ⟨hpm, hall, hend⟩

/-- **Brackets that belong together have a node**, which starts and ends with them. -/
theorem exists_node (h : Groups tokens p q ts) (hm : tokens.Matches b i j) (hpi : p ≤ i)
    (hiq : i < q) : ∃ t ∈ Tree.preorderAll ts,
      t.rule? = some .balancedToken ∧ t.start = i ∧ t.stop = j + 1 := by
  induction h with
  | nil => omega
  | @bracket c p m q ts us hopen hinner hclose hrest ih₁ ih₂ =>
    rw [Tree.preorderAll]
    obtain ⟨hij, hi, hj, hwell⟩ := hm
    rcases Nat.lt_trichotomy i m with him | rfl | hmi
    · by_cases hip : i = p
      · subst hip
        have hmj : m = j :=
          TokenStream.closer_unique hinner.le hij hinner.wellNested hwell hclose hj
        exact ⟨_, List.mem_append_left _ (List.mem_cons_self ..), rfl, rfl, by rw [hmj]; rfl⟩
      · obtain ⟨t, htm, ht, hspan⟩ := ih₁ (by omega) him
        exact ⟨t, List.mem_append_left _ (List.mem_cons_of_mem _ ((hinner.mem_enclosed ht).2 htm)),
          ht, hspan⟩
    · exact absurd hclose hi.opener_not_closer
    · obtain ⟨t, htm, ht⟩ := ih₂ (by omega) hiq
      exact ⟨t, List.mem_append_right _ htm, ht⟩
  | @run p m q us hpm hall _ _ ih =>
    have hmi : m ≤ i := Nat.not_lt.1 fun him =>
      (hall i hpi him).not_spelledAt (opener_mem b) hm.2.1
    obtain ⟨t, htm, ht⟩ := ih hmi hiq
    exact ⟨t, List.mem_append_right _ htm, ht⟩

/-- **Groups that start with a bracket are the pairs of brackets**, each one spanning its pair. -/
theorem bijOn (h : Groups tokens 0 tokens.eofIndex ts) :
    Set.BijOn (fun t : Tree => (t.start, t.stop))
      {t | t ∈ Tree.preorderAll ts ∧ t.rule? = some .balancedToken ∧
        ∃ b : BracketKind, tokens.SpelledAt b.opener t.start}
      {span | ∃ (b : BracketKind) (i j : Nat), tokens.Matches b i j ∧ span = (i, j + 1)} := by
  have hnode : ∀ {t}, t ∈ Tree.preorderAll ts → t.rule? = some .balancedToken →
      Groups tokens t.start t.stop [t] := fun hm ht => (h.node (fun _ => Or.inl rfl) hm ht).1
  refine ⟨?_, ?_, ?_⟩
  · rintro t ⟨hm, ht, b, hopen⟩
    rcases (hnode hm ht).single_cases with ⟨b, m, hmatch, hstop⟩ | ⟨hlt, hall, -⟩
    · exact ⟨b, t.start, m, hmatch, congrArg (Prod.mk _) hstop⟩
    · exact absurd hopen ((hall _ (Nat.le_refl _) hlt).not_spelledAt (opener_mem b))
  · rintro t ⟨hm, ht, -⟩ u ⟨hm', hu, -⟩ hspan
    obtain ⟨hstart, hstop⟩ := Prod.mk.inj hspan
    have hgroup := hnode hm' hu
    rw [← hstart, ← hstop] at hgroup
    exact List.singleton_inj.1 ((hnode hm ht).unique hgroup)
  · rintro _ ⟨b, i, j, hmatch, rfl⟩
    obtain ⟨t, hm, ht, rfl, hstop⟩ := h.exists_node hmatch (Nat.zero_le i) hmatch.2.1.lt_eofIndex
    exact ⟨t, ⟨hm, ht, b, hmatch.2.1⟩, congrArg (Prod.mk _) hstop⟩

theorem isRun (h : Groups tokens 0 tokens.eofIndex ts) (hm : t ∈ Tree.preorderAll ts)
    (ht : t.rule? = some .balancedToken)
    (hno : ¬ ∃ b : BracketKind, tokens.SpelledAt b.opener t.start) :
    tokens.IsRun t.start t.stop := by
  obtain ⟨hgroup, hstart⟩ := h.node (fun _ => Or.inl rfl) hm ht
  rcases hgroup.single_cases with ⟨b, m, hmatch, -⟩ | ⟨hlt, hall, hend⟩
  · exact absurd ⟨b, hmatch.2.1⟩ hno
  · exact ⟨hlt, hall, hstart (hall _ (Nat.le_refl _) hlt), hend⟩

end Groups

/-! ## Parses -/

namespace Grammar

/-- **Balanced tokens are exactly the well nested ones.**

In every dialect, an unlimited parse of a stream as balanced tokens finds a tree if the brackets among
the tokens before the end of input match, and fails with a diagnosis otherwise.  In the tree, the nodes
of single balanced tokens that start with an opening bracket are, one for one, the pairs of brackets
that belong together, from the opening up to the closing one; any other is a run of tokens without a
bracket that cannot be made any longer. -/
theorem standard_balancedTokenSeq (d : Dialect) : ∃ g, standard? d [] = .ok g ∧
    ∀ tokens : TokenStream,
      (WellNested (tokens.between 0 tokens.eofIndex) →
        ∃ r, g.parse tokens .balancedTokenSeq none = .ok r ∧
          Set.BijOn (fun t : Tree => (t.start, t.stop))
            {t | t ∈ r.tree.preorder ∧ t.rule? = some .balancedToken ∧
              ∃ b : BracketKind, tokens.SpelledAt b.opener t.start}
            {span | ∃ (b : BracketKind) (i j : Nat), tokens.Matches b i j ∧ span = (i, j + 1)} ∧
          ∀ t ∈ r.tree.preorder, t.rule? = some .balancedToken →
            (¬ ∃ b : BracketKind, tokens.SpelledAt b.opener t.start) →
              tokens.IsRun t.start t.stop) ∧
      (¬ WellNested (tokens.between 0 tokens.eofIndex) →
        ∃ e, g.parse tokens .balancedTokenSeq none = .error (.recognition e)) := by
  refine ⟨_, standard?_eq d [], fun tokens => ?_⟩
  have hg := d.balancesTokens
  obtain ⟨v, log, hd⟩ := (d.ranked []).body_total hg.sequence (Nat.zero_le tokens.length)
  have hrun := unlimited_unrefused_iff.2 ⟨v, log, hd⟩
  obtain ⟨q, trees, rfl, hbalances⟩ : ∃ q trees, v = .matched q trees ∧
      (d.grammar []).Balances tokens 0 q trees := by
    cases hd with
    | star h => cases h with
      | turnsStop h => exact ⟨_, _, rfl, _, .turnsStop h⟩
      | turnsEmpty h => exact ⟨_, _, rfl, _, .turnsEmpty h⟩
      | turnsMatch h hne hrest => exact ⟨_, _, rfl, _, .turnsMatch h hne hrest⟩
  obtain ⟨hgroups, hq⟩ := hg.groups hbalances (Nat.zero_le _)
  constructor
  · intro hwell
    have hend : ¬ tokens.NeutralAt tokens.eofIndex := fun h => Nat.lt_irrefl _ h.lt_eofIndex
    obtain rfl := hg.stop_eq hbalances hwell (Nat.zero_le _) (Nat.le_refl _) hend
      fun b h => Nat.lt_irrefl _ h.lt_eofIndex
    obtain ⟨r, hr, htree, -⟩ := parse_of_matched hg.sequence hrun hd (Or.inl rfl)
    -- the root is no group itself
    have hmem : ∀ {t : Tree}, t.rule? = some .balancedToken →
        (t ∈ r.tree.preorder ↔ t ∈ Tree.preorderAll trees) := by
      intro t ht
      have hroot : r.tree = .node .balancedTokenSeq 0 tokens.eofIndex trees := htree
      rw [hroot, Tree.preorder, List.mem_cons, or_iff_right]
      rintro rfl
      cases ht
    refine ⟨r, hr, ?_, fun t hm ht hno => hgroups.isRun ((hmem ht).1 hm) ht hno⟩
    convert hgroups.bijOn using 1
    ext t
    exact ⟨fun ⟨hm, ht, hb⟩ => ⟨(hmem ht).1 hm, ht, hb⟩, fun ⟨hm, ht, hb⟩ => ⟨(hmem ht).2 hm, ht, hb⟩⟩
  · intro hno
    have hlen := tokens.length_eq
    refine ⟨_, parse_of_partial hg.sequence hrun hd ?_⟩
    rintro (rfl | rfl)
    · exact hno hgroups.wellNested
    · omega

/-- `(a) b`. -/
def parenthesized : TokenStream :=
  .terminated [⟨.punctuator, "(", 1, 1, 0⟩, ⟨.identifier, "a", 1, 2, 1⟩, ⟨.punctuator, ")", 1, 3, 2⟩,
    ⟨.identifier, "b", 1, 5, 4⟩] ⟨.eof, "", 1, 6, 5⟩

/-- The brackets match, and the pair has a node. -/
theorem parenthesized_balancedTokenSeq :
    ∃ g, standard? .standard [] = .ok g ∧
      WellNested (parenthesized.between 0 parenthesized.eofIndex) ∧
      ∃ r, g.parse parenthesized .balancedTokenSeq none = .ok r ∧
        ∃ t ∈ r.tree.preorder, t.rule? = some .balancedToken ∧ t.start = 0 ∧ t.stop = 3 := by
  obtain ⟨g, hg, hbalanced⟩ := standard_balancedTokenSeq .standard
  have hwell : WellNested (parenthesized.between 0 parenthesized.eofIndex) := by decide
  have hmatch : parenthesized.Matches .round 0 2 :=
    ⟨by decide, ⟨_, rfl, rfl, rfl⟩, ⟨_, rfl, rfl, rfl⟩, by decide⟩
  obtain ⟨r, hr, hbij, -⟩ := (hbalanced parenthesized).1 hwell
  obtain ⟨t, ⟨hm, ht, -⟩, hspan⟩ := hbij.surjOn ⟨.round, 0, 2, hmatch, rfl⟩
  obtain ⟨hstart, hstop⟩ := Prod.mk.inj hspan
  exact ⟨g, hg, hwell, r, hr, t, hm, ht, hstart, hstop⟩

end Grammar

end PackratCpp
