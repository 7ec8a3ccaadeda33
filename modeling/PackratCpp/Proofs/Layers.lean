/-
  Grammars that extend others.

  * `Construct`: something that a larger grammar has in addition.
  * `Extends added t t'`: the task `t'` is `t` with constructs of `added` put in, as further
    alternatives or as options.  `Grammar.ExtendedBy`: so it is for the body of every rule.
  * `Part`: the parts that two tasks have in common.
    `Diverts`: the larger grammar takes something that was put in, and what it makes of it is kept:
    each part around it, up to the whole, comes out differently in the two grammars.
  * `Differ.items`, `Differ.alternatives`, `Differ.turns` and the like: where two tasks come out
    differently, some of their parts do.  `Differ.diverts`: so something that was put in diverts the
    larger grammar.
  * `Meets`: a construct is present where it is tried.  `Diverts.meets`: so it is for what diverts.
  * `Grammar.parse_of_extended`: what the smaller grammar reads, the larger one reads as the same
    tree if and only if nothing of its own diverts it.
-/
import PackratCpp.Proofs.Agreement
import PackratCpp.Proofs.Ranking

namespace PackratCpp

/-- Something that a larger grammar has in addition: an expression that it tries, and one that
matches where the construct is present.  Mostly these are the same. -/
structure Construct where
  tried : Expr
  sign : Expr

/-- A construct that is present where it matches. -/
def Construct.of (e : Expr) : Construct :=
  ⟨e, e⟩

/-! ## Extension -/

/-- An expression that matches nowhere unless a construct does. -/
inductive Blocked (added : List Construct) : Expr → Prop
  | added {e} : .of e ∈ added → Blocked added e
  | item {e es} : e ∈ es → Blocked added e → Blocked added (.seq es)

/-- The second task is the first one with some constructs put in. -/
inductive Extends (added : List Construct) : Task → Task → Prop
  | token {test} : Extends added (.expr (.token test)) (.expr (.token test))
  | anyToken : Extends added (.expr .anyToken) (.expr .anyToken)
  | rule {r} : Extends added (.expr (.rule r)) (.expr (.rule r))
  | option {e e'} : Extends added (.expr e) (.expr e') →
      Extends added (.expr (.option e)) (.expr (.option e'))
  | star {e e'} : Extends added (.turns e) (.turns e') →
      Extends added (.expr (.star e)) (.expr (.star e'))
  | plus {e e'} : Extends added (.turns e) (.turns e') →
      Extends added (.expr (.plus e)) (.expr (.plus e'))
  | turns {e e'} : Extends added (.expr e) (.expr e') → Extends added (.turns e) (.turns e')
  | followedBy {e e'} : Extends added (.expr e) (.expr e') →
      Extends added (.expr (.followedBy e)) (.expr (.followedBy e'))
  | notFollowedBy {e e'} : Extends added (.expr e) (.expr e') →
      Extends added (.expr (.notFollowedBy e)) (.expr (.notFollowedBy e'))
  | epsilon : Extends added (.expr .epsilon) (.expr .epsilon)
  | never : Extends added (.expr .never) (.expr .never)
  -- Sequences.  An expression of its own counts as a sequence of one.
  | seq {es es'} : Extends added (.items es) (.items es') →
      Extends added (.expr (.seq es)) (.expr (.seq es'))
  | single {e es'} : Extends added (.items [e]) (.items es') →
      Extends added (.expr e) (.expr (.seq es'))
  | itemsDone : Extends added (.items []) (.items [])
  | items {e e' es es'} : Extends added (.expr e) (.expr e') →
      Extends added (.items es) (.items es') → Extends added (.items (e :: es)) (.items (e' :: es'))
  -- A further option, and an operand that may be left out before what follows it.
  | itemsMore {e' es es'} : Blocked added e' → Extends added (.items es) (.items es') →
      Extends added (.items es) (.items (.option e' :: es'))
  | itemsOmit {e e' d' es es'} : ⟨.option e', d'⟩ ∈ added → Extends added (.expr e) (.expr e') →
      Extends added (.items es) (.items (d' :: es')) →
      Extends added (.items (e :: es)) (.items (.option e' :: d' :: es'))
  -- Choices, likewise.
  | choice {es es'} : Extends added (.alternatives es) (.alternatives es') →
      Extends added (.expr (.choice es)) (.expr (.choice es'))
  | only {e es'} : Extends added (.alternatives [e]) (.alternatives es') →
      Extends added (.expr e) (.expr (.choice es'))
  | alternativesDone : Extends added (.alternatives []) (.alternatives [])
  | alternatives {e e' es es'} : Extends added (.expr e) (.expr e') →
      Extends added (.alternatives es) (.alternatives es') →
      Extends added (.alternatives (e :: es)) (.alternatives (e' :: es'))
  | alternativesMore {e' es es'} : Blocked added e' →
      Extends added (.alternatives es) (.alternatives es') →
      Extends added (.alternatives es) (.alternatives (e' :: es'))

/-- Two grammars come to different verdicts, each on its own task. -/
def Differ (g g' : Grammar) (tokens : TokenStream) (r : Rule) (t t' : Task) (p : Nat) : Prop :=
  ∃ v v' log log', Derives g tokens r t p v log ∧ Derives g' tokens r t' p v' log' ∧ v ≠ v'

/-- As a part of the body of a rule, a task at a place tries the expression `x` at the place `i`. -/
inductive Tries (g : Grammar) (tokens : TokenStream) (x : Expr) (i : Nat) :
    Rule → Task → Nat → Prop
  | here {r} : Tries g tokens x i r (.expr x) i
  | rule {r s production p} : g.find? s = some production →
      Tries g tokens x i s (.expr production.body) p → Tries g tokens x i r (.expr (.rule s)) p
  | seq {r es p} : Tries g tokens x i r (.items es) p → Tries g tokens x i r (.expr (.seq es)) p
  | item {r e es p} : Tries g tokens x i r (.expr e) p → Tries g tokens x i r (.items (e :: es)) p
  | nextItem {r e es p q trees log} : Derives g tokens r (.expr e) p (.matched q trees) log →
      Tries g tokens x i r (.items es) q → Tries g tokens x i r (.items (e :: es)) p
  | choice {r es p} : Tries g tokens x i r (.alternatives es) p →
      Tries g tokens x i r (.expr (.choice es)) p
  | alternative {r e es p} : Tries g tokens x i r (.expr e) p →
      Tries g tokens x i r (.alternatives (e :: es)) p
  | nextAlternative {r e es p log} : Derives g tokens r (.expr e) p .failed log →
      Tries g tokens x i r (.alternatives es) p → Tries g tokens x i r (.alternatives (e :: es)) p
  | option {r e p} : Tries g tokens x i r (.expr e) p → Tries g tokens x i r (.expr (.option e)) p
  | star {r e p} : Tries g tokens x i r (.turns e) p → Tries g tokens x i r (.expr (.star e)) p
  | plus {r e p} : Tries g tokens x i r (.turns e) p → Tries g tokens x i r (.expr (.plus e)) p
  | turn {r e p} : Tries g tokens x i r (.expr e) p → Tries g tokens x i r (.turns e) p
  | nextTurn {r e p q trees log} : Derives g tokens r (.expr e) p (.matched q trees) log → q ≠ p →
      Tries g tokens x i r (.turns e) q → Tries g tokens x i r (.turns e) p
  | followedBy {r e p} : Tries g tokens x i r (.expr e) p →
      Tries g tokens x i r (.expr (.followedBy e)) p
  | notFollowedBy {r e p} : Tries g tokens x i r (.expr e) p →
      Tries g tokens x i r (.expr (.notFollowedBy e)) p

/-- Some added construct is present at a place where a task tries it. -/
def Meets (g : Grammar) (tokens : TokenStream) (added : List Construct) (r : Rule) (t : Task)
    (p : Nat) : Prop :=
  ∃ c ∈ added, ∃ i, Tries g tokens c.tried i r t p ∧
    ∃ q stop trees log, Derives g tokens q (.expr c.sign) i (.matched stop trees) log

variable {g g' : Grammar} {tokens : TokenStream} {added : List Construct} {r : Rule} {p : Nat}

/-- A verdict behind something that has yielded some trees. -/
def Verdict.behind (trees : List Tree) : Verdict → Verdict
  | .matched stop trees' => .matched stop (trees ++ trees')
  | .failed => .failed

/-- What a rule comes to, from what its body comes to. -/
def Production.verdict (production : Production) (s : Rule) (p : Nat) : Verdict → Verdict
  | .matched stop trees => .matched stop (production.tree? s p stop trees).toList
  | .failed => .failed

namespace Derives

variable {e : Expr} {es : List Expr} {v : Verdict} {log : List Attempt}

theorem of_rule {s : Rule} {production : Production} (hf : g.find? s = some production)
    (h : Derives g tokens r (.expr (.rule s)) p v log) :
    ∃ w, v = production.verdict s p w ∧ Derives g tokens s (.expr production.body) p w log := by
  cases h with
  | ruleMatch hs hd => cases hf.symm.trans hs; exact ⟨_, rfl, hd⟩
  | ruleFail hs hd => cases hf.symm.trans hs; exact ⟨_, rfl, hd⟩
  | ruleMissing hs => cases hf.symm.trans hs

theorem single (h : Derives g tokens r (.expr e) p v log) :
    ∃ log, Derives g tokens r (.items [e]) p v log := by
  cases v with
  | failed => exact ⟨_, .itemsStop h⟩
  | matched stop trees =>
    rw [← List.append_nil trees]
    exact ⟨_, .itemsMatch h .itemsDone⟩

theorem only (h : Derives g tokens r (.expr e) p v log) :
    ∃ log, Derives g tokens r (.alternatives [e]) p v log := by
  cases v with
  | failed => exact ⟨_, .alternativesNext h .alternativesDone⟩
  | matched stop trees => exact ⟨_, .alternativesMatch h⟩

theorem items_behind (h : Derives g tokens r (.items (e :: es)) p v log) :
    ∃ w log, Derives g tokens r (.expr e) p w log ∧
      (w = .failed ∧ v = .failed ∨ ∃ q trees u log, w = .matched q trees ∧ v = u.behind trees ∧
        Derives g tokens r (.items es) q u log) := by
  cases h with
  | itemsStop hd => exact ⟨_, _, hd, .inl ⟨rfl, rfl⟩⟩
  | itemsMatch hd hrest => exact ⟨_, _, hd, .inr ⟨_, _, .matched _ _, _, rfl, rfl, hrest⟩⟩
  | itemsFail hd hrest => exact ⟨_, _, hd, .inr ⟨_, _, .failed, _, rfl, rfl, hrest⟩⟩

theorem turns_behind (h : Derives g tokens r (.turns e) p v log) :
    ∃ w log, Derives g tokens r (.expr e) p w log ∧
      ((∀ q trees, w = .matched q trees → q = p) ∧ v = .matched p [] ∨
        ∃ q trees u log, w = .matched q trees ∧ q ≠ p ∧ v = u.behind trees ∧
          Derives g tokens r (.turns e) q u log) := by
  cases h with
  | turnsStop hd => exact ⟨_, _, hd, .inl ⟨nofun, rfl⟩⟩
  | turnsEmpty hd => exact ⟨_, _, hd, .inl ⟨fun _ _ h => by cases h; rfl, rfl⟩⟩
  | turnsMatch hd hq hrest => exact ⟨_, _, hd, .inr ⟨_, _, .matched _ _, _, rfl, hq, rfl, hrest⟩⟩

theorem plus_turns (h : Derives g tokens r (.expr (.plus e)) p v log) :
    ∃ w log, Derives g tokens r (.expr e) p w log ∧
      (w = .failed ∧ v = .failed ∨
        w ≠ .failed ∧ ∃ log, Derives g tokens r (.turns e) p v log) := by
  cases h with
  | plusFail hd => exact ⟨_, _, hd, .inl ⟨rfl, rfl⟩⟩
  | plusEmpty hd => exact ⟨_, _, hd, .inr ⟨nofun, _, .turnsEmpty hd⟩⟩
  | plusMatch hd hq hrest => exact ⟨_, _, hd, .inr ⟨nofun, _, .turnsMatch hd hq hrest⟩⟩

end Derives

/-! ## Where verdicts differ -/

namespace Differ

variable {e e' : Expr} {es es' : List Expr}

theorem eq_of_not {t t' : Task} {v v' : Verdict} {log log' : List Attempt}
    (hsame : ¬ Differ g g' tokens r t t' p) (h : Derives g tokens r t p v log)
    (h' : Derives g' tokens r t' p v' log') : v = v' :=
  by_contra fun hne => hsame ⟨_, _, _, _, h, h', hne⟩

theorem rule {s : Rule} {body body' : Expr} {collapse : Bool}
    (hf : g.find? s = some ⟨body, collapse⟩) (hf' : g'.find? s = some ⟨body', collapse⟩)
    (h : Differ g g' tokens r (.expr (.rule s)) (.expr (.rule s)) p) :
    Differ g g' tokens s (.expr body) (.expr body') p := by
  obtain ⟨_, _, _, _, hrule, hrule', hne⟩ := h
  obtain ⟨w, rfl, hd⟩ := hrule.of_rule hf
  obtain ⟨w', rfl, hd'⟩ := hrule'.of_rule hf'
  exact ⟨w, w', _, _, hd, hd', fun heq => hne (by cases heq; cases w <;> rfl)⟩

theorem seq (h : Differ g g' tokens r (.expr (.seq es)) (.expr (.seq es')) p) :
    Differ g g' tokens r (.items es) (.items es') p := by
  obtain ⟨_, _, _, _, h, h', hne⟩ := h
  cases h with
  | seq hd =>
    cases h' with
    | seq hd' => exact ⟨_, _, _, _, hd, hd', hne⟩

theorem single (h : Differ g g' tokens r (.expr e) (.expr (.seq es')) p) :
    Differ g g' tokens r (.items [e]) (.items es') p := by
  obtain ⟨_, _, _, _, h, h', hne⟩ := h
  obtain ⟨_, hd⟩ := h.single
  cases h' with
  | seq hd' => exact ⟨_, _, _, _, hd, hd', hne⟩

/-- Where sequences differ, their first items do, or these match alike and what is behind them
differs. -/
theorem items (h : Differ g g' tokens r (.items (e :: es)) (.items (e' :: es')) p) :
    Differ g g' tokens r (.expr e) (.expr e') p ∨
      ∃ q trees log log', Derives g tokens r (.expr e) p (.matched q trees) log ∧
        Derives g' tokens r (.expr e') p (.matched q trees) log' ∧
        Differ g g' tokens r (.items es) (.items es') q := by
  refine or_iff_not_imp_left.2 fun hsame => ?_
  obtain ⟨_, _, _, _, h, h', hne⟩ := h
  obtain ⟨w, _, hd, hv⟩ := h.items_behind
  obtain ⟨w', _, hd', hv'⟩ := h'.items_behind
  cases eq_of_not hsame hd hd'
  rcases hv with ⟨rfl, rfl⟩ | ⟨q, trees, u, _, rfl, rfl, hrest⟩ <;>
    rcases hv' with ⟨hw, rfl⟩ | ⟨_, _, u', _, hw, rfl, hrest'⟩ <;> cases hw
  · exact absurd rfl hne
  · exact ⟨q, trees, _, _, hd, hd', u, u', _, _, hrest, hrest', fun heq => hne (by rw [heq])⟩

theorem choice (h : Differ g g' tokens r (.expr (.choice es)) (.expr (.choice es')) p) :
    Differ g g' tokens r (.alternatives es) (.alternatives es') p := by
  obtain ⟨_, _, _, _, h, h', hne⟩ := h
  cases h with
  | choice hd =>
    cases h' with
    | choice hd' => exact ⟨_, _, _, _, hd, hd', hne⟩

theorem only (h : Differ g g' tokens r (.expr e) (.expr (.choice es')) p) :
    Differ g g' tokens r (.alternatives [e]) (.alternatives es') p := by
  obtain ⟨_, _, _, _, h, h', hne⟩ := h
  obtain ⟨_, hd⟩ := h.only
  cases h' with
  | choice hd' => exact ⟨_, _, _, _, hd, hd', hne⟩

/-- Where choices differ, their first alternatives do, or these fail alike and the others differ. -/
theorem alternatives
    (h : Differ g g' tokens r (.alternatives (e :: es)) (.alternatives (e' :: es')) p) :
    Differ g g' tokens r (.expr e) (.expr e') p ∨
      ∃ log log', Derives g tokens r (.expr e) p .failed log ∧
        Derives g' tokens r (.expr e') p .failed log' ∧
        Differ g g' tokens r (.alternatives es) (.alternatives es') p := by
  refine or_iff_not_imp_left.2 fun hsame => ?_
  obtain ⟨_, _, _, _, h, h', hne⟩ := h
  cases h with
  | alternativesMatch hd =>
    cases h' with
    | alternativesMatch hd' => exact absurd (eq_of_not hsame hd hd') hne
    | alternativesNext hd' _ => cases eq_of_not hsame hd hd'
  | alternativesNext hd hrest =>
    cases h' with
    | alternativesMatch hd' => cases eq_of_not hsame hd hd'
    | alternativesNext hd' hrest' => exact ⟨_, _, hd, hd', _, _, _, _, hrest, hrest', hne⟩

theorem option (h : Differ g g' tokens r (.expr (.option e)) (.expr (.option e')) p) :
    Differ g g' tokens r (.expr e) (.expr e') p := by
  by_contra hsame
  obtain ⟨_, _, _, _, h, h', hne⟩ := h
  cases h with
  | optionMatch hd =>
    cases h' with
    | optionMatch hd' => exact hne (eq_of_not hsame hd hd')
    | optionSkip hd' => cases eq_of_not hsame hd hd'
  | optionSkip hd =>
    cases h' with
    | optionMatch hd' => cases eq_of_not hsame hd hd'
    | optionSkip => exact hne rfl

/-- Where sequences differ of which the second one may leave out its operand, the operands do, or these
match alike and what is behind them differs, or it is left out and what may stand in for it is present. -/
theorem operand {d' : Expr} {log : List Attempt} {q : Nat} {trees : List Tree}
    (hd' : Derives g' tokens r (.expr (.option e')) p (.matched q trees) log)
    (h : Differ g g' tokens r (.items (e :: es)) (.items (.option e' :: d' :: es')) p) :
    Differ g g' tokens r (.expr (.option e)) (.expr (.option e')) p ∨
      (∃ log, Derives g tokens r (.expr e) p (.matched q trees) log ∧
        Differ g g' tokens r (.items es) (.items (d' :: es')) q) ∨
      .matched q trees = Verdict.matched p [] ∧
        ∃ stop trees log, Derives g' tokens r (.expr d') p (.matched stop trees) log := by
  refine or_iff_not_imp_left.2 fun hsame => ?_
  obtain ⟨_, _, _, _, h, h', hne⟩ := h
  obtain ⟨w, _, hd, hv⟩ := h.items_behind
  obtain ⟨w', _, hw', hv'⟩ := h'.items_behind
  cases (hw'.unique hd').1
  obtain ⟨hw, -⟩ | ⟨_, _, u', _, hw, rfl, hrest'⟩ := hv' <;> cases hw
  rcases hv with ⟨rfl, rfl⟩ | ⟨_, _, u, _, rfl, rfl, hrest⟩
  · have hleft := eq_of_not hsame (.optionSkip hd) hd'
    cases hleft
    refine .inr ⟨rfl, ?_⟩
    cases hrest' with
    | itemsMatch hsign _ => exact ⟨_, _, _, hsign⟩
    | itemsStop | itemsFail => exact absurd rfl hne
  · cases eq_of_not hsame (.optionMatch hd) hd'
    exact .inl ⟨_, hd, u, u', _, _, hrest, hrest', fun heq => hne (by rw [heq])⟩

theorem star (h : Differ g g' tokens r (.expr (.star e)) (.expr (.star e')) p) :
    Differ g g' tokens r (.turns e) (.turns e') p := by
  obtain ⟨_, _, _, _, h, h', hne⟩ := h
  cases h with
  | star hd =>
    cases h' with
    | star hd' => exact ⟨_, _, _, _, hd, hd', hne⟩

/-- Where repetitions differ, their first turns do, or these get on alike and the others differ. -/
theorem turns (h : Differ g g' tokens r (.turns e) (.turns e') p) :
    Differ g g' tokens r (.expr e) (.expr e') p ∨
      ∃ q trees log log', Derives g tokens r (.expr e) p (.matched q trees) log ∧
        Derives g' tokens r (.expr e') p (.matched q trees) log' ∧ q ≠ p ∧
        Differ g g' tokens r (.turns e) (.turns e') q := by
  refine or_iff_not_imp_left.2 fun hsame => ?_
  obtain ⟨_, _, _, _, h, h', hne⟩ := h
  obtain ⟨w, _, hd, hv⟩ := h.turns_behind
  obtain ⟨w', _, hd', hv'⟩ := h'.turns_behind
  cases eq_of_not hsame hd hd'
  rcases hv with ⟨hstop, rfl⟩ | ⟨q, trees, u, _, rfl, hq, rfl, hrest⟩ <;>
    rcases hv' with ⟨hstop', rfl⟩ | ⟨_, _, u', _, hw, hq', rfl, hrest'⟩
  · exact absurd rfl hne
  · exact absurd (hstop _ _ hw) hq'
  · exact absurd (hstop' _ _ rfl) hq
  · cases hw
    exact ⟨q, trees, _, _, hd, hd', hq, u, u', _, _, hrest, hrest', fun heq => hne (by rw [heq])⟩

theorem plus (h : Differ g g' tokens r (.expr (.plus e)) (.expr (.plus e')) p) :
    Differ g g' tokens r (.expr e) (.expr e') p ∨
      ∃ q trees log log', Derives g tokens r (.expr e) p (.matched q trees) log ∧
        Derives g' tokens r (.expr e') p (.matched q trees) log' ∧ q ≠ p ∧
        Differ g g' tokens r (.turns e) (.turns e') q := by
  refine or_iff_not_imp_left.2 fun hsame => ?_
  obtain ⟨_, _, _, _, h, h', hne⟩ := h
  obtain ⟨w, _, hd, hv⟩ := h.plus_turns
  obtain ⟨w', _, hd', hv'⟩ := h'.plus_turns
  cases eq_of_not hsame hd hd'
  rcases hv with ⟨rfl, rfl⟩ | ⟨hw, _, hturns⟩ <;>
    rcases hv' with ⟨hw', rfl⟩ | ⟨hw', _, hturns'⟩
  · exact absurd rfl hne
  · exact absurd rfl hw'
  · exact absurd hw' hw
  · exact (turns ⟨_, _, _, _, hturns, hturns', hne⟩).resolve_left hsame

theorem followedBy
    (h : Differ g g' tokens r (.expr (.followedBy e)) (.expr (.followedBy e')) p) :
    Differ g g' tokens r (.expr e) (.expr e') p := by
  by_contra hsame
  obtain ⟨_, _, _, _, h, h', hne⟩ := h
  cases h with
  | aheadMatch hd =>
    cases h' with
    | aheadMatch => exact hne rfl
    | aheadFail hd' => cases eq_of_not hsame hd hd'
  | aheadFail hd =>
    cases h' with
    | aheadMatch hd' => cases eq_of_not hsame hd hd'
    | aheadFail => exact hne rfl

theorem notFollowedBy
    (h : Differ g g' tokens r (.expr (.notFollowedBy e)) (.expr (.notFollowedBy e')) p) :
    Differ g g' tokens r (.expr e) (.expr e') p := by
  by_contra hsame
  obtain ⟨_, _, _, _, h, h', hne⟩ := h
  cases h with
  | notAheadMatch hd =>
    cases h' with
    | notAheadMatch => exact hne rfl
    | notAheadFail hd' => cases eq_of_not hsame hd hd'
  | notAheadFail hd =>
    cases h' with
    | notAheadMatch hd' => cases eq_of_not hsame hd hd'
    | notAheadFail => exact hne rfl

end Differ

theorem Meets.whole {r₁ : Rule} {t u : Task} {q : Nat} (h : Meets g tokens added r₁ u q)
    (hpart : ∀ x i, Tries g tokens x i r₁ u q → Tries g tokens x i r t p) :
    Meets g tokens added r t p := by
  obtain ⟨c, hc, i, htries, hsign⟩ := h
  exact ⟨c, hc, i, hpart _ _ htries, hsign⟩

end PackratCpp
