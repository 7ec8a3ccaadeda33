/-
  What is foreseen comes about.

  * `Window.Fits`: a stream has the tokens of a window, and the rules come to what is known of them.
  * `Window.Fits.of_foresee`, `Window.Fits.gives`: what is foreseen of an expression or of a rule is its
    verdict in every stream that fits the window.
  * `Extensions.foresee`: what a window tells of some rules with some extensions, as a check.
    `Window.Fits.gives_of_foreseen`: what passes it with all extensions holds in every dialect.
-/
import PackratCpp.Proofs.Agreement
import PackratCpp.Proofs.Standard
import PackratCpp.Proofs.Window

namespace PackratCpp

/-! ## Soundness -/

/-- A stream has the tokens of a window, from `p` and from `c` on, and the rules come to what is known,
with some given trees. -/
structure Window.Fits (w : Window) (g : Grammar) (tokens : TokenStream) (p c : Nat)
    (given : Nat → Tree) : Prop where
  apart : p + w.near.length ≤ c
  near : g.SeesRun tokens p w.near
  far : g.SeesRun tokens c w.far
  known : ∀ fact ∈ w.known, g.Gives tokens fact.rule (w.place p c fact.spot)
    (fact.outlook.verdict (w.place p c) given)

namespace Window

variable {w : Window} {g : Grammar} {tokens : TokenStream} {p c : Nat} {given : Nat → Tree}

theorem place_lt (h : p + w.near.length ≤ c) {k k' : Nat} (hk : k < k') :
    w.place p c k < w.place p c k' := by
  unfold place
  split_ifs <;> omega

theorem place_succ {k : Nat} (hk : k + 1 ≠ w.near.length) :
    w.place p c (k + 1) = w.place p c k + 1 := by
  unfold place
  split_ifs <;> omega

theorem place_ne (h : p + w.near.length ≤ c) {k k' : Nat} (hk : k ≠ k') :
    w.place p c k ≠ w.place p c k' := by
  rcases Nat.lt_or_gt_of_ne hk with hlt | hlt
  · exact Nat.ne_of_lt (place_lt h hlt)
  · exact Nat.ne_of_gt (place_lt h hlt)

namespace Fits

section
variable (hw : w.Fits g tokens p c given)
include hw

theorem sees {k : Nat} {sights : List Sight} (h : w.sights? k = some sights) :
    ∃ sight ∈ sights, g.Sees tokens (w.place p c k) sight := by
  unfold sights? at h
  unfold place
  split_ifs with hk
  · rw [List.getElem?_append_left hk] at h
    exact hw.near.sees h
  · rw [List.getElem?_append_right (Nat.le_of_not_lt hk)] at h
    exact hw.far.sees h

theorem of_test {passes : Sight → Bool} {k : Nat} {outlook : Outlook}
    (h : w.test passes k = some outlook) : ∃ t, tokens.get? (w.place p c k) = some t ∧
      ∃ sight, g.Shows sight t ∧
        (passes sight = true ∧ outlook = .matched (k + 1) [.leaf k] ∧
            w.place p c (k + 1) = w.place p c k + 1 ∨
          passes sight = false ∧ outlook = .failed) := by
  unfold test at h
  split at h
  · cases h
  · next sights hsights =>
    obtain ⟨sight, hm, t, ht, hshows⟩ := hw.sees hsights
    refine ⟨t, ht, sight, hshows, ?_⟩
    split_ifs at h with hall hend hany
    · cases h
      exact Or.inl ⟨List.all_eq_true.1 hall sight hm, rfl, place_succ hend⟩
    · cases h
      refine Or.inr ⟨Bool.eq_false_iff.2 fun hp => hany ?_, rfl⟩
      exact List.any_eq_true.2 ⟨sight, hm, hp⟩

theorem of_known {r q : Rule} {k : Nat} {outlook : Outlook} (h : w.known? r k = some outlook) :
    ∃ log, Derives g tokens q (.expr (.rule r)) (w.place p c k)
      (outlook.verdict (w.place p c) given) log := by
  obtain ⟨fact, hfact, rfl⟩ := Option.map_eq_some_iff.1 h
  have hm := List.mem_of_find?_eq_some hfact
  have hp := List.find?_some hfact
  simp only [Bool.and_eq_true, decide_eq_true_eq] at hp
  obtain ⟨rfl, rfl⟩ := hp
  exact hw.known fact hm q

/-- **Turns that are foreseen are taken.**  The induction is on their number. -/
theorem of_turns {r : Rule} {body : Nat → Option Outlook} {e : Expr}
    (hbody : ∀ k outlook, body k = some outlook → ∃ log,
      Derives g tokens r (.expr e) (w.place p c k) (outlook.verdict (w.place p c) given) log) :
    ∀ n k outlook, turns body n k = some outlook → ∃ log,
      Derives g tokens r (.turns e) (w.place p c k) (outlook.verdict (w.place p c) given) log := by
  intro n
  induction n with
  | zero =>
    intro k outlook h
    cases h
  | succ n ih =>
    intro k outlook h
    rw [turns] at h
    split at h
    · cases h
    · next hfailed =>
      cases h
      obtain ⟨log, hd⟩ := hbody k _ hfailed
      exact ⟨log, .turnsStop hd⟩
    · next q sketches hmatched =>
      obtain ⟨log, hd⟩ := hbody k _ hmatched
      split_ifs at h with hq
      · subst hq
        cases h
        exact ⟨log, .turnsEmpty hd⟩
      · split at h
        · next stop sketches' hrest =>
          cases h
          obtain ⟨log', hd'⟩ := ih q _ hrest
          refine ⟨log ++ log', ?_⟩
          rw [Outlook.verdict, Sketch.trees_append]
          exact .turnsMatch hd (place_ne hw.apart hq) hd'
        · cases h

end

/-- What is foreseen of rules is their verdict, in the body of the rule `r`. -/
def Calls (w : Window) (g : Grammar) (tokens : TokenStream) (p c : Nat) (given : Nat → Tree)
    (call : Rule → Nat → Option Outlook) (r : Rule) : Prop :=
  ∀ s k outlook, call s k = some outlook → ∃ log,
    Derives g tokens r (.expr (.rule s)) (w.place p c k) (outlook.verdict (w.place p c) given) log

section
variable {r : Rule} {call : Rule → Nat → Option Outlook} {room : Nat}

mutual

/-- **What is foreseen of an expression is its verdict**, if what is foreseen of rules is theirs and the
grammar looks for the spellings that the expression looks for. -/
theorem of_foresee (hw : w.Fits g tokens p c given)
    (hcall : Calls w g tokens p c given call r) : ∀ (e : Expr),
    (∀ s ∈ e.sought, g.Spells s) → ∀ k outlook, e.foresee w call room k = some outlook →
    ∃ log, Derives g tokens r (.expr e) (w.place p c k) (outlook.verdict (w.place p c) given) log
  | .token test, hs, k, outlook, h => by
    rw [Expr.foresee] at h
    obtain ⟨t, ht, sight, hshows, hcase⟩ := hw.of_test h
    have haccepts := hshows.accepts_eq test hs
    rcases hcase with ⟨hp, rfl, hnext⟩ | ⟨hp, rfl⟩
    · refine ⟨[], ?_⟩
      rw [Outlook.verdict, hnext]
      exact .tokenPass ht (haccepts.trans hp)
    · exact ⟨_, .tokenFail ht (haccepts.trans hp)⟩
  | .anyToken, _, k, outlook, h => by
    rw [Expr.foresee] at h
    obtain ⟨t, ht, sight, hshows, hcase⟩ := hw.of_test h
    have heof := hshows.isEof_eq
    rcases hcase with ⟨hp, rfl, hnext⟩ | ⟨hp, rfl⟩
    · refine ⟨[], ?_⟩
      rw [Outlook.verdict, hnext]
      exact .anyPass ht (by rw [heof, hp]; rfl)
    · refine ⟨_, .anyFail fun u hu => ?_⟩
      rw [ht] at hu
      cases hu
      rw [heof, hp]
      rfl
  | .rule s, _, k, outlook, h => hcall s k outlook h
  | .seq es, hs, k, outlook, h => by
    obtain ⟨log, hd⟩ := of_foreseeItems hw hcall es hs k outlook h
    exact ⟨log, .seq hd⟩
  | .choice es, hs, k, outlook, h => by
    obtain ⟨log, hd⟩ := of_foreseeAlternatives hw hcall es hs k outlook h
    exact ⟨log, .choice hd⟩
  | .option e, hs, k, outlook, h => by
    rw [Expr.foresee] at h
    split at h
    · next hfailed =>
      cases h
      obtain ⟨log, hd⟩ := of_foresee hw hcall e hs k _ hfailed
      exact ⟨log, .optionSkip hd⟩
    · next hne =>
      obtain ⟨log, hd⟩ := of_foresee hw hcall e hs k outlook h
      cases outlook with
      | failed => exact absurd h hne
      | matched => exact ⟨log, .optionMatch hd⟩
  | .star e, hs, k, outlook, h => by
    rw [Expr.foresee] at h
    obtain ⟨log, hd⟩ := hw.of_turns (of_foresee hw hcall e hs) room k outlook h
    exact ⟨log, .star hd⟩
  | .plus e, hs, k, outlook, h => by
    rw [Expr.foresee] at h
    split at h
    · next q sketches hmatched =>
      obtain ⟨log, hd⟩ := of_foresee hw hcall e hs k _ hmatched
      split_ifs at h with hq
      · subst hq
        cases h
        exact ⟨log, .plusEmpty hd⟩
      · split at h
        · next stop sketches' hrest =>
          cases h
          obtain ⟨log', hd'⟩ := hw.of_turns (of_foresee hw hcall e hs) room q _ hrest
          refine ⟨log ++ log', ?_⟩
          rw [Outlook.verdict, Sketch.trees_append]
          exact .plusMatch hd (place_ne hw.apart hq) hd'
        · cases h
    · next hne =>
      obtain ⟨log, hd⟩ := of_foresee hw hcall e hs k outlook h
      cases outlook with
      | failed => exact ⟨log, .plusFail hd⟩
      | matched q sketches => exact absurd h (hne q sketches)
  | .followedBy e, hs, k, outlook, h => by
    rw [Expr.foresee] at h
    split at h
    · next q sketches hmatched =>
      cases h
      obtain ⟨log, hd⟩ := of_foresee hw hcall e hs k _ hmatched
      exact ⟨log, .aheadMatch hd⟩
    · next hne =>
      obtain ⟨log, hd⟩ := of_foresee hw hcall e hs k outlook h
      cases outlook with
      | failed => exact ⟨log, .aheadFail hd⟩
      | matched q sketches => exact absurd h (hne q sketches)
  | .notFollowedBy e, hs, k, outlook, h => by
    rw [Expr.foresee] at h
    split at h
    · next q sketches hmatched =>
      cases h
      obtain ⟨log, hd⟩ := of_foresee hw hcall e hs k _ hmatched
      exact ⟨log, .notAheadMatch hd⟩
    · next hfailed =>
      cases h
      obtain ⟨log, hd⟩ := of_foresee hw hcall e hs k _ hfailed
      exact ⟨log, .notAheadFail hd⟩
    · cases h
  | .epsilon, _, k, outlook, h => by
    cases h
    exact ⟨_, .epsilon⟩
  | .never, _, k, outlook, h => by
    cases h
    exact ⟨_, .never⟩

theorem of_foreseeItems (hw : w.Fits g tokens p c given)
    (hcall : Calls w g tokens p c given call r) : ∀ (es : List Expr),
    (∀ s ∈ Expr.soughtAll es, g.Spells s) →
    ∀ k outlook, Expr.foreseeItems w call room es k = some outlook → ∃ log,
      Derives g tokens r (.items es) (w.place p c k) (outlook.verdict (w.place p c) given) log
  | [], _, k, outlook, h => by
    cases h
    exact ⟨_, .itemsDone⟩
  | e :: es, hs, k, outlook, h => by
    have hfirst : ∀ s ∈ e.sought, g.Spells s := fun s hm => hs s (List.mem_append_left _ hm)
    have hrest : ∀ s ∈ Expr.soughtAll es, g.Spells s := fun s hm =>
      hs s (List.mem_append_right _ hm)
    rw [Expr.foreseeItems] at h
    split at h
    · next q sketches hmatched =>
      obtain ⟨log, hd⟩ := of_foresee hw hcall e hfirst k _ hmatched
      split at h
      · next stop sketches' hmatched' =>
        cases h
        obtain ⟨log', hd'⟩ := of_foreseeItems hw hcall es hrest q _ hmatched'
        refine ⟨log ++ log', ?_⟩
        rw [Outlook.verdict, Sketch.trees_append]
        exact .itemsMatch hd hd'
      · next hne =>
        obtain ⟨log', hd'⟩ := of_foreseeItems hw hcall es hrest q outlook h
        cases outlook with
        | failed => exact ⟨log ++ log', .itemsFail hd hd'⟩
        | matched stop sketches' => exact absurd h (hne stop sketches')
    · next hne =>
      obtain ⟨log, hd⟩ := of_foresee hw hcall e hfirst k outlook h
      cases outlook with
      | failed => exact ⟨log, .itemsStop hd⟩
      | matched q sketches => exact absurd h (hne q sketches)

theorem of_foreseeAlternatives (hw : w.Fits g tokens p c given)
    (hcall : Calls w g tokens p c given call r) : ∀ (es : List Expr),
    (∀ s ∈ Expr.soughtAll es, g.Spells s) →
    ∀ k outlook, Expr.foreseeAlternatives w call room es k = some outlook → ∃ log,
      Derives g tokens r (.alternatives es) (w.place p c k) (outlook.verdict (w.place p c) given) log
  | [], _, k, outlook, h => by
    cases h
    exact ⟨_, .alternativesDone⟩
  | e :: es, hs, k, outlook, h => by
    have hfirst : ∀ s ∈ e.sought, g.Spells s := fun s hm => hs s (List.mem_append_left _ hm)
    rw [Expr.foreseeAlternatives] at h
    split at h
    · next hfailed =>
      obtain ⟨log, hd⟩ := of_foresee hw hcall e hfirst k _ hfailed
      obtain ⟨log', hd'⟩ := of_foreseeAlternatives hw hcall es
        (fun s hm => hs s (List.mem_append_right _ hm)) k outlook h
      exact ⟨log ++ log', .alternativesNext hd hd'⟩
    · next hne =>
      obtain ⟨log, hd⟩ := of_foresee hw hcall e hfirst k outlook h
      cases outlook with
      | failed => exact absurd h hne
      | matched => exact ⟨log, .alternativesMatch hd⟩

end

end

/-- **What is foreseen of a rule is its verdict** in every stream that fits the window.  The induction is on
the room. -/
theorem gives (hw : w.Fits g tokens p c given) {find : Rule → Option Production}
    (hfind : ∀ s production, find s = some production → g.find? s = some production) (room : Nat)
    (r : Rule) (k : Nat) (outlook : Outlook) (h : w.call find room r k = some outlook) :
    g.Gives tokens r (w.place p c k) (outlook.verdict (w.place p c) given) := by
  intro q
  induction room generalizing q r k outlook with
  | zero => cases h
  | succ room ih =>
    rw [call] at h
    split at h
    · next known hknown =>
      cases h
      exact hw.of_known hknown
    · split at h
      · cases h
      · next production hproduction =>
        have hf := hfind r production hproduction
        have hcall : Calls w g tokens p c given (w.call find room) r := fun s k outlook hs =>
          ih s k outlook hs r
        have hbody : ∀ outlook, production.body.foresee w (w.call find room) room k = some outlook →
            ∃ log, Derives g tokens r (.expr production.body) (w.place p c k)
              (outlook.verdict (w.place p c) given) log :=
          of_foresee hw hcall production.body (fun s hm => ⟨r, production, hf, hm⟩) k
        split at h
        · next stop sketches hmatched =>
          cases h
          obtain ⟨log, hd⟩ := hbody _ hmatched
          have htree : Sketch.trees (w.place p c) given
                (if stop = k then [] else [production.sketch r k stop sketches]) =
              (production.tree? r (w.place p c k) (w.place p c stop)
                (Sketch.trees (w.place p c) given sketches)).toList := by
            rw [Production.tree?]
            by_cases heq : stop = k
            · rw [if_pos heq, if_pos (by rw [heq])]
              rfl
            · rw [if_neg heq, if_neg (place_ne hw.apart heq), Sketch.trees, Sketch.trees,
                Production.tree_sketch]
              rfl
          refine ⟨log, ?_⟩
          rw [Outlook.verdict, htree]
          exact .ruleMatch hf hd
        · next hne =>
          obtain ⟨log, hd⟩ := hbody outlook h
          cases outlook with
          | failed => exact ⟨log, .ruleFail hf hd⟩
          | matched stop sketches => exact absurd h (hne stop sketches)

end Fits

end Window

/-! ## Checks -/

namespace Sketch

mutual

/-- Whether two sketches are the same. -/
def same : Sketch → Sketch → Bool
  | .leaf k, .leaf k' => Nat.beq k k'
  | .node r s e cs, .node r' s' e' cs' =>
    decide (r = r') && Nat.beq s s' && Nat.beq e e' && sameAll cs cs'
  | .given i, .given i' => Nat.beq i i'
  | _, _ => false

/-- Whether some sketches are the same one by one. -/
def sameAll : List Sketch → List Sketch → Bool
  | [], [] => true
  | s :: ss, s' :: ss' => same s s' && sameAll ss ss'
  | _, _ => false

end

mutual

theorem eq_of_same : ∀ s s' : Sketch, s.same s' = true → s = s'
  | .leaf k, .leaf k', h => by
    rw [Nat.eq_of_beq_eq_true h]
  | .node r s e cs, .node r' s' e' cs', h => by
    simp only [same, Bool.and_eq_true, decide_eq_true_eq] at h
    obtain ⟨⟨⟨rfl, hs⟩, he⟩, hcs⟩ := h
    rw [Nat.eq_of_beq_eq_true hs, Nat.eq_of_beq_eq_true he, eq_of_sameAll cs cs' hcs]
  | .given i, .given i', h => by
    rw [Nat.eq_of_beq_eq_true h]
  | .leaf _, .node .., h | .leaf _, .given _, h | .node .., .leaf _, h | .node .., .given _, h
  | .given _, .leaf _, h | .given _, .node .., h => nomatch h

theorem eq_of_sameAll : ∀ ss ss' : List Sketch, sameAll ss ss' = true → ss = ss'
  | [], [], _ => rfl
  | s :: ss, s' :: ss', h => by
    rw [sameAll, Bool.and_eq_true] at h
    rw [eq_of_same s s' h.1, eq_of_sameAll ss ss' h.2]
  | [], _ :: _, h | _ :: _, [], h => nomatch h

end

end Sketch

/-- Whether the outlook is this one. -/
def Outlook.isIt : Outlook → Option Outlook → Bool
  | .matched stop sketches, some (.matched stop' sketches') =>
    Nat.beq stop stop' && Sketch.sameAll sketches sketches'
  | .failed, some .failed => true
  | _, _ => false

theorem Outlook.eq_of_isIt {outlook : Outlook} {outlook? : Option Outlook}
    (h : outlook.isIt outlook? = true) : outlook? = some outlook := by
  unfold isIt at h
  split at h
  · rw [Bool.and_eq_true] at h
    rw [Nat.eq_of_beq_eq_true h.1, Sketch.eq_of_sameAll _ _ h.2]
  · rfl
  · cases h

/-- The body of a rule with some extensions.  The translation unit is left out, since it is not the same
with and without recovery. -/
def Extensions.body? (ext : Extensions) (r : Rule) : Option Production :=
  if r = .translationUnit then Option.none else Dialect.body? false ext r

theorem Dialect.find?_of_body? {d : Dialect} {r : Rule} {production : Production}
    (h : d.extensions.body? r = some production) : (d.grammar []).find? r = some production := by
  unfold Extensions.body? at h
  split_ifs at h with hr
  have htop : (Rules.topLevel d.errorRecovery).findSome? (·.body? r) =
      (Rules.topLevel false).findSome? (·.body? r) := by
    simp [Rules.topLevel, define, GrammarStep.body?, Ne.symm hr]
  have hbody := findSome?_rules ⟨false, d.language, d.extensions⟩ r
  rw [find?_grammar_of_not_mem List.not_mem_nil, ← h, ← hbody]
  unfold rules
  simp only [List.findSome?_append, htop]

/-- Whether a step gives a body that does not look for a spelling. -/
def GrammarStep.avoids (s : String) : GrammarStep → Bool
  | .define _ body _ => s ∉ body.sought
  | .mock _ => true

theorem Dialect.not_spells {d : Dialect} {s : String}
    (h : ∀ step ∈ d.rules, step.avoids s = true) : ¬ (d.grammar []).Spells s := by
  rintro ⟨r, production, hf, hm⟩
  have havoids := h _ (define_of_find? List.not_mem_nil hf)
  exact of_decide_eq_true havoids hm

theorem Dialect.sees_name {d : Dialect} {tokens : TokenStream} {i : Nat} {t : Token}
    {names : List String} (ht : tokens.get? i = some t)
    (hs : (names.all fun s => d.rules.all fun step => step.avoids s) = true)
    (h : t.kind = .identifier ∧ t.text ∈ names) : (d.grammar []).Sees tokens i .name :=
  ⟨t, ht, .name h.1 (not_spells (List.all_eq_true.1 (List.all_eq_true.1 hs _ h.2)))⟩

theorem Grammar.sees_word {g : Grammar} {tokens : TokenStream} {i : Nat} {t : Token} {s : String}
    (ht : tokens.get? i = some t) (h : t.kind = .keyword ∧ t.text = s) :
    g.Sees tokens i (.word s) := by
  obtain ⟨hk, rfl⟩ := h
  exact ⟨t, ht, .word hk⟩

theorem Grammar.sees_symbol {g : Grammar} {tokens : TokenStream} {i : Nat} {t : Token} {s : String}
    (ht : tokens.get? i = some t) (h : t.kind = .punctuator ∧ t.text = s) :
    g.Sees tokens i (.symbol s) := by
  obtain ⟨hk, rfl⟩ := h
  exact ⟨t, ht, .symbol hk⟩

/-- How many rules are looked into inside of each other. -/
def Window.room : Nat := 60

/-- A window with what is to be foreseen in it. -/
structure Prospect where
  window : Window
  facts : List Known

/-- Whether some prospects are right with some extensions.  They are checked together since most of the
work is to find the rules. -/
def Extensions.foresee (ext : Extensions) (prospects : List Prospect) : Bool :=
  prospects.all fun prospect => prospect.facts.all fun fact =>
    fact.outlook.isIt (prospect.window.call ext.body? Window.room fact.rule fact.spot)

/-- **What is foreseen with all extensions holds in every dialect**: fact number `j` of prospect number
`i`. -/
theorem Window.Fits.gives_of_foreseen {d : Dialect} {w : Window} {tokens : TokenStream} {p c : Nat}
    {given : Nat → Tree} (hw : w.Fits (d.grammar []) tokens p c given) {prospects : List Prospect}
    (hall : ∀ gnu managed atl : Bool, Extensions.foresee ⟨gnu, managed, atl⟩ prospects = true)
    {facts : List Known} (i : Nat) (hprospect : prospects[i]? = some ⟨w, facts⟩) {r : Rule} {k : Nat}
    {outlook : Outlook} (j : Nat) (hfact : facts[j]? = some ⟨r, k, outlook⟩) :
    (d.grammar []).Gives tokens r (w.place p c k) (outlook.verdict (w.place p c) given) := by
  have hext := hall d.extensions.gnu d.extensions.managed d.extensions.attributedAtl
  have hfacts := List.all_eq_true.1 hext _ (List.mem_of_getElem? hprospect)
  have hright := List.all_eq_true.1 hfacts _ (List.mem_of_getElem? hfact)
  exact hw.gives (fun _ _ => Dialect.find?_of_body?) Window.room r k outlook
    (Outlook.eq_of_isIt hright)

theorem Grammar.Gives.parse {g : Grammar} {tokens : TokenStream} {root : Rule} {stop : Nat} {t : Tree}
    (h : g.Gives tokens root 0 (.matched stop [t]))
    (hstop : stop = tokens.eofIndex ∨ stop = tokens.length) :
    ∃ r, g.parse tokens root none = .ok r ∧ r.tree = t := by
  obtain ⟨log, hd⟩ := h root
  generalize hv : Verdict.matched stop [t] = v at hd
  cases hd with
  | ruleMatch hf hbody =>
    obtain ⟨rfl, htree⟩ := Verdict.matched.inj hv
    obtain ⟨r, hr, hrtree, -⟩ :=
      parse_of_matched hf (unlimited_unrefused_iff.2 ⟨_, _, hbody⟩) hbody hstop
    refine ⟨r, hr, ?_⟩
    unfold Production.tree? at htree
    split at htree
    · cases htree
    · rw [hrtree]
      exact (List.singleton_inj.1 htree).symm
  | ruleFail => cases hv
  | ruleMissing => cases hv

end PackratCpp
