/-
  What becomes of a single stream.

  * `Window.of`: the window of a whole stream.  `Window.fits_of`: the stream fits it.
  * `Dialect.forecast`: the tree of a stream, or that there is none, as far as its window tells.
    `Dialect.tree?_of_forecast`: so it is for a parse without a limit.
-/
import PackratCpp.Proofs.Foresight

namespace PackratCpp

variable {g : Grammar} {tokens : TokenStream}

/-! ## Windows of streams -/

/-- All tokens of a stream, as one run that starts at its first token. -/
def Window.of (tokens : TokenStream) : Window :=
  ⟨[], tokens.tokens.toList.map fun t => [.exact t.kind t.text], []⟩

@[simp] theorem Window.place_of (k : Nat) : (Window.of tokens).place 0 0 k = k := by
  simp [place, of]

theorem Grammar.seesRun_of_getElem? {i : Nat} {ts : List Token}
    (h : ∀ k t, ts[k]? = some t → tokens.get? (i + k) = some t) :
    g.SeesRun tokens i (ts.map fun t => [.exact t.kind t.text]) := by
  induction ts generalizing i with
  | nil => trivial
  | cons t ts ih =>
    refine ⟨⟨_, List.mem_singleton_self _, t, h 0 t rfl, .exact⟩, ih fun k u hu => ?_⟩
    rw [Nat.add_right_comm]
    exact h (k + 1) u hu

theorem Window.fits_of (g : Grammar) (tokens : TokenStream) :
    (Window.of tokens).Fits g tokens 0 0 fun _ => default where
  apart := Nat.le_refl 0
  near := trivial
  far := Grammar.seesRun_of_getElem? fun k t ht => by
    rw [Nat.zero_add, TokenStream.get?, ← ht, Array.getElem?_toList]
  known := nofun

/-! ## Forecasts -/

/-- What becomes of an outlook on a root rule: the tree if it spans all tokens, none if it is not all of
them or the rule fails, and nothing is said of a rule that consumes nothing. -/
def Outlook.reading? (tokens : TokenStream) : Outlook → Option (Option Tree)
  | .matched stop [s] =>
    if stop = tokens.eofIndex ∨ stop = tokens.length then some (some (s.tree id fun _ => default))
    else some none
  | .matched _ _ => none
  | .failed => some none

/-- How many rules are looked into inside of each other for a forecast. -/
def forecastRoom : Nat := 200

/-- The tree of a stream from a root rule, or that there is none, if that can be told. -/
def Dialect.forecast (d : Dialect) (tokens : TokenStream) (root : Rule) : Option (Option Tree) :=
  ((Window.of tokens).call (body? d.errorRecovery d.extensions) forecastRoom root 0).bind
    (·.reading? tokens)

theorem Dialect.gives_of_call {d : Dialect} {root : Rule} {outlook : Outlook}
    (h : (Window.of tokens).call (body? d.errorRecovery d.extensions) forecastRoom root 0 =
      some outlook) :
    (d.grammar []).Gives tokens root 0 (outlook.verdict id fun _ => default) := by
  have hfind : ∀ r production, body? d.errorRecovery d.extensions r = some production →
      (d.grammar []).find? r = some production := by
    intro r production hr
    rw [find?_grammar_of_not_mem List.not_mem_nil, findSome?_rules, hr]
  have hplace : (Window.of tokens).place 0 0 = id := funext Window.place_of
  have hgives := (Window.fits_of (d.grammar []) tokens).gives hfind forecastRoom root 0 outlook h
  rwa [hplace] at hgives

theorem Grammar.Gives.error {root : Rule} {v : Verdict} (h : g.Gives tokens root 0 v)
    (hv : ∀ stop trees, v = .matched stop trees → ¬ (stop = tokens.eofIndex ∨ stop = tokens.length)) :
    ∃ e, g.parse tokens root none = .error e := by
  obtain ⟨log, hd⟩ := h root
  cases hd with
  | ruleMatch hf hbody =>
    exact ⟨_, parse_of_partial hf (unlimited_unrefused_iff.2 ⟨_, _, hbody⟩) hbody (hv _ _ rfl)⟩
  | ruleFail hf hbody =>
    exact ⟨_, parse_of_failed hf (unlimited_unrefused_iff.2 ⟨_, _, hbody⟩) hbody⟩
  | ruleMissing hf =>
    refine ⟨.undefinedRoot root, ?_⟩
    rw [Grammar.parse, hf]

/-- **What is forecast comes about**: a parse without a limit has this tree, or there is none. -/
theorem Dialect.tree?_of_forecast {d : Dialect} {root : Rule} {tree? : Option Tree}
    (h : d.forecast tokens root = some tree?) :
    ((d.grammar []).parse tokens root none).toOption.map (·.tree) = tree? := by
  obtain ⟨outlook, hcall, houtlook⟩ := Option.bind_eq_some_iff.1 h
  have hgives := gives_of_call hcall
  have hnone : (∀ stop trees, outlook.verdict id (fun _ => default) = .matched stop trees →
      ¬ (stop = tokens.eofIndex ∨ stop = tokens.length)) → tree? = none →
      ((d.grammar []).parse tokens root none).toOption.map (·.tree) = tree? := by
    rintro hv rfl
    obtain ⟨e, he⟩ := hgives.error hv
    rw [he]
    rfl
  unfold Outlook.reading? at houtlook
  split at houtlook
  · split_ifs at houtlook with hstop
    · cases houtlook
      obtain ⟨r, hr, htree⟩ := hgives.parse hstop
      rw [hr, ← htree]
      rfl
    · cases houtlook
      refine hnone (fun stop trees hv => ?_) rfl
      cases hv
      exact hstop
  · cases houtlook
  · cases houtlook
    exact hnone nofun rfl

theorem Dialect.parse_of_forecast {d : Dialect} {root : Rule} {t : Tree}
    (h : d.forecast tokens root = some (some t)) :
    ∃ r, (d.grammar []).parse tokens root none = .ok r ∧ r.tree = t :=
  Grammar.exists_of_toOption (tree?_of_forecast h)

theorem Dialect.parse_of_forecast_map {d : Dialect} {root : Rule} {α : Type} {f : Tree → α} {a : α}
    (h : (d.forecast tokens root).map (·.map f) = some (some a)) :
    ∃ r, (d.grammar []).parse tokens root none = .ok r ∧ f r.tree = a := by
  obtain ⟨tree?, hforecast, htree⟩ := Option.map_eq_some_iff.1 h
  obtain ⟨t, rfl, rfl⟩ := Option.map_eq_some_iff.1 htree
  obtain ⟨r, hr, ht⟩ := parse_of_forecast hforecast
  exact ⟨r, hr, congrArg f ht⟩

theorem Dialect.exists_forecast {d : Dialect} {root : Rule}
    (h : (d.forecast tokens root).map (·.isSome) = some true) :
    ∃ t, d.forecast tokens root = some (some t) := by
  obtain ⟨tree?, hforecast, hsome⟩ := Option.map_eq_some_iff.1 h
  obtain ⟨t, rfl⟩ := Option.isSome_iff_exists.1 hsome
  exact ⟨t, hforecast⟩

end PackratCpp
