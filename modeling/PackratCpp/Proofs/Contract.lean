/-
  What evaluation does to the state, at every moment of a parse.

  * `Layout.Arena.Tiles`: elements of an arena span adjacent pieces, none of them empty, according to
    the spans that their nodes have.
  * `Contract`: an evaluation touches nothing below the height of the stack at its start, only adds
    to the arena, takes back everything if it fails, and otherwise leaves elements that tile what
    it has matched.
  * `Keeps.contract`: what is known of an evaluation in a sound state says so.
  * `Expr.evaluate_contract`: so it is for every expression at every moment of a parse, after the
    parse has been given up or a rule refused as well.
-/
import PackratCpp.Proofs.Moments
import PackratCpp.Proofs.Nodes

namespace PackratCpp

/-! ## Elements side by side -/

namespace Layout.Arena

/-- Some elements span adjacent pieces, each of some tokens, from `start` up to `stop`. -/
inductive Tiles (a : Arena) : List Element → (start stop : Nat) → Prop
  | nil {p} : Tiles a [] p p
  | token {i es stop} : Tiles a es (i + 1) stop → Tiles a (.token i :: es) i stop
  | node {id n es stop} : a.nodes[id]? = some n → n.start < n.stop → Tiles a es n.stop stop →
      Tiles a (.node id :: es) n.start stop

variable {a : Arena} {es : List Element} {p q : Nat}

theorem Tiles.le (h : a.Tiles es p q) : p ≤ q := by
  induction h with
  | nil => exact Nat.le_refl _
  | token _ ih => exact Nat.le_of_succ_le ih
  | node _ hlt _ ih => exact Nat.le_trans (Nat.le_of_lt hlt) ih

theorem Tiles.eq_nil (h : a.Tiles es p p) : es = [] := by
  cases h with
  | nil => rfl
  | token h => exact absurd h.le (Nat.not_succ_le_self _)
  | node _ hlt h => exact absurd hlt (Nat.not_lt.2 h.le)

theorem tiles_of_tiling (ha : a.Valid) (hes : ∀ e ∈ es, a.Holds e)
    (h : Tree.Tiling (es.map a.tree) p q) (hpos : ∀ t ∈ es.map a.tree, t.start < t.stop) :
    a.Tiles es p q := by
  induction es generalizing p with
  | nil =>
    cases h
    exact .nil
  | cons e es ih =>
    have hrest : ∀ {i}, Tree.Tiling (es.map a.tree) i q → a.Tiles es i q := fun h =>
      ih (fun e he => hes e (List.mem_cons_of_mem _ he)) h
        fun t ht => hpos t (List.mem_cons_of_mem _ ht)
    have hlt := hpos (a.tree e) (List.mem_cons_self ..)
    cases e with
    | token i =>
      cases h with
      | cons _ h => exact .token (hrest h)
    | node id =>
      have hid : id < a.nodes.size := hes _ (List.mem_cons_self ..)
      have hn : a.nodes[id]? = some a.nodes[id] := Array.getElem?_eq_getElem hid
      rw [List.map_cons, tree_node ha hn] at h
      rw [tree_node ha hn] at hlt
      cases h with
      | cons _ h => exact .node hn hlt (hrest h)

end Layout.Arena

theorem Yields.start_lt_stop {g : Grammar} {tokens : TokenStream} {t : Task} {p stop : Nat}
    {trees : List Tree} (h : Yields g tokens t p stop trees) : ∀ u ∈ trees, u.start < u.stop := by
  induction h with
  | token | anyToken =>
    intro u hu
    rw [List.mem_singleton.1 hu]
    exact Nat.lt_succ_self _
  | @rule s production p stop trees _ hbody ih =>
    intro u hu
    rw [Option.mem_toList, Production.tree?] at hu
    split_ifs at hu with hstop
    rw [← Option.some.inj hu]
    rcases production.node_cases s p stop trees with heq | heq
    · have hmem := List.mem_singleton_self (production.node s p stop trees)
      rw [← heq] at hmem
      exact ih _ hmem
    · rw [heq]
      exact Nat.lt_of_le_of_ne hbody.le (Ne.symm hstop)
  | seq _ ih | choice _ ih | alternatives _ _ ih | option _ ih | star _ ih => exact ih
  | itemsNext _ _ ih₁ ih₂ | plus _ _ ih₁ ih₂ | turnsNext _ _ ih₁ ih₂ =>
    exact fun u hu => (List.mem_append.1 hu).elim (ih₁ u) (ih₂ u)
  | itemsDone | optionSkip | plusEmpty | turnsDone | followedBy | notFollowedBy | epsilon =>
    exact fun u hu => absurd hu List.not_mem_nil

/-! ## The contract -/

/-- What an evaluation that starts at place `p` in the state `st` and comes to `result` has done. -/
structure Contract (tokens : TokenStream) (p : Nat) (st : State) (result : Option Nat × State) :
    Prop where
  /-- The elements below the height at the start are still there. -/
  below : result.2.scratch.toList.take st.scratch.size = st.scratch.toList
  active : result.2.active = st.active
  /-- No node has been changed, and new ones come behind. -/
  nodes : st.arena.nodes.toList <+: result.2.arena.nodes.toList
  slots : st.arena.slots.toList <+: result.2.arena.slots.toList
  failed : result.1 = none → result.2.scratch = st.scratch
  matched : ∀ stop, result.1 = some stop → p ≤ stop ∧ stop ≤ tokens.length ∧
    result.2.arena.Tiles (result.2.scratch.toList.drop st.scratch.size) p stop ∧
    (stop = p → result.2.scratch = st.scratch)

variable {s : Setup} {tokens : TokenStream} {p : Nat} {st : State}

theorem Keeps.contract {g : Grammar} {e : Expr} {result : Option Nat × State}
    (h : Keeps g tokens (.expr e) p st result) (hp : p ≤ tokens.length) :
    Contract tokens p st result where
  below := h.grows.take_eq
  active := h.grows.active
  nodes := h.grows.arena.nodes
  slots := h.grows.arena.slots
  failed := h.restored rfl
  matched stop hstop := by
    have hy := h.yields stop hstop
    have htiles : result.2.arena.Tiles (result.2.scratch.toList.drop st.scratch.size) p stop :=
      Layout.Arena.tiles_of_tiling h.sound.arena
        (fun e he => h.sound.scratch e (List.mem_of_mem_drop he)) hy.tiling hy.start_lt_stop
    refine ⟨hy.le, hy.le_length hp, htiles, ?_⟩
    rintro rfl
    rw [← Array.toList_inj, ← List.take_append_drop st.scratch.size result.2.scratch.toList,
      htiles.eq_nil, List.append_nil, h.grows.take_eq]

theorem Expr.evaluate_contract_of_sound (hst : st.Sound s.grammar s.tokens) (e : Expr)
    (hp : p ≤ s.tokens.length) (room : Nat) :
    Contract s.tokens p st (e.evaluate s.tokens (s.invoke room) p st) :=
  (evaluate_keeps (s.invoke_keeps room) e p st hst hp).contract hp

theorem Setup.exists_room_of_after {maxDepth? : Option Nat} {n : Nat} {e : Expr}
    {stop? : Option Nat} {st' : State} (hst : st.Sound s.grammar s.tokens)
    (hp : p ≤ s.tokens.length)
    (h : s.after maxDepth? n ⟨.evaluate e p, [], st⟩ = some ⟨.answer stop?, [], st'⟩) :
    ∃ room, e.evaluate s.tokens (s.invoke room) p st = (stop?, st') := by
  obtain ⟨limit, hlimit⟩ := s.exists_limit maxDepth? ⟨.evaluate e p, [], st⟩ n
  have hcall := s.invoke_leads limit (limit - st.active.length) st.active.length rfl
  obtain ⟨k, hk⟩ := (Expr.evaluate_leads hcall e p st ⟨hst, rfl, hp⟩ []).exists_after
  have hend := Setup.after_unique hk rfl (hlimit.trans h) rfl
  refine ⟨limit - st.active.length, ?_⟩
  simp only [Moment.answered, Moment.mk.injEq, Control.answer.injEq, true_and] at hend
  exact Prod.ext hend.1 hend.2

/-- **Evaluation keeps its contract in every state of a parse.**  At every moment of the run of a
parse, with any limit or none, the state is such that evaluating any expression at any place of the
stream keeps the contract: with any room that is left, and step by step under the limit of the run,
whenever that comes to an end. -/
theorem Expr.evaluate_contract {maxDepth? : Option Nat} {root : Rule} {production : Production}
    {n : Nat} {m : Moment} (hm : s.after maxDepth? n (.initial root production) = some m)
    (e : Expr) (hp : p ≤ s.tokens.length) :
    (∀ room, Contract s.tokens p m.state (e.evaluate s.tokens (s.invoke room) p m.state)) ∧
    ∀ k stop? st, s.after maxDepth? k ⟨.evaluate e p, [], m.state⟩ =
      some ⟨.answer stop?, [], st⟩ → Contract s.tokens p m.state (stop?, st) := by
  have hst := Setup.sound_after hm
  refine ⟨evaluate_contract_of_sound hst e hp, fun k stop? st hk => ?_⟩
  obtain ⟨room, hroom⟩ := Setup.exists_room_of_after hst hp hk
  exact hroom ▸ evaluate_contract_of_sound hst e hp room

/-- A token with a rule behind it. -/
def tokenBeforeRule : Production :=
  ⟨.seq [.anyToken, .rule .pointerLiteral], false⟩

/-- One word, and two rules. -/
def wordSetup (skipping : Bool) : Setup :=
  ⟨⟨.standard, #[some tokenBeforeRule, some ⟨.anyToken, false⟩]⟩,
    .terminated [⟨.identifier, "x", 1, 1, 0⟩] ⟨.eof, "", 1, 2, 1⟩, skipping⟩

/-- With a limit of one, the rule behind the token is refused while the token is on the stack: the
parse is given up, or the rule is skipped.  What is evaluated in these states keeps the contract. -/
theorem evaluate_contract_refused :
    (∃ m, (wordSetup false).after (some 1) 4 (.initial .booleanLiteral tokenBeforeRule) = some m ∧
      m.state.fatal = true ∧ m.state.scratch = #[.token 0] ∧
      0 ≤ (wordSetup false).tokens.length ∧
      Contract (wordSetup false).tokens 0 m.state ((Expr.star .anyToken).evaluate
        (wordSetup false).tokens ((wordSetup false).invoke 0) 0 m.state)) ∧
    ∃ m, (wordSetup true).after (some 1) 4 (.initial .booleanLiteral tokenBeforeRule) = some m ∧
      m.state.refusals = 1 ∧ m.state.scratch = #[.token 0] ∧
      0 ≤ (wordSetup true).tokens.length ∧
      Contract (wordSetup true).tokens 0 m.state ((Expr.star .anyToken).evaluate
        (wordSetup true).tokens ((wordSetup true).invoke 0) 0 m.state) := by
  constructor
  · obtain ⟨m, hm, hfatal, hscratch⟩ : ∃ m, (wordSetup false).after (some 1) 4
        (.initial .booleanLiteral tokenBeforeRule) = some m ∧ m.state.fatal = true ∧
        m.state.scratch = #[.token 0] := ⟨_, rfl, rfl, rfl⟩
    exact ⟨m, hm, hfatal, hscratch, Nat.zero_le _,
      (Expr.evaluate_contract hm (.star .anyToken) (Nat.zero_le _)).1 0⟩
  · obtain ⟨m, hm, hrefusals, hscratch⟩ : ∃ m, (wordSetup true).after (some 1) 4
        (.initial .booleanLiteral tokenBeforeRule) = some m ∧ m.state.refusals = 1 ∧
        m.state.scratch = #[.token 0] := ⟨_, rfl, rfl, rfl⟩
    exact ⟨m, hm, hrefusals, hscratch, Nat.zero_le _,
      (Expr.evaluate_contract hm (.star .anyToken) (Nat.zero_le _)).1 0⟩

end PackratCpp
