/-
  What evaluation leaves alone.

  * `State.above`: what the elements above some height of the stack stand for.
  * `State.Grows`: nodes and elements are only added, the same rules are at work, and a parse that
    is given up stays so.
  * `State.Sound`: the elements on the stack and in the answers are in the arena, and each answer
    that matches is one that its rule can span (`Yields`).
  * `Keeps g tokens t p st result`: evaluating the task `t` at place `p` in the state `st` came to
    `result`: the state has grown and is sound, a failure has left the stack as it was, and
    after a match the new elements on it stand for what the task can span.
  * `Expr.evaluate_keeps`, `Setup.invoke_keeps`: so it is in every sound state, one in which the
    parse has been given up included.
-/
import PackratCpp.Parse.Basic
import PackratCpp.Proofs.Arena
import PackratCpp.Proofs.Yield

namespace PackratCpp

variable {g : Grammar} {tokens : TokenStream}

namespace Production

variable {p : Production} {rule : Rule} {start stop : Nat}

theorem node_of_collapse (h : p.collapse = true) (t : Tree) :
    p.node rule start stop [t] = t := by
  simp [node, h]

theorem node_of_not_collapse {trees : List Tree} (h : ¬ (p.collapse = true ∧ trees.length = 1)) :
    p.node rule start stop trees = .node rule start stop trees := by
  unfold node
  split
  · next hc => exact absurd ⟨hc, rfl⟩ h
  · rfl

theorem eq_node_of_mem_tree? (hkeep : p.collapse = false) {trees : List Tree} {t : Tree}
    (ht : t ∈ (p.tree? rule start stop trees).toList) : t = .node rule start stop trees := by
  rw [Option.mem_toList, tree?] at ht
  split_ifs at ht
  rw [← Option.some.inj ht, node_of_not_collapse (by simp [hkeep])]

end Production

namespace State

/-- What the elements above some height of the stack stand for. -/
def above (st : State) (height : Nat) : List Tree :=
  (st.scratch.toList.drop height).map st.arena.tree

/-- Nodes and elements are only added, the same rules are at work, and giving up is for good. -/
structure Grows (st st' : State) : Prop where
  arena : st.arena.Grows st'.arena
  scratch : st.scratch.toList <+: st'.scratch.toList
  active : st'.active = st.active
  fatal : st.fatal = true → st'.fatal = true

/-- All elements are in the arena, and each answer that matches is one that its rule can span. -/
structure Sound (g : Grammar) (tokens : TokenStream) (st : State) : Prop where
  arena : st.arena.Valid
  scratch : ∀ e ∈ st.scratch.toList, st.arena.Holds e
  memo : ∀ r p stop element?, st.memo? r p = some (.matched stop element?) →
    (∀ e ∈ element?, st.arena.Holds e) ∧
      Yields g tokens (.expr (.rule r)) p stop (element?.map st.arena.tree).toList

variable {st st' st'' : State} {height : Nat}

/-! ## Growing -/

namespace Grows

theorem refl (st : State) : st.Grows st :=
  ⟨.refl _, List.prefix_rfl, rfl, id⟩

theorem trans (h : st.Grows st') (h' : st'.Grows st'') : st.Grows st'' :=
  ⟨h.arena.trans h'.arena, h.scratch.trans h'.scratch, h'.active.trans h.active,
    fun hf => h'.fatal (h.fatal hf)⟩

theorem of_eq (harena : st'.arena = st.arena) (hscratch : st'.scratch = st.scratch)
    (hactive : st'.active = st.active) (hfatal : st.fatal = true → st'.fatal = true) :
    st.Grows st' :=
  ⟨harena ▸ .refl _, hscratch ▸ List.prefix_rfl, hactive, hfatal⟩

theorem size_le (h : st.Grows st') : st.scratch.size ≤ st'.scratch.size := by
  simpa using h.scratch.length_le

theorem take_eq (h : st.Grows st') :
    st'.scratch.toList.take st.scratch.size = st.scratch.toList := by
  simpa using (List.prefix_iff_eq_take.1 h.scratch).symm

theorem shrink_eq (h : st.Grows st') : st'.scratch.shrink st.scratch.size = st.scratch := by
  rw [← Array.toList_inj, Array.toList_shrink, h.take_eq]

theorem leave {q : Rule} {p : Nat} (h : (st.enter q p).Grows st') : st.Grows st'.leave :=
  ⟨h.arena, h.scratch, by rw [State.leave, h.active]; rfl, h.fatal⟩

theorem truncate (h : st.Grows st') : st.Grows (st'.truncate st.scratch.size) :=
  ⟨h.arena, by simp only [State.truncate, h.shrink_eq, List.prefix_rfl], h.active, h.fatal⟩

theorem above_eq (h : st.Grows st') (hst : st.Sound g tokens) (hheight : height ≤ st.scratch.size) :
    st'.above height = st.above height ++ st'.above st.scratch.size := by
  have hold : (st.scratch.toList.drop height).map st'.arena.tree = st.above height :=
    h.arena.map_tree_eq hst.arena fun e he => hst.scratch e (List.mem_of_mem_drop he)
  obtain ⟨rest, hrest⟩ := h.scratch
  have hlen : height ≤ st.scratch.toList.length := by simpa using hheight
  rw [← hold, above, above, ← hrest, List.drop_append_of_le_length hlen, List.map_append]
  simp

end Grows

@[simp] theorem above_size (st : State) : st.above st.scratch.size = [] := by
  simp [above]

theorem above_of_scratch_eq (h : st'.scratch = st.scratch) : st'.above st.scratch.size = [] := by
  rw [← h, above_size]

theorem above_yield (st : State) (element? : Option Element) :
    (st.yield element?).above st.scratch.size = (element?.map st.arena.tree).toList := by
  cases element? <;> simp [State.yield, above]

theorem grows_yield (st : State) (element? : Option Element) : st.Grows (st.yield element?) := by
  cases element? with
  | none => exact .refl st
  | some e => exact ⟨.refl _, by simp [State.yield], rfl, id⟩

/-! ## Soundness -/

namespace Sound

theorem initial : initial.Sound g tokens :=
  ⟨Layout.Arena.valid_empty, by simp [State.initial], by simp⟩

theorem congr (h : st.Sound g tokens) (harena : st'.arena = st.arena)
    (hscratch : st'.scratch = st.scratch) (hmemo : st'.memo = st.memo) : st'.Sound g tokens := by
  refine ⟨harena ▸ h.arena, ?_, ?_⟩
  · rw [hscratch, harena]
    exact h.scratch
  · simp only [memo?, hmemo, harena]
    exact h.memo

theorem truncate (h : st.Sound g tokens) (height : Nat) : (st.truncate height).Sound g tokens := by
  refine ⟨h.arena, fun e he => h.scratch e ?_, h.memo⟩
  rw [State.truncate, Array.toList_shrink] at he
  exact List.mem_of_mem_take he

theorem yield (h : st.Sound g tokens) {element? : Option Element}
    (he : ∀ e ∈ element?, st.arena.Holds e) : (st.yield element?).Sound g tokens := by
  cases element? with
  | none => exact h
  | some e =>
    refine ⟨h.arena, fun e' he' => ?_, h.memo⟩
    simp only [State.yield, Array.toList_push, List.mem_append, List.mem_singleton] at he'
    rcases he' with he' | rfl
    · exact h.scratch _ he'
    · exact he _ rfl

theorem remember (h : st.Sound g tokens) {r : Rule} {p : Nat} {m : Memo}
    (hm : ∀ stop element?, m = .matched stop element? → (∀ e ∈ element?, st.arena.Holds e) ∧
      Yields g tokens (.expr (.rule r)) p stop (element?.map st.arena.tree).toList) :
    (st.remember r p m).Sound g tokens := by
  refine ⟨h.arena, h.scratch, fun q i stop element? hq => ?_⟩
  rw [memo?_remember] at hq
  split_ifs at hq with hqi
  · obtain ⟨rfl, rfl⟩ := hqi
    exact hm stop element? (Option.some.inj hq)
  · exact h.memo q i stop element? hq

theorem growArena (h : st.Sound g tokens) {arena : Layout.Arena} (ha : st.arena.Grows arena)
    (hv : arena.Valid) : { st with arena := arena }.Sound g tokens := by
  refine ⟨hv, fun e he => ha.holds (h.scratch e he), fun r p stop element? hm => ?_⟩
  obtain ⟨he, hy⟩ := h.memo r p stop element? hm
  refine ⟨fun e hm => ha.holds (he e hm), ?_⟩
  cases element? with
  | none => exact hy
  | some e => simpa [ha.tree_eq h.arena (he e rfl)] using hy

/-- **Finishing the node of a rule** takes the elements above some height off the stack.  What comes
of them stands for what the production makes of what they stand for. -/
theorem finishNode (h : st.Sound g tokens) (p : Production) (rule : Rule) (start stop height : Nat)
    (isRoot : Bool) : ∃ element? arena, st.finishNode p rule start stop height isRoot =
        (element?, { st with arena := arena, scratch := st.scratch.shrink height }) ∧
      st.arena.Grows arena ∧ arena.Valid ∧ (∀ e ∈ element?, arena.Holds e) ∧
      element?.map arena.tree = if isRoot then some (p.node rule start stop (st.above height))
        else p.tree? rule start stop (st.above height) := by
  by_cases hempty : start = stop ∧ isRoot = false
  · obtain ⟨rfl, rfl⟩ := hempty
    exact ⟨none, st.arena, by simp [State.finishNode, State.truncate], .refl _, h.arena, by simp,
      by simp [Production.tree?]⟩
  have hresult : (if isRoot then some (p.node rule start stop (st.above height))
      else p.tree? rule start stop (st.above height)) =
      some (p.node rule start stop (st.above height)) := by
    cases isRoot with
    | true => rfl
    | false => exact if_neg fun hstop : stop = start => hempty ⟨hstop.symm, rfl⟩
  rw [hresult, State.finishNode, if_neg (by simpa using hempty)]
  by_cases hcollapse : p.collapse = true ∧ st.scratch.size = height + 1
  · obtain ⟨hc, hsize⟩ := hcollapse
    obtain ⟨e, hlast⟩ : ∃ e, st.scratch.toList.drop height = [e] :=
      List.length_eq_one_iff.1 (by simp [hsize])
    have hsplit : st.scratch.toList = st.scratch.toList.take height ++ [e] := by
      rw [← hlast, List.take_append_drop]
    have hback : st.scratch.back? = some e := by
      rw [← Array.getLast?_toList, hsplit, List.getLast?_concat]
    have hpop : st.scratch.pop = st.scratch.shrink height := by
      rw [← Array.toList_inj, Array.toList_pop, Array.toList_shrink, List.dropLast_eq_take,
        Array.length_toList, hsize, Nat.add_sub_cancel]
    have he : st.arena.Holds e :=
      h.scratch e (List.mem_of_mem_drop (hlast ▸ List.mem_singleton_self e))
    refine ⟨some e, st.arena, ?_, .refl _, h.arena, by simpa using he, ?_⟩
    · rw [if_pos (by simpa using ⟨hc, hsize⟩), hback, hpop]
    · rw [above, hlast, List.map_singleton, Production.node_of_collapse hc, Option.map_some]
  · have hchildren : (st.scratch.extract height).toList = st.scratch.toList.drop height := by
      rw [Array.toList_extract, List.extract_eq_take_drop, List.take_of_length_le (by simp)]
    have hc : ∀ e ∈ (st.scratch.extract height).toList, st.arena.Holds e := fun e he =>
      h.scratch e (List.mem_of_mem_drop (hchildren ▸ he))
    have hnode : p.node rule start stop (st.above height) =
        .node rule start stop (st.above height) := by
      refine Production.node_of_not_collapse ?_
      rintro ⟨hcoll, hlen⟩
      refine hcollapse ⟨hcoll, ?_⟩
      simp only [above, List.length_map, List.length_drop, Array.length_toList] at hlen
      omega
    rw [if_neg (by simpa using hcollapse)]
    refine ⟨_, _, rfl, Layout.Arena.grows_finish, h.arena.finish hc, fun e he => ?_, ?_⟩
    · cases he
      exact Layout.Arena.holds_finish
    · rw [hnode, Option.map_some]
      exact congrArg some ((Layout.Arena.tree_finish h.arena hc).trans (by rw [hchildren]; rfl))

end Sound

end State

/-! ## Evaluation -/

/-- Whether a task that fails takes back what it has yielded.  A sequence leaves this to the
expression around it. -/
def Task.restores : Task → Bool
  | .items _ => false
  | _ => true

/-- What evaluating a task at a place in a state leaves alone. -/
structure Keeps (g : Grammar) (tokens : TokenStream) (t : Task) (p : Nat) (st : State)
    (result : Option Nat × State) : Prop where
  grows : st.Grows result.2
  sound : result.2.Sound g tokens
  restored : t.restores = true → result.1 = none → result.2.scratch = st.scratch
  yields : ∀ stop, result.1 = some stop →
    Yields g tokens t p stop (result.2.above st.scratch.size)

namespace Keeps

variable {t : Task} {p stop : Nat} {st st' : State}

theorem matched (hgrows : st.Grows st') (hsound : st'.Sound g tokens)
    (hyields : Yields g tokens t p stop (st'.above st.scratch.size)) :
    Keeps g tokens t p st (some stop, st') :=
  ⟨hgrows, hsound, fun _ h => (nomatch h), fun _ h => by cases h; exact hyields⟩

theorem failed (hgrows : st.Grows st') (hsound : st'.Sound g tokens)
    (hscratch : t.restores = true → st'.scratch = st.scratch) :
    Keeps g tokens t p st (none, st') :=
  ⟨hgrows, hsound, fun ht _ => hscratch ht, fun _ h => (nomatch h)⟩

theorem matched_nothing (hgrows : st.Grows st') (hsound : st'.Sound g tokens)
    (hscratch : st'.scratch = st.scratch) (hyields : Yields g tokens t p stop []) :
    Keeps g tokens t p st (some stop, st') := by
  refine .matched hgrows hsound ?_
  rw [State.above_of_scratch_eq hscratch]
  exact hyields

theorem yield {element? : Option Element} (hgrows : st.Grows st')
    (hsound : st'.Sound g tokens) (hscratch : st'.scratch = st.scratch)
    (he : ∀ e ∈ element?, st'.arena.Holds e)
    (hyields : Yields g tokens t p stop (element?.map st'.arena.tree).toList) :
    Keeps g tokens t p st (some stop, st'.yield element?) := by
  refine .matched (hgrows.trans (st'.grows_yield element?)) (hsound.yield he) ?_
  rw [← hscratch, State.above_yield]
  exact hyields

theorem above_eq_nil (h : Keeps g tokens t p st (some p, st')) : st'.above st.scratch.size = [] :=
  (h.yields p rfl).eq_nil rfl

theorem above_append {t' : Task} {q : Nat} {st'' : State} {result : Option Nat}
    (h : Keeps g tokens t p st (some q, st')) (h' : Keeps g tokens t' q st' (result, st'')) :
    st''.above st.scratch.size = st'.above st.scratch.size ++ st''.above st'.scratch.size :=
  h'.grows.above_eq h.sound h.grows.size_le

theorem append {t' u : Task} {q : Nat} {st'' : State} (h : Keeps g tokens t p st (some q, st'))
    (h' : Keeps g tokens t' q st' (some stop, st''))
    (hyields : ∀ trees trees', Yields g tokens t p q trees → Yields g tokens t' q stop trees' →
      Yields g tokens u p stop (trees ++ trees')) :
    Keeps g tokens u p st (some stop, st'') := by
  refine .matched (h.grows.trans h'.grows) h'.sound ?_
  rw [h.above_append h']
  exact hyields _ _ (h.yields q rfl) (h'.yields stop rfl)

theorem takeBack {u : Task} {stop? : Option Nat} (h : Keeps g tokens t p st (stop?, st')) :
    Keeps g tokens u p st (none, st'.truncate st.scratch.size) :=
  .failed h.grows.truncate (h.sound.truncate _) fun _ => h.grows.shrink_eq

theorem takeBack_matched {u : Task} {stop? : Option Nat} (h : Keeps g tokens t p st (stop?, st'))
    (hyields : Yields g tokens u p p []) :
    Keeps g tokens u p st (some p, st'.truncate st.scratch.size) :=
  .matched_nothing h.grows.truncate (h.sound.truncate _) h.grows.shrink_eq hyields

end Keeps

/-- What has to be known of the rules that an expression mentions. -/
def CallKeeps (g : Grammar) (tokens : TokenStream) (call : RuleCall) : Prop :=
  ∀ q p st, st.Sound g tokens → p ≤ tokens.length →
    Keeps g tokens (.expr (.rule q)) p st ((Expr.rule q).evaluate tokens call p st)

theorem Terminal.evaluate_keeps (test : Terminal) (p : Nat) {st : State}
    (hst : st.Sound g tokens) :
    Keeps g tokens (.expr (.token test)) p st (test.evaluate tokens p st) := by
  unfold Terminal.evaluate
  cases ht : tokens.get? p with
  | none => exact .failed (.refl st) hst fun _ => rfl
  | some t =>
    simp only
    split_ifs with ha
    · exact .yield (.refl st) hst rfl (fun e he => by cases he; trivial) (.token ht ha)
    · exact .failed (.of_eq rfl rfl rfl id) (hst.congr rfl rfl rfl) fun _ => rfl

theorem evaluateAnyToken_keeps (p : Nat) {st : State} (hst : st.Sound g tokens) :
    Keeps g tokens (.expr .anyToken) p st (evaluateAnyToken tokens p st) := by
  have hfail : Keeps g tokens (.expr .anyToken) p st (none, st.expect p .anyToken) :=
    .failed (.of_eq rfl rfl rfl id) (hst.congr rfl rfl rfl) fun _ => rfl
  unfold evaluateAnyToken
  cases ht : tokens.get? p with
  | none => exact hfail
  | some t =>
    simp only
    split_ifs with he
    · exact hfail
    · exact .yield (.refl st) hst rfl (fun e he => by cases he; trivial)
        (.anyToken ht (by simpa using he))

theorem repeatStep_keeps {e : Expr} {step : Nat → State → Option Nat × State}
    (hstep : ∀ p st, st.Sound g tokens → p ≤ tokens.length →
      Keeps g tokens (.expr e) p st (step p st)) :
    ∀ (turns p : Nat) (st : State), st.Sound g tokens → p ≤ tokens.length →
      Keeps g tokens (.turns e) p st
        (some (repeatStep step turns p st).1, (repeatStep step turns p st).2)
  | 0, p, st, hst, _ => .matched_nothing (.refl st) hst rfl .turnsDone
  | turns + 1, p, st, hst, hp => by
    have he := hstep p st hst hp
    rcases hs : step p st with ⟨stop?, st'⟩
    rw [hs] at he
    simp only [repeatStep, hs]
    cases stop? with
    | none => exact .matched_nothing he.grows he.sound (he.restored rfl rfl) .turnsDone
    | some stop =>
      simp only
      split_ifs with hstop
      · subst hstop
        exact .matched he.grows he.sound (he.above_eq_nil ▸ .turnsDone)
      · have hplace := (he.yields stop rfl).le_length hp
        exact he.append (repeatStep_keeps hstep turns stop st' he.sound hplace)
          fun _ _ => .turnsNext

namespace Expr

variable {call : RuleCall}

theorem evaluate_of_fatal {st : State} (h : st.fatal = true) (e : Expr) (p : Nat) :
    e.evaluate tokens call p st = (none, st) := by
  rw [evaluate.eq_def, if_pos h]

mutual

theorem evaluate_keeps (hcall : CallKeeps g tokens call) :
    ∀ (e : Expr) (p : Nat) (st : State), st.Sound g tokens → p ≤ tokens.length →
      Keeps g tokens (.expr e) p st (e.evaluate tokens call p st)
  | e, p, st, hst, hp => by
    by_cases hfatal : st.fatal = true
    · rw [evaluate_of_fatal hfatal]
      exact .failed (.refl st) hst fun _ => rfl
    cases e with
    | token test =>
      rw [evaluate, if_neg hfatal]
      exact test.evaluate_keeps p hst
    | anyToken =>
      rw [evaluate, if_neg hfatal]
      exact evaluateAnyToken_keeps p hst
    | rule q => exact hcall q p st hst hp
    | seq es =>
      have hes := evaluateSeq_keeps hcall es p st hst hp
      rw [evaluate, if_neg hfatal]
      rcases hs : evaluateSeq tokens call es p st with ⟨stop?, st'⟩
      rw [hs] at hes
      cases stop? with
      | none => exact hes.takeBack
      | some stop => exact .matched hes.grows hes.sound (.seq (hes.yields stop rfl))
    | choice es =>
      have hes := evaluateChoice_keeps hcall es p st hst hp
      rw [evaluate, if_neg hfatal]
      exact ⟨hes.grows, hes.sound, hes.restored, fun stop h => .choice (hes.yields stop h)⟩
    | option e =>
      have he := evaluate_keeps hcall e p st hst hp
      rw [evaluate, if_neg hfatal]
      rcases hs : evaluate tokens call e p st with ⟨stop?, st'⟩
      rw [hs] at he
      cases stop? with
      | none => exact .matched_nothing he.grows he.sound (he.restored rfl rfl) .optionSkip
      | some stop => exact .matched he.grows he.sound (.option (he.yields stop rfl))
    | star e =>
      have hturns := repeatStep_keeps (evaluate_keeps hcall e) (tokens.length + 1 - p) p st hst hp
      rw [evaluate, if_neg hfatal]
      exact .matched hturns.grows hturns.sound (.star (hturns.yields _ rfl))
    | plus e =>
      have he := evaluate_keeps hcall e p st hst hp
      rw [evaluate, if_neg hfatal]
      rcases hs : evaluate tokens call e p st with ⟨stop?, st'⟩
      rw [hs] at he
      cases stop? with
      | none => exact .failed he.grows he.sound fun _ => he.restored rfl rfl
      | some q =>
        have hy := he.yields q rfl
        simp only
        split_ifs with hq
        · subst hq
          exact .matched he.grows he.sound (he.above_eq_nil ▸ .plusEmpty hy)
        · exact he.append (repeatStep_keeps (evaluate_keeps hcall e) (tokens.length + 1 - q) q st'
            he.sound (hy.le_length hp)) fun _ _ => .plus
    | followedBy e =>
      have he := evaluate_keeps hcall e p st hst hp
      rw [evaluate, if_neg hfatal]
      rcases hs : evaluate tokens call e p st with ⟨stop?, st'⟩
      rw [hs] at he
      cases stop? with
      | none => exact he.takeBack
      | some stop => exact he.takeBack_matched (.followedBy (he.yields stop rfl))
    | notFollowedBy e =>
      have he := evaluate_keeps hcall e p st hst hp
      rw [evaluate, if_neg hfatal]
      rcases hs : evaluate tokens call e p st with ⟨stop?, st'⟩
      rw [hs] at he
      cases stop? with
      | none => exact he.takeBack_matched .notFollowedBy
      | some stop => exact he.takeBack
    | epsilon =>
      rw [evaluate, if_neg hfatal]
      exact .matched_nothing (.refl st) hst rfl .epsilon
    | never =>
      rw [evaluate, if_neg hfatal]
      exact .failed (.refl st) hst fun _ => rfl

theorem evaluateSeq_keeps (hcall : CallKeeps g tokens call) :
    ∀ (es : List Expr) (p : Nat) (st : State), st.Sound g tokens → p ≤ tokens.length →
      Keeps g tokens (.items es) p st (evaluateSeq tokens call es p st)
  | [], p, st, hst, _ => .matched_nothing (.refl st) hst rfl .itemsDone
  | e :: es, p, st, hst, hp => by
    have he := evaluate_keeps hcall e p st hst hp
    rw [evaluateSeq]
    rcases hs : evaluate tokens call e p st with ⟨stop?, st'⟩
    rw [hs] at he
    cases stop? with
    | none => exact .failed he.grows he.sound fun h => nomatch h
    | some q =>
      have hplace := (he.yields q rfl).le_length hp
      have hes := evaluateSeq_keeps hcall es q st' he.sound hplace
      simp only
      rcases hs' : evaluateSeq tokens call es q st' with ⟨stop?, st''⟩
      rw [hs'] at hes
      cases stop? with
      | none => exact .failed (he.grows.trans hes.grows) hes.sound fun h => nomatch h
      | some stop => exact he.append hes fun _ _ => .itemsNext

theorem evaluateChoice_keeps (hcall : CallKeeps g tokens call) :
    ∀ (es : List Expr) (p : Nat) (st : State), st.Sound g tokens → p ≤ tokens.length →
      Keeps g tokens (.alternatives es) p st (evaluateChoice tokens call es p st)
  | [], p, st, hst, _ => .failed (.refl st) hst fun _ => rfl
  | e :: es, p, st, hst, hp => by
    have he := evaluate_keeps hcall e p st hst hp
    rw [evaluateChoice]
    rcases hs : evaluate tokens call e p st with ⟨stop?, st'⟩
    rw [hs] at he
    cases stop? with
    | some stop =>
      exact .matched he.grows he.sound (.alternatives (List.mem_cons_self ..) (he.yields stop rfl))
    | none =>
      have hscratch : st'.scratch = st.scratch := he.restored rfl rfl
      have hes := evaluateChoice_keeps hcall es p st' he.sound hp
      refine ⟨he.grows.trans hes.grows, hes.sound,
        fun ht hn => (hes.restored ht hn).trans hscratch, fun stop hstop => ?_⟩
      have hy := hes.yields stop hstop
      rw [hscratch] at hy
      cases hy with
      | alternatives hm hy => exact .alternatives (List.mem_cons_of_mem _ hm) hy

end

end Expr

/-- **Invoking a rule leaves alone what it should**, at any depth and whether the parse has been
given up or not. -/
theorem Setup.invoke_keeps (s : Setup) :
    ∀ room : Nat, CallKeeps s.grammar s.tokens (s.invoke room)
  | room, q, p, st, hst, hp => by
    by_cases hfatal : st.fatal = true
    · rw [Expr.evaluate_of_fatal hfatal]
      exact .failed (.refl st) hst fun _ => rfl
    rw [Expr.evaluate, if_neg hfatal, invoke.eq_def]
    cases hm : st.memo? q p with
    | some memo =>
      have hgrows : st.Grows st.hit := .of_eq rfl rfl rfl id
      have hsound : st.hit.Sound s.grammar s.tokens := hst.congr rfl rfl rfl
      cases memo with
      | failed => exact .failed hgrows hsound fun _ => rfl
      | matched stop element? =>
        obtain ⟨he, hy⟩ := hst.memo q p stop element? hm
        exact .yield hgrows hsound rfl he hy
    | none =>
      cases room with
      | zero =>
        cases s.skipping with
        | true =>
          exact .failed (.of_eq rfl rfl rfl id) (hst.congr rfl rfl rfl)
            fun _ => rfl
        | false =>
          exact .failed (.of_eq rfl rfl rfl fun _ => rfl)
            (hst.congr rfl rfl rfl) fun _ => rfl
      | succ room =>
        cases hf : s.grammar.find? q with
        | none => exact .failed (.refl st) hst fun _ => rfl
        | some production =>
          have hbody := Expr.evaluate_keeps (invoke_keeps s room) production.body p (st.enter q p)
            (hst.congr rfl rfl rfl) hp
          simp only
          rcases hs : production.body.evaluate s.tokens (s.invoke room) p (st.enter q p) with
            ⟨stop?, st'⟩
          rw [hs] at hbody
          have hgrows : st.Grows st'.leave := hbody.grows.leave
          have hsound : st'.leave.Sound s.grammar s.tokens := hbody.sound.congr rfl rfl rfl
          cases stop? with
          | none =>
            exact .failed ⟨hgrows.arena, hgrows.scratch, hgrows.active, hgrows.fatal⟩
              (hsound.remember fun _ _ h => nomatch h) fun _ => hbody.restored rfl rfl
          | some stop =>
            obtain ⟨element?, arena, hnode, harena, hvalid, he, htree⟩ :=
              hsound.finishNode production q p stop st.scratch.size false
            have hy : Yields s.grammar s.tokens (.expr (.rule q)) p stop
                (element?.map arena.tree).toList := by
              rw [htree]
              exact .rule hf (hbody.yields stop rfl)
            simp only [hnode]
            refine .yield ⟨hgrows.arena.trans harena, ?_, hgrows.active, hgrows.fatal⟩ ?_
              hgrows.shrink_eq he hy
            · simp only [State.remember, hgrows.shrink_eq, List.prefix_rfl]
            · refine ((hsound.growArena harena hvalid).truncate _).remember fun _ _ h => ?_
              cases h
              exact ⟨he, hy⟩

end PackratCpp
