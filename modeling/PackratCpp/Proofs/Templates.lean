/-
  A `>>` that closes template lists closes two of them.

  * `Expr.endsOpen`: whether an expression ends with an open rule.  `Yields.unclosed`: what it spans
    lacks a closing, at its very end, and what takes no open rule lacks none.
  * `Expr.closes`: whether an expression that takes a `>>` does so right behind an open rule.
    `Yields.closedBy`: then the `>>` closes what the open rule lacks.
  * `Grammar.ClosesLists`: the bodies of all rules pass these checks.  `Dialect.closesLists`: so they
    do in every dialect.
  * `Grammar.standard_closes_templates`: so the template-ids that are left to a `>>` and the `>>` that
    close template lists belong together one by one.
-/
import PackratCpp.Proofs.Lookup
import PackratCpp.Proofs.Unclosed

namespace PackratCpp

/-- The rules that give way to an only child. -/
def Rule.isCollapsing : Rule → Bool
  | .primaryExpression | .postfixExpression | .unaryExpression | .castExpression | .pmExpression |
    .multiplicativeExpression | .additiveExpression | .shiftExpression | .relationalExpression |
    .equalityExpression | .andExpression | .exclusiveOrExpression | .inclusiveOrExpression |
    .logicalAndExpression | .logicalOrExpression | .conditionalExpression |
    .assignmentExpression => true
  | _ => false

/-! ## Expressions that end with an open list -/

namespace Expr

mutual

/-- Whether all that an expression can take passes a check, token by token and rule by rule.
Lookaheads take nothing. -/
def takesOnly (ok : Expr → Bool) : Expr → Bool
  | .seq items => allTakeOnly ok items
  | .choice alternatives => allTakeOnly ok alternatives
  | .option body | .star body | .plus body => takesOnly ok body
  | .followedBy _ | .notFollowedBy _ | .epsilon | .never => true
  | .token test => ok (.token test)
  | .anyToken => ok .anyToken
  | .rule r => ok (.rule r)

/-- The same for each of some expressions. -/
def allTakeOnly (ok : Expr → Bool) : List Expr → Bool
  | [] => true
  | e :: es => takesOnly ok e && allTakeOnly ok es

end

theorem takesOnly_of_mem {ok : Expr → Bool} {e : Expr} {es : List Expr}
    (h : allTakeOnly ok es = true) (hm : e ∈ es) : e.takesOnly ok = true :=
  check_of_mem (fun _ _ => by rw [allTakeOnly]) h hm

mutual

theorem takesOnly_mono {ok ok' : Expr → Bool} (hok : ∀ e, ok e = true → ok' e = true) :
    ∀ e : Expr, e.takesOnly ok = true → e.takesOnly ok' = true
  | .seq es, h | .choice es, h => allTakeOnly_mono hok es h
  | .option e, h | .star e, h | .plus e, h => takesOnly_mono hok e h
  | .followedBy _, _ | .notFollowedBy _, _ | .epsilon, _ | .never, _ => rfl
  | .token _, h | .anyToken, h | .rule _, h => hok _ h

theorem allTakeOnly_mono {ok ok' : Expr → Bool} (hok : ∀ e, ok e = true → ok' e = true) :
    ∀ es : List Expr, allTakeOnly ok es = true → allTakeOnly ok' es = true
  | [], _ => rfl
  | e :: es, h => by
    simp only [allTakeOnly, Bool.and_eq_true] at h ⊢
    exact ⟨takesOnly_mono hok e h.1, allTakeOnly_mono hok es h.2⟩

end

/-- Any rule but an open one. -/
def notOpen : Expr → Bool
  | .rule r => !r.isOpen
  | _ => true

/-- A spelling other than `>>`, or a rule that is not open and has a node of its own. -/
def notShift : Expr → Bool
  | .token (.text s) => s ≠ ">>"
  | .rule r => !r.isOpen && !r.isCollapsing
  | _ => false

mutual

/-- Whether an expression ends with an open rule, and takes no other. -/
def endsOpen : Expr → Bool
  | .rule r => r.isOpen
  | .seq items => lastEndsOpen items
  | .choice alternatives => allEndOpen alternatives
  | _ => false

/-- The same for a sequence. -/
def lastEndsOpen : List Expr → Bool
  | [] => false
  | e :: es => if es.isEmpty then endsOpen e else takesOnly notOpen e && lastEndsOpen es

/-- The same for each of some expressions. -/
def allEndOpen : List Expr → Bool
  | [] => true
  | e :: es => endsOpen e && allEndOpen es

end

theorem endsOpen_of_mem {e : Expr} {es : List Expr} (h : allEndOpen es = true) (hm : e ∈ es) :
    e.endsOpen = true :=
  check_of_mem (fun _ _ => by rw [allEndOpen]) h hm

theorem notOpen_of_notShift (e : Expr) (h : notShift e = true) : notOpen e = true := by
  unfold notShift at h
  split at h
  · rfl
  · exact (Bool.and_eq_true_iff.1 h).1
  · cases h

/-- Whether a sequence ends with an open rule and the `>>` that closes it, and takes no other. -/
def endsWithShift (items : List Expr) : Bool :=
  match items.reverse with
  | .token test :: .rule r :: front =>
    test = .text ">>" && r.isOpen && allTakeOnly notShift front.reverse
  | _ => false

theorem exists_of_endsWithShift {items : List Expr} (h : endsWithShift items = true) :
    ∃ front r, items = front ++ [.rule r, .token (.text ">>")] ∧ r.isOpen = true ∧
      allTakeOnly notShift front = true := by
  unfold endsWithShift at h
  split at h
  · next test r front heq =>
    simp only [Bool.and_eq_true, decide_eq_true_eq] at h
    obtain ⟨⟨rfl, hr⟩, hfront⟩ := h
    refine ⟨front.reverse, r, ?_, hr, hfront⟩
    rw [← List.reverse_reverse items, heq]
    simp
  · cases h

/-- Whether an alternative of a rule that takes a `>>` does so behind an open rule, or not at all. -/
def closesOne : Expr → Bool
  | .seq items => endsWithShift items || allTakeOnly notShift items
  | e => takesOnly notShift e

/-- The same for each of its alternatives. -/
def closes : Expr → Bool
  | .choice alternatives => alternatives.all closesOne
  | e => closesOne e

end Expr

namespace Task

/-- Whether all that a task can take passes a check. -/
def takesOnly (ok : Expr → Bool) : Task → Bool
  | .expr e | .turns e => e.takesOnly ok
  | .items es | .alternatives es => Expr.allTakeOnly ok es

/-- Whether a task ends with an open rule, and takes no other. -/
def endsOpen : Task → Bool
  | .expr e => e.endsOpen
  | .items es => Expr.lastEndsOpen es
  | .alternatives es => Expr.allEndOpen es
  | .turns _ => false

end Task

/-- What the body of a rule has to be for the lists to be closed. -/
def Rule.closesWith (r : Rule) (body : Expr) : Bool :=
  if r.isCloser then body.closes
  else if r.isOpen && r ≠ .innerSimpleTemplateId then body.endsOpen
  else body.takesOnly Expr.notOpen

/-- A grammar whose rules close what they should. -/
structure Grammar.ClosesLists (g : Grammar) : Prop where
  empty_of : ∀ r production, g.find? r = some production →
    production.body.mayBeEmpty Rule.mayBeEmpty = true → r.mayBeEmpty = true
  kept : ∀ {r production}, g.find? r = some production → production.collapse = true →
    r.isCollapsing = true
  body : ∀ {r production}, g.find? r = some production → r.closesWith production.body = true

namespace Rule

variable {r : Rule}

theorem mayBeEmpty_of_isOpen (h : r.isOpen = true) : r.mayBeEmpty = false := by
  unfold isOpen at h
  split at h <;> first | rfl | cases h

theorem isCloser_of_isOpen (h : r.isOpen = true) : r.isCloser = false := by
  unfold isOpen at h
  split at h <;> first | rfl | cases h

theorem isCollapsing_of_isOpen (h : r.isOpen = true) : r.isCollapsing = false := by
  unfold isOpen at h
  split at h <;> first | rfl | cases h

theorem isCollapsing_of_isCloser (h : r.isCloser = true) : r.isCollapsing = false := by
  unfold isCloser at h
  split at h <;> first | rfl | cases h

end Rule

section
variable {g : Grammar} {tokens : TokenStream}

open PackratCpp.Tree

theorem Yields.items_append {es ds : List Expr} {p stop : Nat} {trees : List Tree}
    (h : Yields g tokens (.items (es ++ ds)) p stop trees) : ∃ q ts us,
      Yields g tokens (.items es) p q ts ∧ Yields g tokens (.items ds) q stop us ∧
      trees = ts ++ us := by
  induction es generalizing p trees with
  | nil => exact ⟨p, [], trees, .itemsDone, h, rfl⟩
  | cons e es ih =>
    cases h with
    | itemsNext he hes =>
      obtain ⟨q, ts, us, hts, hus, rfl⟩ := ih hes
      exact ⟨q, _, us, .itemsNext he hts, hus, (List.append_assoc ..).symm⟩

theorem Grammar.ClosesLists.node_eq (hg : g.ClosesLists) {q : Rule} {production : Production}
    (hf : g.find? q = some production) (hq : q.isCollapsing = false) (p stop : Nat)
    (trees : List Tree) : production.node q p stop trees = .node q p stop trees := by
  refine Production.node_of_not_collapse ?_
  rintro ⟨hcollapse, -⟩
  rw [hg.kept hf hcollapse] at hq
  cases hq

/-- **What an open rule spans lacks its closing once, at its end, and nothing else lacks it.**  The
induction is on what is spanned; a rule that takes a `>>` starts anew. -/
theorem Yields.unclosed (hg : g.ClosesLists) {t : Task} {p stop : Nat} {trees : List Tree}
    (h : Yields g tokens t p stop trees) :
    (t.takesOnly Expr.notOpen = true → unclosedAll trees = []) ∧
      (t.endsOpen = true → ∃ n, unclosedAll trees = [n] ∧ n.stop = stop) := by
  induction h with
  | token | anyToken => exact ⟨fun _ => rfl, fun h => absurd h Bool.false_ne_true⟩
  | @rule q production p stop trees hf h ih =>
    have hbody := hg.body hf
    unfold Rule.closesWith at hbody
    refine ⟨fun hq => ?_, fun hq => ?_⟩
    · have hq : q.isOpen = false := by simpa [Task.takesOnly, Expr.takesOnly, Expr.notOpen] using hq
      rw [Production.tree?]
      split_ifs
      · rfl
      rw [Option.toList_some]
      by_cases hcloser : q.isCloser = true
      · rw [hg.node_eq hf (Rule.isCollapsing_of_isCloser hcloser)]
        simp [unclosedAll, Tree.unclosed, hcloser]
      · rw [if_neg hcloser, if_neg (by simp [hq])] at hbody
        rw [unclosedAll_node (Bool.eq_false_iff.2 hcloser) (by rintro rfl; cases hq)]
        exact ih.1 hbody
    · -- an open rule is never empty, and so it has a tree
      have hopen : q.isOpen = true := hq
      have hcloser := Rule.isCloser_of_isOpen hopen
      have hlt : p < stop := ((Yields.rule hf h).lt_or_mayBeEmpty hg.empty_of).resolve_right
        (by simp [Task.mayBeEmpty, Expr.mayBeEmpty, Rule.mayBeEmpty_of_isOpen hopen])
      rw [if_neg (by simp [hcloser])] at hbody
      rw [Production.tree?, if_neg (by omega), Option.toList_some]
      by_cases hinner : q = .innerSimpleTemplateId
      · subst hinner
        rw [if_neg (by decide)] at hbody
        refine ⟨.node .innerSimpleTemplateId p stop trees, ?_, rfl⟩
        rw [hg.node_eq hf rfl, unclosedAll, unclosedAll, Tree.unclosed, ih.1 hbody]
        rfl
      · rw [if_pos (by simp [hopen, hinner])] at hbody
        rw [unclosedAll_node hcloser hinner]
        exact ih.2 hbody
  | seq _ ih | choice _ ih => exact ih
  | itemsDone => exact ⟨fun _ => rfl, fun h => absurd h Bool.false_ne_true⟩
  | @itemsNext e es p q trees stop trees' _ h₂ ih₁ ih₂ =>
    rw [unclosedAll_append]
    refine ⟨fun ht => ?_, fun ht => ?_⟩
    · obtain ⟨ht₁, ht₂⟩ := Bool.and_eq_true_iff.1 ht
      rw [ih₁.1 ht₁, ih₂.1 ht₂]
      rfl
    · simp only [Task.endsOpen, Expr.lastEndsOpen] at ht
      split_ifs at ht with hes
      · rw [List.isEmpty_iff.1 hes] at h₂
        cases h₂
        simpa [unclosedAll] using ih₁.2 ht
      · obtain ⟨ht₁, ht₂⟩ := Bool.and_eq_true_iff.1 ht
        rw [ih₁.1 ht₁]
        exact ih₂.2 ht₂
  | alternatives hm _ ih =>
    exact ⟨fun ht => ih.1 (Expr.takesOnly_of_mem ht hm), fun ht => ih.2 (Expr.endsOpen_of_mem ht hm)⟩
  | option _ ih | star _ ih => exact ⟨ih.1, fun h => absurd h Bool.false_ne_true⟩
  | plus _ _ ih₁ ih₂ | turnsNext _ _ ih₁ ih₂ =>
    refine ⟨fun ht => ?_, fun h => absurd h Bool.false_ne_true⟩
    rw [unclosedAll_append, ih₁.1 ht, ih₂.1 ht]
    rfl
  | optionSkip | plusEmpty | turnsDone | followedBy | notFollowedBy | epsilon =>
    exact ⟨fun _ => rfl, fun h => absurd h Bool.false_ne_true⟩

theorem Yields.tokensAmong_rule (hg : g.ClosesLists) {q : Rule} {p stop : Nat} {trees : List Tree}
    (h : Yields g tokens (.expr (.rule q)) p stop trees) (hq : q.isCollapsing = false) :
    tokensAmong trees = [] := by
  cases h with
  | rule hf h =>
    rw [Production.tree?]
    split_ifs
    · rfl
    · rw [hg.node_eq hf hq]
      rfl

theorem Yields.shiftsAmong_eq_nil (hg : g.ClosesLists) {t : Task} {p stop : Nat} {trees : List Tree}
    (h : Yields g tokens t p stop trees) (ht : t.takesOnly Expr.notShift = true) :
    shiftsAmong tokens trees = [] := by
  induction h with
  | @token test p u hu ha =>
    cases test with
    | text s =>
      have hs : s ≠ ">>" := by simpa [Task.takesOnly, Expr.takesOnly, Expr.notShift] using ht
      have htext : u.text = s := by
        simp only [Terminal.accepts, Bool.and_eq_true, beq_iff_eq] at ha
        exact ha.2
      simp [shiftsAmong, tokensAmong, TokenStream.isShift, hu, htext, hs]
    | keyword | kind => cases ht
  | anyToken => cases ht
  | rule hf h =>
    have hq := (Bool.and_eq_true_iff.1 ht).2
    rw [shiftsAmong, (Yields.rule hf h).tokensAmong_rule hg (by simpa using hq)]
    rfl
  | seq _ ih | choice _ ih | option _ ih | star _ ih => exact ih ht
  | alternatives hm _ ih => exact ih (Expr.takesOnly_of_mem ht hm)
  | itemsNext _ _ ih₁ ih₂ =>
    obtain ⟨ht₁, ht₂⟩ := Bool.and_eq_true_iff.1 ht
    rw [shiftsAmong_append, ih₁ ht₁, ih₂ ht₂]
    rfl
  | plus _ _ ih₁ ih₂ | turnsNext _ _ ih₁ ih₂ =>
    rw [shiftsAmong_append, ih₁ ht, ih₂ ht]
    rfl
  | itemsDone | optionSkip | plusEmpty | turnsDone | followedBy | notFollowedBy | epsilon => rfl

theorem Yields.closedBy_single (hg : g.ClosesLists) {t : Task} {p stop : Nat} {trees : List Tree}
    (h : Yields g tokens t p stop trees) (ht : t.takesOnly Expr.notShift = true)
    (ht' : t.takesOnly Expr.notOpen = true) : ClosedBy tokens trees :=
  .single (h.shiftsAmong_eq_nil hg ht) ((h.unclosed hg).1 ht')

theorem Yields.closedBy_double (hg : g.ClosesLists) {front : List Expr} {q : Rule} {p stop : Nat}
    {trees : List Tree}
    (h : Yields g tokens (.items (front ++ [.rule q, .token (.text ">>")])) p stop trees)
    (hq : q.isOpen = true) (hfront : Expr.allTakeOnly Expr.notShift front = true) :
    ClosedBy tokens trees := by
  obtain ⟨p₁, ts, us, hts, hus, rfl⟩ := h.items_append
  cases hus with
  | itemsNext hrule hrest =>
    cases hrest with
    | itemsNext htoken hdone =>
      cases hdone
      cases htoken with
      | @token _ p₂ u hu ha =>
        obtain ⟨n, hn, rfl⟩ := (hrule.unclosed hg).2 hq
        have hopen := Expr.allTakeOnly_mono Expr.notOpen_of_notShift front hfront
        have hshift : tokens.isShift n.stop = true := by
          simp only [Terminal.accepts, Bool.and_eq_true, beq_iff_eq] at ha
          simp [TokenStream.isShift, hu, ha.2]
        have hfree : shiftsAmong tokens _ = [] := congrArg (List.filter tokens.isShift)
          (hrule.tokensAmong_rule hg (Rule.isCollapsing_of_isOpen hq))
        have hlast : shiftsAmong tokens [.leaf n.stop] = [n.stop] := by
          simp [shiftsAmong, tokensAmong, hshift]
        refine .double (n := n) ?_ ?_ ?_
        · rw [shiftsAmong_append, shiftsAmong_append, hts.shiftsAmong_eq_nil hg hfront, hfree,
            List.append_nil, hlast]
          rfl
        · rw [unclosedAll_append, unclosedAll_append, (hts.unclosed hg).1 hopen, hn]
          rfl
        · simp

/-- **The children of a node that takes a `>>` are closed by it.** -/
theorem Yields.closedBy (hg : g.ClosesLists) {e : Expr} {p stop : Nat} {trees : List Tree}
    (h : Yields g tokens (.expr e) p stop trees) (he : e.closes = true) : ClosedBy tokens trees := by
  have hone : ∀ {d : Expr}, Yields g tokens (.expr d) p stop trees → d.closesOne = true →
      ClosedBy tokens trees := by
    intro d hd hclose
    unfold Expr.closesOne at hclose
    split at hclose
    · next items =>
      cases hd with
      | seq hd =>
        rcases Bool.or_eq_true_iff.1 hclose with hclose | hclose
        · obtain ⟨front, q, rfl, hq, hfront⟩ := Expr.exists_of_endsWithShift hclose
          exact hd.closedBy_double hg hq hfront
        · exact hd.closedBy_single hg hclose
            (Expr.allTakeOnly_mono Expr.notOpen_of_notShift items hclose)
    · exact hd.closedBy_single hg hclose (Expr.takesOnly_mono Expr.notOpen_of_notShift d hclose)
  unfold Expr.closes at he
  split at he
  · next alternatives =>
    cases h with
    | choice h =>
      cases h with
      | alternatives hm h => exact hone h (List.all_eq_true.1 he _ hm)
  · exact hone h he

end

/-! ## The grammar of every dialect -/

/-- Whether the body of a rule closes the lists that it should. -/
def GrammarStep.closesLists : GrammarStep → Bool
  | .define rule body collapse => (!collapse || rule.isCollapsing) && rule.closesWith body
  | .mock _ => false

namespace Dialect

theorem all_closesLists : ∀ recovery gnu managed atl : Bool,
    stepsPass recovery ⟨gnu, managed, atl⟩ (·.closesLists) = true := by
  decide +kernel

/-- **The grammar of every dialect closes its lists.** -/
theorem closesLists (d : Dialect) : (d.grammar []).ClosesLists := by
  have hstep : ∀ {r production}, (d.grammar []).find? r = some production →
      (!production.collapse || r.isCollapsing) = true ∧ r.closesWith production.body = true := by
    intro r production hf
    exact Bool.and_eq_true_iff.1 (check_of_find? all_closesLists hf)
  constructor
  case empty_of => exact (d.ranked []).empty_of
  case kept =>
    intro r production hf hcollapse
    simpa [hcollapse] using (hstep hf).1
  case body => exact fun hf => (hstep hf).2

end Dialect

namespace Grammar

variable {g : Grammar} {tokens : TokenStream} {root : Rule} {maxDepth? : Option Nat} {r : Parse}

theorem ClosesLists.unclosed_eq_nil (hg : g.ClosesLists)
    (hr : g.parse tokens root maxDepth? = .ok r) (hroot : root.isOpen = false) :
    r.tree.unclosed = [] := by
  obtain ⟨production, stop, trees, hf, -, htree, -, hy, -⟩ :=
    root_of_parse (Yields.closed g tokens) hr
  have hbody := hg.body hf
  unfold Rule.closesWith at hbody
  have hall : Tree.unclosedAll [r.tree] = [] := by
    rw [htree]
    by_cases hcloser : root.isCloser = true
    · rw [hg.node_eq hf (Rule.isCollapsing_of_isCloser hcloser)]
      simp [Tree.unclosedAll, Tree.unclosed, hcloser]
    · rw [if_neg hcloser, if_neg (by simp [hroot])] at hbody
      rw [Tree.unclosedAll_node (Bool.eq_false_iff.2 hcloser) (by rintro rfl; cases hroot)]
      exact (hy.unclosed hg).1 hbody
  simpa [Tree.unclosedAll] using hall

theorem ClosesLists.closedBy (hg : g.ClosesLists) (hr : g.parse tokens root maxDepth? = .ok r)
    {u : Tree} (hu : u ∈ r.tree.preorder) (hcloser : u.isCloser = true) :
    Tree.ClosedBy tokens u.children := by
  cases u with
  | leaf => cases hcloser
  | node q s e cs =>
    obtain ⟨-, production, hf, hy⟩ := node_of_parse (Yields.closed g tokens) hr hu
    have hq : q.isCloser = true := hcloser
    have hbody := hg.body hf
    unfold Rule.closesWith at hbody
    rw [if_pos hq] at hbody
    exact hy.closedBy hg hbody

/-- **Every `>>` that closes template lists closes two of them.**  In the tree of a finished parse, in
every dialect and whatever the limit on depth, the template-ids that are left to a `>>` and the `>>`
among the children of the rules that take one belong together one by one: a template-id ends where its
`>>` is, and that is the last child of the nearest node around it that takes one. -/
theorem standard_closes_templates (d : Dialect) : ∃ g, standard? d [] = .ok g ∧
    ∀ (tokens : TokenStream) (root : Rule) (maxDepth? : Option Nat) (r : Parse),
      root.isOpen = false → g.parse tokens root maxDepth? = .ok r →
      Set.BijOn Tree.stop {n | n ∈ r.tree.preorder ∧ n.rule? = some .innerSimpleTemplateId}
        {i | ∃ u ∈ r.tree.preorder, u.isCloser = true ∧ .leaf i ∈ u.children ∧
          tokens.isShift i = true} ∧
      r.tree.preorder.Nodup ∧
      ∀ n ∈ r.tree.preorder, n.rule? = some .innerSimpleTemplateId →
        (∃ u ∈ r.tree.preorder, u.isCloser = true ∧ u.Around n) ∧
        ∀ u ∈ r.tree.preorder, u.isCloser = true → u.Around n →
          u.children.getLast? = some (.leaf n.stop) ∧ tokens.isShift n.stop = true := by
  have hg := d.closesLists
  refine ⟨_, standard?_eq d [], fun tokens root maxDepth? r hroot hr => ?_⟩
  have hnone := hg.unclosed_eq_nil hr hroot
  have hclosed : ∀ u ∈ r.tree.preorder, u.isCloser = true → Tree.ClosedBy tokens u.children :=
    fun u hu hcloser => hg.closedBy hr hu hcloser
  obtain ⟨htiled, hsolid, -⟩ := tiled_of_parse hr
  refine ⟨?_, htiled.nodup hsolid, fun n hn hinner => ⟨?_, fun u hu hcloser haround => ?_⟩⟩
  · simpa only [Tree.isInner, decide_eq_true_eq] using Tree.bijOn_stop htiled hclosed hnone
  · rcases Tree.exists_around (decide_eq_true hinner) r.tree hn with h | h
    · rw [hnone] at h
      cases h
    · exact h
  · exact (hclosed u hu hcloser).last_eq (decide_eq_true hinner) haround

/-- The type of a list of lists. -/
def listOfLists : TokenStream :=
  .terminated [⟨.identifier, "list", 1, 1, 0⟩, ⟨.punctuator, "<", 1, 5, 4⟩,
    ⟨.identifier, "list", 1, 6, 5⟩, ⟨.punctuator, "<", 1, 10, 9⟩, ⟨.keyword, "int", 1, 11, 10⟩,
    ⟨.punctuator, ">>", 1, 14, 13⟩] ⟨.eof, "", 1, 16, 15⟩

/-- Its one `>>` is where the inner list ends. -/
theorem listOfLists_closes_templates :
    ∃ g, standard? .standard [] = .ok g ∧ Rule.isOpen .simpleTemplateId = false ∧
      ∃ r, g.parse listOfLists .simpleTemplateId (some 100) = .ok r ∧
        Tree.innerStops r.tree.preorder = [5] ∧
        Set.BijOn Tree.stop {n | n ∈ r.tree.preorder ∧ n.rule? = some .innerSimpleTemplateId}
          {i | ∃ u ∈ r.tree.preorder, u.isCloser = true ∧ .leaf i ∈ u.children ∧
            listOfLists.isShift i = true} := by
  have hstops : (Dialect.standard.lookup.parse listOfLists .simpleTemplateId (some 100)).toOption.map
      (fun r => Tree.innerStops r.tree.preorder) = some [5] := by decide +kernel
  obtain ⟨r, hr, hstops⟩ := Dialect.standard.parse_of_lookup hstops
  obtain ⟨g, hg, hcloses⟩ := standard_closes_templates .standard
  cases (standard?_eq _ _).symm.trans hg
  exact ⟨_, hg, rfl, r, hr, hstops, (hcloses _ _ _ r rfl hr).1⟩

end Grammar

end PackratCpp
