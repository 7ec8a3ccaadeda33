/-
  Square brackets that are owed.

  * `TokenStream.owed`: how many more `]` than `[` there are from a place on.  `owed_matchBrackets`: what
    is matched with a stack tells how this changes.
  * `Expr.pending?`: how many `[` wait for their `]` behind an expression.  There is no answer if the
    expression may take a `]` that none of them waits for, or ask for one.
  * `Grammar.Steady`: the bodies of the rules below the top level pass this check.  `Dialect.steady`: so
    they do in every dialect.
  * `Derives.keeps`: then a match owes no less at its end than at its start, and neither does what is left
    of it behind a node that starts where it does.
-/
import PackratCpp.Proofs.Branches

namespace PackratCpp

open BracketKind

/-! ## Closing brackets that are owed -/

namespace TokenStream

/-- How many tokens from a place on are spelled like this. -/
def occurrences (s : TokenStream) (text : String) (p : Nat) : Nat :=
  ((s.between p s.eofIndex).map (·.text)).count text

/-- How many more closing than opening square brackets there are from a place on. -/
def owed (s : TokenStream) (p : Nat) : Int :=
  s.occurrences "]" p - s.occurrences "[" p

/-- Every opening square bracket is closed: there is no place behind which there are more of them than
closing ones. -/
def ClosesSquares (s : TokenStream) : Prop :=
  ∀ p, p ≤ s.eofIndex → 0 ≤ s.owed p

variable {s : TokenStream} {t : Token} {p q m : Nat} {stack stack' : List BracketKind}

theorem owed_eofIndex (s : TokenStream) : s.owed s.eofIndex = 0 := by
  simp [owed, occurrences, between_self]

theorem occurrences_succ (ht : s.get? p = some t) (hp : p < s.eofIndex) (text : String) :
    s.occurrences text p = s.occurrences text (p + 1) + if t.text = text then 1 else 0 := by
  rw [occurrences, ← between_append (Nat.le_succ p) hp, between_succ ht, List.singleton_append,
    List.map_cons, List.count_cons, occurrences]
  simp

theorem owed_succ (ht : s.get? p = some t) (hp : p < s.eofIndex) : s.owed (p + 1) =
    s.owed p + (if t.text = "[" then 1 else 0) - (if t.text = "]" then 1 else 0) := by
  rw [owed, owed, occurrences_succ ht hp, occurrences_succ ht hp]
  push_cast
  split_ifs <;> omega

theorem owed_le_succ (ht : s.get? p = some t) (hp : p < s.eofIndex) (hno : t.text ≠ "]") :
    s.owed p ≤ s.owed (p + 1) := by
  rw [owed_succ ht hp, if_neg hno]
  split_ifs <;> omega

/-- **What is matched with a stack** adds to what is owed as many brackets as it adds to the stack. -/
theorem owed_matchBrackets (hpq : p ≤ q) (hq : q ≤ s.eofIndex)
    (h : matchBrackets stack (s.between p q) = some stack') :
    s.owed q + stack.count .square = s.owed p + stack'.count .square := by
  induction hn : q - p generalizing p stack with
  | zero =>
    obtain rfl : p = q := by omega
    rw [between_self] at h
    cases h
    rfl
  | succ n ih =>
    have hlt : p < q := by omega
    obtain ⟨t, ht, -⟩ := exists_token (Nat.lt_of_lt_of_le hlt hq)
    rw [matchBrackets_between ht hlt, Option.bind_eq_some_iff] at h
    obtain ⟨stack₁, hstep, hrest⟩ := h
    have hind := ih (by omega) hrest (by omega)
    have hsucc := owed_succ ht (Nat.lt_of_lt_of_le hlt hq)
    by_cases hm : t.text ∈ spellings
    · rcases cases_of_mem hm with ⟨b, hb⟩ | ⟨b, hb⟩
      · rw [hb, step_opener] at hstep
        cases hstep
        rw [hb] at hsucc
        cases b <;> simp [opener] at hsucc hind <;> omega
      · rw [hb] at hstep hsucc
        cases stack with
        | nil => rw [step_nil_closer] at hstep; cases hstep
        | cons c rest =>
          rw [step_closer] at hstep
          split_ifs at hstep with hc
          cases hstep
          subst hc
          cases b <;> simp [closer] at hsucc ⊢ <;> omega
    · rw [step_of_notMem hm] at hstep
      cases hstep
      have hopen : t.text ≠ "[" := fun he => hm (by rw [he]; decide)
      have hclose : t.text ≠ "]" := fun he => hm (by rw [he]; decide)
      rw [if_neg hopen, if_neg hclose] at hsucc
      omega

theorem owed_of_wellNested (h : WellNested (s.between p q)) (hq : q ≤ s.eofIndex) (hpm : p ≤ m)
    (hmq : m ≤ q) : s.owed q = s.owed p ∧ s.owed p ≤ s.owed m := by
  have hall := owed_matchBrackets (Nat.le_trans hpm hmq) hq h
  rw [WellNested, ← between_append hpm hmq, matchBrackets_append, Option.bind_eq_some_iff] at h
  obtain ⟨stack, hfirst, -⟩ := h
  have hpart := owed_matchBrackets hpm (Nat.le_trans hmq hq) hfirst
  simp only [List.count_nil] at hall hpart
  omega

theorem closesSquares_of_wellNested (h : WellNested (s.between 0 s.eofIndex)) : s.ClosesSquares := by
  intro p hp
  have := owed_of_wellNested h (Nat.le_refl _) (Nat.zero_le p) hp
  have := s.owed_eofIndex
  omega

/-- What can stand between square brackets: brackets are punctuators, the square ones are closed, and no
assembly code is taken as it comes. -/
structure Contained (s : TokenStream) : Prop where
  punctuates : s.PunctuatesBrackets
  closes : s.ClosesSquares
  no_asm : ∀ {i t}, s.get? i = some t → (Terminal.keyword .kAsm).accepts t = false

/-- A token that is not a closing square bracket, nor the end of input, stands at a place. -/
def InsideAt (s : TokenStream) (p : Nat) : Prop :=
  ∃ t, s.get? p = some t ∧ t.isEof = false ∧ t.text ≠ "]"

theorem InsideAt.lt_eofIndex (h : s.InsideAt p) : p < s.eofIndex := by
  obtain ⟨t, ht, heof, -⟩ := h
  exact TokenStream.lt_eofIndex ht heof

theorem insideAt_of_false (h : false = true) : s.InsideAt p :=
  absurd h Bool.false_ne_true

end TokenStream

/-! ## Brackets that are pending -/

/-- How many square brackets are open behind a test that passes, if `n` are in front of it.  A `]` has to
close one of them.  Unless it is known that a token `inside` comes next, no test may ask for the end of
input, or for punctuators of any spelling. -/
def Terminal.pending? (inside : Bool) (n : Nat) : Terminal → Option Nat
  | .text s =>
    if s = "[" then some (n + 1)
    else if s = "]" && !inside then if 0 < n then some (n - 1) else none
    else some n
  | .kind k => if !inside && (k = .punctuator || k = .eof) then none else some n
  | .keyword _ => some n

namespace Expr

/-- Whether a closing bracket passes one of the tests that some alternatives begin with. -/
def takeCloser : List Expr → Bool
  | .token (.text s) :: es => s = "]" || takeCloser es
  | _ => false

/-- Whether an expression matches at a closing bracket and at the end of input. -/
def isStop : Expr → Bool
  | .choice es => takeCloser es && .kind .eof ∈ (Task.alternatives es).tests
  | _ => false

/-- Whether an expression matches only in front of a token inside, if `n` brackets are open. -/
def keepsInside (n : Nat) : Expr → Bool
  | .notFollowedBy e => .text "]" ∈ (Task.expr e).tests && (0 < n || .kind .eof ∈ (Task.expr e).tests)
  | _ => false

mutual

/-- How many square brackets are open behind an expression, if `n` are in front of it: none that was open
before a part that may be left out or repeated is closed there.  Lookaheads are subject to the same check,
since they must not see what comes behind the last bracket. -/
def pending? (inside : Bool) (n : Nat) : Expr → Option Nat
  | .token test => test.pending? inside n
  | .anyToken => if inside then some n else none
  | .rule r => if r.isNested then some n else none
  | .seq es => pendingBehind? inside n es
  | .choice es => if allPending inside n es then some n else none
  | .option e | .star e | .plus e => if (pending? false n e).any (n ≤ ·) then some n else none
  | .followedBy e | .notFollowedBy e =>
    if (pending? (inside || isStop e) n e).isSome then some n else none
  | .epsilon | .never => some n

/-- The same for a sequence.  What comes behind `asm` does not count. -/
def pendingBehind? (inside : Bool) (n : Nat) : List Expr → Option Nat
  | [] => some n
  | e :: es =>
    if e.test? = some (.keyword .kAsm) then
      some n
    else
      match pending? inside n e with
      | some m => pendingBehind? (keepsInside n e) m es
      | none => none

/-- Whether each of some expressions closes no bracket that was open before. -/
def allPending (inside : Bool) (n : Nat) : List Expr → Bool
  | [] => true
  | e :: es => (pending? inside n e).any (n ≤ ·) && allPending inside n es

end

end Expr

namespace Task

/-- How many square brackets are open behind a task. -/
def pending? (inside : Bool) (n : Nat) : Task → Option Nat
  | .expr e => e.pending? inside n
  | .items es => Expr.pendingBehind? inside n es
  | .alternatives es => if Expr.allPending inside n es then some n else none
  | .turns e => if (e.pending? false n).any (n ≤ ·) then some n else none

variable {inside : Bool} {n n' : Nat} {e : Expr} {es : List Expr}

theorem pending?_turns (h : (Task.turns e).pending? false n = some n') :
    n' = n ∧ ∃ m, n ≤ m ∧ (Task.expr e).pending? false n = some m := by
  rw [pending?] at h
  split_ifs at h with hany
  obtain ⟨m, hm, hle⟩ := (Option.any_eq_true _ _).1 hany
  exact ⟨(Option.some.inj h).symm, m, of_decide_eq_true hle, hm⟩

theorem pending?_items (h : (Task.items (e :: es)).pending? inside n = some n') :
    ∃ m, (Task.expr e).pending? inside n = some m ∧ (e.test? = some (.keyword .kAsm) ∨
      (Task.items es).pending? (e.keepsInside n) m = some n') := by
  rw [pending?, Expr.pendingBehind?] at h
  split_ifs at h with hasm
  · refine ⟨n, ?_, Or.inl hasm⟩
    cases e <;> cases hasm
    rfl
  · split at h
    · next m hm => exact ⟨m, hm, Or.inr h⟩
    · cases h

theorem pending?_alternatives (h : (Task.alternatives (e :: es)).pending? inside n = some n') :
    n' = n ∧ (∃ m, n ≤ m ∧ (Task.expr e).pending? inside n = some m) ∧
      (Task.alternatives es).pending? inside n = some n := by
  rw [pending?] at h
  split_ifs at h with hall
  rw [Expr.allPending, Bool.and_eq_true] at hall
  obtain ⟨m, hm, hle⟩ := (Option.any_eq_true _ _).1 hall.1
  refine ⟨(Option.some.inj h).symm, ⟨m, of_decide_eq_true hle, hm⟩, ?_⟩
  rw [pending?, if_pos hall.2]

theorem pending?_ahead
    (h : (if (e.pending? (inside || e.isStop) n).isSome then some n else none) = some n') :
    n' = n ∧ ∃ m, (Task.expr e).pending? (inside || e.isStop) n = some m := by
  split_ifs at h with hsome
  exact ⟨(Option.some.inj h).symm, Option.isSome_iff_exists.1 hsome⟩

end Task

/-- The rules below the top level close no bracket that they have not opened. -/
def Grammar.Steady (g : Grammar) : Prop :=
  ∀ {r production}, g.find? r = some production → r.isNested = true →
    ∃ m, (Task.expr production.body).pending? false 0 = some m

/-- Whether a step gives a body that closes no bracket that it has not opened. -/
def GrammarStep.isSteady : GrammarStep → Bool
  | .define rule body _ => !rule.isNested || (body.pending? false 0).isSome
  | .mock _ => false

theorem Dialect.all_isSteady : ∀ recovery gnu managed atl : Bool,
    stepsPass recovery ⟨gnu, managed, atl⟩ (·.isSteady) = true := by
  decide +kernel

/-- **The grammar of every dialect is steady.** -/
theorem Dialect.steady (d : Dialect) : (d.grammar []).Steady := by
  intro r production hf hr
  have hsteady := check_of_find? all_isSteady hf
  simp only [GrammarStep.isSteady, hr, Bool.not_true, Bool.false_or] at hsteady
  exact Option.isSome_iff_exists.1 hsteady

/-! ## Matches keep what is owed -/

/-- A match from `p` to `stop`, in front of which `n` brackets are open and behind which `n'` are, owes no
less at its end than at its start; neither does what is left of it behind a node that starts at `p`. -/
structure TokenStream.Keeps (s : TokenStream) (n n' p stop : Nat) (trees : List Tree) : Prop where
  le_eofIndex : stop ≤ s.eofIndex
  owed_le : s.owed p + n' ≤ s.owed stop + n
  nodes : ∀ {q e cs}, .node q p e cs ∈ Tree.preorderAll trees → s.owed e + n' ≤ s.owed stop + n

namespace TokenStream.Keeps

variable {s : TokenStream} {n m n' p q stop : Nat} {ts us : List Tree}

theorem nil (hp : p ≤ s.eofIndex) : s.Keeps n n p p [] where
  le_eofIndex := hp
  owed_le := Int.le_refl _
  nodes h := nomatch h

theorem leaf (hp : p < s.eofIndex) (h : s.owed p + n' ≤ s.owed (p + 1) + n) :
    s.Keeps n n' p (p + 1) [.leaf p] where
  le_eofIndex := hp
  owed_le := h
  nodes h := by
    simp only [Tree.preorderAll, Tree.preorder, List.append_nil, List.mem_singleton] at h
    cases h

theorem leaf_of_ne {t : Token} (ht : s.get? p = some t) (heof : t.isEof = false) (hno : t.text ≠ "]") :
    s.Keeps n n p (p + 1) [.leaf p] := by
  have hp := TokenStream.lt_eofIndex ht heof
  have := TokenStream.owed_le_succ ht hp hno
  exact .leaf hp (by omega)

theorem weaken (h : s.Keeps n m p stop ts) (hle : n' ≤ m) : s.Keeps n n' p stop ts where
  le_eofIndex := h.le_eofIndex
  owed_le := by have := h.owed_le; omega
  nodes hm := by have := h.nodes hm; omega

theorem append (h : s.Keeps n m p q ts) (h' : s.Keeps m n' q stop us) (htiling : Tree.Tiling us q stop)
    (hpq : p ≤ q) : s.Keeps n n' p stop (ts ++ us) where
  le_eofIndex := h'.le_eofIndex
  owed_le := by have := h.owed_le; have := h'.owed_le; omega
  nodes {r e cs} hm := by
    have hfirst := h.owed_le
    have hrest := h'.owed_le
    rw [Tree.preorderAll_append, List.mem_append] at hm
    rcases hm with hm | hm
    · have := h.nodes hm
      omega
    · -- a node of the rest starts where the whole does only if the first part is empty
      obtain rfl : q = p := by
        have := (htiling.bounds _ hm).2.1
        simp only [Tree.start] at this
        omega
      have := h'.nodes hm
      omega

theorem le_owed (h : s.Keeps n m p q ts) (hn : (n : Int) ≤ s.owed p) : (m : Int) ≤ s.owed q := by
  have := h.owed_le
  omega

theorem tree? (h : s.Keeps 0 m p stop ts) (production : Production) (r : Rule) :
    s.Keeps n n p stop (production.tree? r p stop ts).toList := by
  have howed := h.owed_le
  refine ⟨h.le_eofIndex, by omega, fun {q e cs} hm => ?_⟩
  unfold Production.tree? at hm
  split_ifs at hm with hstop
  · cases hm
  · rcases production.node_cases r p stop ts with heq | heq
    · rw [Option.toList_some, ← heq] at hm
      have := h.nodes hm
      omega
    · rw [Option.toList_some, heq] at hm
      simp only [Tree.preorderAll, Tree.preorder, List.append_nil, List.mem_cons] at hm
      rcases hm with hm | hm
      · cases hm
        exact Int.le_refl _
      · have := h.nodes hm
        omega

end TokenStream.Keeps

section
variable {g : Grammar} {s : TokenStream} {inside : Bool} {n n' p : Nat}

theorem Terminal.keeps (hs : s.Contained) {test : Terminal} {t : Token} (ht : s.get? p = some t)
    (ha : test.accepts t = true) (htest : test.pending? inside n = some n')
    (hinside : inside = true → s.InsideAt p) : s.Keeps n n' p (p + 1) [.leaf p] := by
  have hinside : inside = true → t.isEof = false ∧ t.text ≠ "]" := by
    intro h
    obtain ⟨u, hu, heof, htext⟩ := hinside h
    cases ht.symm.trans hu
    exact ⟨heof, htext⟩
  have hpunctuator : t.kind ≠ .punctuator → t.text ≠ "]" := fun hkind he =>
    hkind (hs.punctuates p t ht (by rw [he]; decide))
  cases test with
  | text a =>
    simp only [accepts, Bool.and_eq_true, Bool.not_eq_true', beq_iff_eq] at ha
    obtain ⟨heof, rfl⟩ := ha
    have hp := TokenStream.lt_eofIndex ht heof
    have hsucc := TokenStream.owed_succ ht hp
    simp only [pending?] at htest
    split_ifs at htest with hopen hclose hpending
    · rw [if_pos hopen, if_neg (by rw [hopen]; decide)] at hsucc
      cases htest
      exact .leaf hp (by omega)
    · rw [Bool.and_eq_true, decide_eq_true_eq] at hclose
      rw [if_neg hopen, if_pos hclose.1] at hsucc
      cases htest
      exact .leaf hp (by omega)
    · cases htest
      refine .leaf_of_ne ht heof fun he => ?_
      cases inside with
      | true => exact (hinside rfl).2 he
      | false => exact hclose (by simp [he])
  | keyword w =>
    obtain ⟨hkind, -⟩ := keyword_of_accepts ha
    cases htest
    exact .leaf_of_ne ht (by simp [Token.isEof, hkind]) (hpunctuator (by simp [hkind]))
  | kind k =>
    simp only [accepts, beq_iff_eq] at ha
    subst ha
    simp only [pending?] at htest
    split_ifs at htest with hask
    cases htest
    cases inside with
    | true => exact .leaf_of_ne ht (hinside rfl).1 (hinside rfl).2
    | false =>
      simp only [Bool.not_false, Bool.true_and, Bool.or_eq_true, decide_eq_true_eq, not_or] at hask
      exact .leaf_of_ne ht (Bool.eq_false_iff.2 (mt Token.isEof_iff.1 hask.2)) (hpunctuator hask.1)

theorem Derives.eq_failed_of_asm (hs : s.Contained) {r : Rule} {e : Expr} {v : Verdict}
    {log : List Attempt} (h : Derives g s r (.expr e) p v log)
    (he : e.test? = some (.keyword .kAsm)) : v = .failed := by
  cases e <;> cases he
  cases h with
  | tokenPass ht ha => cases (hs.no_asm ht).symm.trans ha
  | tokenFail | tokenBeyond => rfl

theorem Derives.inside_of_keepsInside {r : Rule} {e : Expr} {q : Nat} {trees : List Tree}
    {log : List Attempt} (h : Derives g s r (.expr e) p (.matched q trees) log)
    (he : e.keepsInside n = true) (hp : p ≤ s.eofIndex) (hn : (n : Int) ≤ s.owed p) : s.InsideAt q := by
  unfold Expr.keepsInside at he
  split at he
  · next body =>
    simp only [Bool.and_eq_true, Bool.or_eq_true, decide_eq_true_eq] at he
    cases h with
    | notAheadFail hfailed =>
      have hlt : p < s.eofIndex := by
        rcases Nat.lt_or_eq_of_le hp with hlt | rfl
        · exact hlt
        · rcases he.2 with hpending | hend
          · have := s.owed_eofIndex
            omega
          · obtain ⟨t, ht, heof⟩ := s.exists_eof
            have hrefused := hfailed.accepts_eq_false hend ht
            simp [Terminal.accepts, Token.isEof_iff.1 heof] at hrefused
      obtain ⟨t, ht, heof⟩ := TokenStream.exists_token hlt
      have hrefused := hfailed.accepts_eq_false he.1 ht
      exact ⟨t, ht, heof, by simpa [Terminal.accepts, heof] using hrefused⟩
  · cases he

/-- **A match keeps what is owed.**  The induction is on the derivation; behind the first part of a sequence
as many brackets are open as the check says, and no more than are still owed. -/
theorem Derives.keeps (hg : g.Steady) (hs : s.Contained) {r : Rule} {t : Task} {stop : Nat}
    {trees : List Tree} {log : List Attempt} (h : Derives g s r t p (.matched stop trees) log)
    (ht : t.pending? inside n = some n') (hp : p ≤ s.eofIndex) (hn : (n : Int) ≤ s.owed p)
    (hinside : inside = true → s.InsideAt p) : s.Keeps n n' p stop trees := by
  generalize hv : Verdict.matched stop trees = v at h
  induction h generalizing stop trees inside n n' with
  | tokenPass hi ha =>
    cases hv
    exact Terminal.keeps hs hi ha ht hinside
  | anyPass hi he =>
    cases hv
    simp only [Task.pending?, Expr.pending?] at ht
    split_ifs at ht with hin
    cases ht
    obtain ⟨u, hu, heof, hno⟩ := hinside hin
    exact .leaf_of_ne hu heof hno
  | ruleMatch hf hd ih =>
    cases hv
    simp only [Task.pending?, Expr.pending?] at ht
    split_ifs at ht with hr
    cases ht
    obtain ⟨m, hm⟩ := hg hf hr
    exact (ih hm hp (hs.closes _ hp) TokenStream.insideAt_of_false rfl).tree? _ _
  | seq _ ih => exact ih ht hp hn hinside hv
  | itemsDone =>
    cases hv
    cases ht
    exact .nil hp
  | itemsMatch hd hd' ih₁ ih₂ =>
    cases hv
    obtain ⟨m, hm, hasm | hrest⟩ := Task.pending?_items ht
    · cases hd.eq_failed_of_asm hs hasm
    · have hfirst := ih₁ hm hp hn hinside rfl
      have hrest := ih₂ hrest hfirst.le_eofIndex (hfirst.le_owed hn)
        (fun he => hd.inside_of_keepsInside he hp hn) rfl
      exact hfirst.append hrest hd'.yields.tiling hd.yields.le
  | choice _ ih => exact ih ht hp hn hinside hv
  | alternativesMatch _ ih =>
    cases hv
    obtain ⟨rfl, ⟨m, hle, hm⟩, -⟩ := Task.pending?_alternatives ht
    exact (ih hm hp hn hinside rfl).weaken hle
  | alternativesNext _ _ _ ih =>
    obtain ⟨rfl, -, hrest⟩ := Task.pending?_alternatives ht
    exact ih hrest hp hn hinside hv
  | optionMatch _ ih =>
    cases hv
    obtain ⟨rfl, m, hle, hm⟩ := Task.pending?_turns ht
    exact (ih hm hp hn TokenStream.insideAt_of_false rfl).weaken hle
  | star _ ih => exact ih ht hp hn hinside hv
  | plusMatch hd _ hd' ih₁ ih₂ | turnsMatch hd _ hd' ih₁ ih₂ =>
    cases hv
    obtain ⟨rfl, m, hle, hm⟩ := Task.pending?_turns ht
    have hfirst := (ih₁ hm hp hn TokenStream.insideAt_of_false rfl).weaken hle
    have hturns : (Task.turns _).pending? false _ = some _ := ht
    have hrest := ih₂ hturns hfirst.le_eofIndex (hfirst.le_owed hn) TokenStream.insideAt_of_false rfl
    exact hfirst.append hrest hd'.yields.tiling hd.yields.le
  | optionSkip | plusEmpty | turnsStop | turnsEmpty =>
    cases hv
    obtain ⟨rfl, -⟩ := Task.pending?_turns ht
    exact .nil hp
  | aheadMatch | notAheadFail =>
    cases hv
    obtain ⟨rfl, -⟩ := Task.pending?_ahead ht
    exact .nil hp
  | epsilon =>
    cases hv
    cases ht
    exact .nil hp
  | tokenFail | tokenBeyond | anyFail | ruleFail | ruleMissing | itemsStop | itemsFail
  | alternativesDone | plusFail | aheadFail | notAheadMatch | never => cases hv

theorem Derives.rule_keeps (hg : g.Steady) (hs : s.Contained) {r q : Rule} {stop : Nat}
    {trees : List Tree} {log : List Attempt}
    (h : Derives g s r (.expr (.rule q)) p (.matched stop trees) log) (hq : q.isNested = true)
    (hp : p ≤ s.eofIndex) : s.Keeps 0 0 p stop trees := by
  have hpending : (Task.expr (.rule q)).pending? false 0 = some 0 := by
    rw [Task.pending?, Expr.pending?, if_pos hq]
  exact h.keeps hg hs hpending hp (hs.closes p hp) TokenStream.insideAt_of_false

end

end PackratCpp
