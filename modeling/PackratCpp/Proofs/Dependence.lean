/-
  What evaluation depends on.

  * `TokenStream.Alike`: streams with the same kinds and spellings in the same order, wherever
    their tokens stand.
  * `Expr.evaluate_congr`: an expression looks at nothing but the kinds and spellings of tokens and
    what the rules that it mentions do.
  * `Setup.invoke_congr`: neither does a rule that keeps to closed rules, on which two grammars
    agree.
  * `Grammar.evaluateRoot_congr`, `Grammar.parse_of_agree`: so it is for a whole parse.
-/
import PackratCpp.Parse.Basic
import PackratCpp.Proofs.Scope

namespace PackratCpp

/-! ## Kinds and spellings -/

/-- What a token has to do with parsing. -/
def Token.reading (t : Token) : TokenKind × String :=
  (t.kind, t.text)

/-- The same kinds and spellings in the same order. -/
def TokenStream.Alike (s s' : TokenStream) : Prop :=
  s.tokens.toList.map Token.reading = s'.tokens.toList.map Token.reading

theorem Token.isEof_congr {t t' : Token} (h : t.reading = t'.reading) : t.isEof = t'.isEof := by
  obtain ⟨hkind, -⟩ := Prod.mk.inj h
  rw [isEof, isEof, hkind]

theorem Terminal.accepts_congr {t t' : Token} (h : t.reading = t'.reading) (test : Terminal) :
    test.accepts t = test.accepts t' := by
  obtain ⟨hkind, htext⟩ := Prod.mk.inj h
  cases test <;> simp only [accepts, Token.isEof_congr h, hkind, htext]

namespace TokenStream.Alike

variable {s s' : TokenStream}

theorem refl (s : TokenStream) : s.Alike s := rfl

theorem length_eq (h : s.Alike s') : s.length = s'.length := by
  simpa [length] using congrArg List.length h

theorem eofIndex_eq (h : s.Alike s') : s.eofIndex = s'.eofIndex := by
  rw [eofIndex, eofIndex, h.length_eq]

theorem map_get? (h : s.Alike s') (i : Nat) :
    (s.get? i).map Token.reading = (s'.get? i).map Token.reading := by
  simpa [get?] using congrArg (·[i]?) h

theorem get?_cases (h : s.Alike s') (i : Nat) :
    s.get? i = none ∧ s'.get? i = none ∨
      ∃ t t', s.get? i = some t ∧ s'.get? i = some t' ∧ t.reading = t'.reading := by
  have hmap := h.map_get? i
  cases ht : s.get? i with
  | none =>
    rw [ht, Option.map_none, eq_comm, Option.map_eq_none_iff] at hmap
    exact Or.inl ⟨rfl, hmap⟩
  | some t =>
    rw [ht, Option.map_some, eq_comm, Option.map_eq_some_iff] at hmap
    obtain ⟨t', ht', hread⟩ := hmap
    exact Or.inr ⟨t, t', rfl, ht', hread.symm⟩

end TokenStream.Alike

/-! ## Expressions -/

section
variable {tokens tokens' : TokenStream} {inside : Rule → Bool} {call call' : RuleCall}

theorem Terminal.evaluate_congr (h : tokens.Alike tokens') (test : Terminal) :
    test.evaluate tokens = test.evaluate tokens' := by
  funext p st
  unfold evaluate
  rcases h.get?_cases p with ⟨ht, ht'⟩ | ⟨t, t', ht, ht', hread⟩
  · rw [ht, ht']
  · rw [ht, ht']
    simp only [test.accepts_congr hread]

theorem evaluateAnyToken_congr (h : tokens.Alike tokens') :
    evaluateAnyToken tokens = evaluateAnyToken tokens' := by
  funext p st
  unfold evaluateAnyToken
  rcases h.get?_cases p with ⟨ht, ht'⟩ | ⟨t, t', ht, ht', hread⟩
  · rw [ht, ht']
  · rw [ht, ht']
    simp only [Token.isEof_congr hread]

namespace Expr

mutual

/-- **Evaluating an expression** depends on the kinds and spellings of the tokens and on what the
rules that it mentions do. -/
theorem evaluate_congr (h : tokens.Alike tokens')
    (hcall : ∀ r, inside r = true → call r = call' r) :
    ∀ e : Expr, e.within inside = true → e.evaluate tokens call = e.evaluate tokens' call'
  | .token test, _ => by
    funext p st
    simp only [evaluate, test.evaluate_congr h]
  | .anyToken, _ => by
    funext p st
    simp only [evaluate, evaluateAnyToken_congr h]
  | .rule r, he => by
    funext p st
    simp only [evaluate, hcall r he]
  | .seq es, he => by
    funext p st
    simp only [evaluate, evaluateSeq_congr h hcall es he]
  | .choice es, he => by
    funext p st
    simp only [evaluate, evaluateChoice_congr h hcall es he]
  | .option e, he => by
    funext p st
    simp only [evaluate, evaluate_congr h hcall e he]
  | .star e, he => by
    funext p st
    simp only [evaluate, evaluate_congr h hcall e he, h.length_eq]
  | .plus e, he => by
    funext p st
    simp only [evaluate, evaluate_congr h hcall e he, h.length_eq]
  | .followedBy e, he => by
    funext p st
    simp only [evaluate, evaluate_congr h hcall e he]
  | .notFollowedBy e, he => by
    funext p st
    simp only [evaluate, evaluate_congr h hcall e he]
  | .epsilon, _ => by
    funext p st
    simp only [evaluate]
  | .never, _ => by
    funext p st
    simp only [evaluate]

theorem evaluateSeq_congr (h : tokens.Alike tokens')
    (hcall : ∀ r, inside r = true → call r = call' r) :
    ∀ es : List Expr, allWithin inside es = true →
      evaluateSeq tokens call es = evaluateSeq tokens' call' es
  | [], _ => by
    funext p st
    simp only [evaluateSeq]
  | e :: es, he => by
    obtain ⟨he, hes⟩ := Bool.and_eq_true_iff.1 he
    funext p st
    simp only [evaluateSeq, evaluate_congr h hcall e he, evaluateSeq_congr h hcall es hes]

theorem evaluateChoice_congr (h : tokens.Alike tokens')
    (hcall : ∀ r, inside r = true → call r = call' r) :
    ∀ es : List Expr, allWithin inside es = true →
      evaluateChoice tokens call es = evaluateChoice tokens' call' es
  | [], _ => by
    funext p st
    simp only [evaluateChoice]
  | e :: es, he => by
    obtain ⟨he, hes⟩ := Bool.and_eq_true_iff.1 he
    funext p st
    simp only [evaluateChoice, evaluate_congr h hcall e he, evaluateChoice_congr h hcall es hes]

end

end Expr

end

/-! ## Rules and parses -/

namespace Expr

mutual

theorem within_true : ∀ e : Expr, e.within (fun _ => true) = true
  | .seq es | .choice es => allWithin_true es
  | .option e | .star e | .plus e | .followedBy e | .notFollowedBy e => within_true e
  | .token _ | .anyToken | .rule _ | .epsilon | .never => rfl

theorem allWithin_true : ∀ es : List Expr, allWithin (fun _ => true) es = true
  | [] => rfl
  | e :: es => Bool.and_eq_true_iff.2 ⟨within_true e, allWithin_true es⟩

end

end Expr

theorem Grammar.closed_true (g : Grammar) : g.Closed fun _ => true :=
  fun _ production _ _ => production.body.within_true

section
variable {g g' : Grammar} {tokens tokens' : TokenStream} {inside : Rule → Bool}

/-- **What a closed rule does** depends on the bodies of closed rules. -/
theorem Setup.invoke_congr (h : tokens.Alike tokens') (hclosed : g.Closed inside)
    (hagree : ∀ r, inside r = true → g.find? r = g'.find? r) (skipping : Bool) (room : Nat) :
    ∀ r, inside r = true → (Setup.mk g tokens skipping).invoke room r =
      (Setup.mk g' tokens' skipping).invoke room r := by
  induction room with
  | zero =>
    intro r _
    funext p st
    simp only [invoke]
  | succ room ih =>
    intro r hr
    funext p st
    cases hf : g.find? r with
    | none => simp only [invoke, hf, ← hagree r hr]
    | some production =>
      have hbody := Expr.evaluate_congr h ih production.body (hclosed r production hr hf)
      simp only [invoke, hf, ← hagree r hr, hbody]

namespace Grammar

theorem skipsTooDeep_congr (hrecovery : g.dialect.errorRecovery = g'.dialect.errorRecovery)
    (root : Rule) (maxDepth? : Option Nat) :
    g.skipsTooDeep root maxDepth? = g'.skipsTooDeep root maxDepth? := by
  rw [skipsTooDeep, skipsTooDeep, hrecovery]

theorem room_congr (h : tokens.Alike tokens') (maxDepth? : Option Nat) :
    room tokens maxDepth? = room tokens' maxDepth? := by
  cases maxDepth? with
  | none => rw [room, room, h.length_eq]
  | some limit => rfl

/-- **Evaluating a closed root rule** depends on the bodies of closed rules, on whether unreadable
input is skipped, and on the kinds and spellings of the tokens. -/
theorem evaluateRoot_congr (h : tokens.Alike tokens') (hclosed : g.Closed inside)
    (hagree : ∀ r, inside r = true → g.find? r = g'.find? r)
    (hrecovery : g.dialect.errorRecovery = g'.dialect.errorRecovery) {root : Rule}
    {production : Production} (hroot : inside root = true) (hf : g.find? root = some production)
    (maxDepth? : Option Nat) :
    g.evaluateRoot tokens root production maxDepth? =
      g'.evaluateRoot tokens' root production maxDepth? := by
  have hcall := Setup.invoke_congr h hclosed hagree (g.skipsTooDeep root maxDepth?)
    (room tokens maxDepth?)
  unfold evaluateRoot setup
  rw [Expr.evaluate_congr h hcall production.body (hclosed root production hroot hf),
    skipsTooDeep_congr hrecovery, room_congr h]

/-- **Grammars that agree on closed rules parse alike** from any of them. -/
theorem parse_of_agree (hclosed : g.Closed inside)
    (hagree : ∀ r, inside r = true → g.find? r = g'.find? r)
    (hrecovery : g.dialect.errorRecovery = g'.dialect.errorRecovery) {root : Rule}
    (hroot : inside root = true) (tokens : TokenStream) (maxDepth? : Option Nat) :
    g.parse tokens root maxDepth? = g'.parse tokens root maxDepth? := by
  unfold parse
  rw [← hagree root hroot]
  cases hf : g.find? root with
  | none => rfl
  | some production =>
    simp only [evaluateRoot_congr (.refl tokens) hclosed hagree hrecovery hroot hf maxDepth?]

end Grammar

end

end PackratCpp
