/-
  What a few tokens tell of a parse.

  * `Sight`: what is known of a token.  `Grammar.Shows`, `Grammar.Sees`: a token, and the one at a place,
    looks like this.
  * `Grammar.Gives`: a rule comes to a verdict at a place.  `Derives.gives_node`: it is the verdict on its
    body, with a node.
  * `Window`: a run of tokens and one further on, with what some rules are known to come to there.
  * `Sketch`, `Outlook`: a tree and a verdict in terms of a window.
  * `Expr.foresee`, `Window.call`: the outlook of an expression and of a rule, if the window tells.
-/
import PackratCpp.Proofs.Stream
import PackratCpp.Parse.Derivation

namespace PackratCpp

/-! ## Spellings -/

namespace Expr

mutual

/-- The spellings that an expression looks for. -/
def sought : Expr → List String
  | .token (.text s) => [s]
  | .seq es | .choice es => soughtAll es
  | .option e | .star e | .plus e | .followedBy e | .notFollowedBy e => sought e
  | .token _ | .anyToken | .rule _ | .epsilon | .never => []

/-- The spellings that some expressions look for. -/
def soughtAll : List Expr → List String
  | [] => []
  | e :: es => sought e ++ soughtAll es

end

end Expr

/-- A rule of the grammar looks for a spelling. -/
def Grammar.Spells (g : Grammar) (s : String) : Prop :=
  ∃ r production, g.find? r = some production ∧ s ∈ production.body.sought

/-! ## Tokens -/

/-- What is known of a token. -/
inductive Sight where
  /-- An identifier that no rule looks for by its spelling. -/
  | name
  | word (text : String)
  | symbol (text : String)
  | eof
  /-- All that a test looks at. -/
  | exact (kind : TokenKind) (text : String)
  deriving DecidableEq

/-- Whether a token that looks like this passes a test. -/
def Sight.passes : Sight → Terminal → Bool
  | .word t, .text s | .symbol t, .text s => s == t
  | .word t, .keyword w => w.text == t
  | .name, .kind k => k == .identifier
  | .word _, .kind k => k == .keyword
  | .symbol _, .kind k => k == .punctuator
  | .eof, .kind k => k == .eof
  | .exact k t, test => test.accepts ⟨k, t, 1, 1, 0⟩
  | _, _ => false

/-- Whether it is any token but the end of input. -/
def Sight.isToken : Sight → Bool
  | .eof => false
  | .exact k _ => !k == .eof
  | _ => true

/-- A token looks like this. -/
inductive Grammar.Shows (g : Grammar) : Sight → Token → Prop
  | name {t} : t.kind = .identifier → ¬ g.Spells t.text → Shows g .name t
  | word {t} : t.kind = .keyword → Shows g (.word t.text) t
  | symbol {t} : t.kind = .punctuator → Shows g (.symbol t.text) t
  | eof {t} : t.kind = .eof → Shows g .eof t
  | exact {t} : Shows g (.exact t.kind t.text) t

namespace Grammar.Shows

variable {g : Grammar} {sight : Sight} {t : Token}

theorem accepts_eq (h : g.Shows sight t) (test : Terminal)
    (htest : ∀ s ∈ (Expr.token test).sought, g.Spells s) :
    test.accepts t = sight.passes test := by
  cases h with
  | name hk hs =>
    cases test with
    | text s =>
      have hne : t.text ≠ s := by
        rintro rfl
        exact hs (htest _ (List.mem_singleton_self _))
      simp [Terminal.accepts, Sight.passes, hne]
    | keyword w => simp [Terminal.accepts, Sight.passes, hk]
    | kind k => simp [Terminal.accepts, Sight.passes, hk, BEq.comm]
  | word hk =>
    cases test with
    | text s => simp [Terminal.accepts, Sight.passes, Token.isEof, hk, BEq.comm]
    | keyword w => simp [Terminal.accepts, Sight.passes, hk, BEq.comm]
    | kind k => simp [Terminal.accepts, Sight.passes, hk, BEq.comm]
  | symbol hk =>
    cases test with
    | text s => simp [Terminal.accepts, Sight.passes, Token.isEof, hk, BEq.comm]
    | keyword w => simp [Terminal.accepts, Sight.passes, hk]
    | kind k => simp [Terminal.accepts, Sight.passes, hk, BEq.comm]
  | eof hk =>
    cases test with
    | text s => simp [Terminal.accepts, Sight.passes, Token.isEof, hk]
    | keyword w => simp [Terminal.accepts, Sight.passes, hk]
    | kind k => simp [Terminal.accepts, Sight.passes, hk, BEq.comm]
  | exact => cases test <;> rfl

theorem isEof_eq (h : g.Shows sight t) : t.isEof = !sight.isToken := by
  cases h <;> simp_all [Token.isEof, Sight.isToken]

end Grammar.Shows

/-- The token at a place looks like this. -/
def Grammar.Sees (g : Grammar) (tokens : TokenStream) (i : Nat) (sight : Sight) : Prop :=
  ∃ t, tokens.get? i = some t ∧ g.Shows sight t

theorem Grammar.Sees.passes_of_accepts {g : Grammar} {tokens : TokenStream} {i : Nat} {sight : Sight}
    {t : Token} {test : Terminal} (h : g.Sees tokens i sight) (ht : tokens.get? i = some t)
    (htest : ∀ s ∈ (Expr.token test).sought, g.Spells s) (ha : test.accepts t = true) :
    sight.passes test = true := by
  obtain ⟨u, hu, hshows⟩ := h
  cases hu.symm.trans ht
  rw [← hshows.accepts_eq test htest]
  exact ha

/-- The tokens from a place on look like this, one by one: each has some choices. -/
def Grammar.SeesRun (g : Grammar) (tokens : TokenStream) : Nat → List (List Sight) → Prop
  | _, [] => True
  | i, sights :: rest => (∃ sight ∈ sights, g.Sees tokens i sight) ∧ g.SeesRun tokens (i + 1) rest

theorem Grammar.SeesRun.sees {g : Grammar} {tokens : TokenStream} {run : List (List Sight)} {i k : Nat}
    {sights : List Sight} (h : g.SeesRun tokens i run) (hk : run[k]? = some sights) :
    ∃ sight ∈ sights, g.Sees tokens (i + k) sight := by
  induction run generalizing i k with
  | nil => cases hk
  | cons _ rest ih =>
    cases k with
    | zero =>
      cases hk
      exact h.1
    | succ k =>
      rw [← Nat.add_assoc, Nat.add_right_comm]
      exact ih h.2 hk

theorem Grammar.sees_eof (g : Grammar) (tokens : TokenStream) : g.Sees tokens tokens.eofIndex .eof := by
  obtain ⟨t, ht, heof⟩ := tokens.exists_eof
  exact ⟨t, ht, .eof (Token.isEof_iff.1 heof)⟩

/-- A rule comes to a verdict at a place, whichever rule mentions it. -/
def Grammar.Gives (g : Grammar) (tokens : TokenStream) (s : Rule) (p : Nat) (v : Verdict) : Prop :=
  ∀ r, ∃ log, Derives g tokens r (.expr (.rule s)) p v log

theorem Derives.gives {g : Grammar} {tokens : TokenStream} {r s : Rule} {p : Nat} {v : Verdict}
    {log : List Attempt} (h : Derives g tokens r (.expr (.rule s)) p v log) : g.Gives tokens s p v := by
  intro q
  cases h with
  | ruleMatch hf hd => exact ⟨_, .ruleMatch hf hd⟩
  | ruleFail hf hd => exact ⟨_, .ruleFail hf hd⟩
  | ruleMissing hf => exact ⟨_, .ruleMissing hf⟩

theorem Derives.gives_node {g : Grammar} {tokens : TokenStream} {s : Rule} {body : Expr} {p stop : Nat}
    {trees : List Tree} {log : List Attempt}
    (h : Derives g tokens s (.expr body) p (.matched stop trees) log)
    (hf : g.find? s = some ⟨body, false⟩) (hstop : stop ≠ p) :
    g.Gives tokens s p (.matched stop [.node s p stop trees]) := by
  have htree : (Production.tree? ⟨body, false⟩ s p stop trees).toList = [.node s p stop trees] := by
    rw [Production.tree?, if_neg hstop]
    rfl
  intro r
  refine ⟨log, ?_⟩
  rw [← htree]
  exact .ruleMatch hf h

/-! ## Windows -/

/-- A tree in terms of a window: leaves are spots of it, and some trees are given. -/
inductive Sketch where
  | leaf (spot : Nat)
  | node (rule : Rule) (start stop : Nat) (children : List Sketch)
  | given (index : Nat)

/-- A verdict in terms of a window. -/
inductive Outlook where
  | matched (stop : Nat) (sketches : List Sketch)
  | failed

/-- What a rule comes to at a spot. -/
structure Known where
  rule : Rule
  spot : Nat
  outlook : Outlook

/-- Two runs of tokens, of which one is further on.  For each spot there is a choice of what its token may
look like. -/
structure Window where
  near : List (List Sight)
  far : List (List Sight)
  known : List Known

namespace Sketch

mutual

/-- The tree that is sketched, for the places of the spots and the given trees. -/
def tree (place : Nat → Nat) (given : Nat → Tree) : Sketch → Tree
  | .leaf k => .leaf (place k)
  | .node r s e cs => .node r (place s) (place e) (trees place given cs)
  | .given i => given i

/-- The trees that are sketched. -/
def trees (place : Nat → Nat) (given : Nat → Tree) : List Sketch → List Tree
  | [] => []
  | s :: ss => tree place given s :: trees place given ss

end

theorem trees_append (place : Nat → Nat) (given : Nat → Tree) (ss us : List Sketch) :
    trees place given (ss ++ us) = trees place given ss ++ trees place given us := by
  induction ss with
  | nil => rfl
  | cons s ss ih => rw [List.cons_append, trees, trees, ih, List.cons_append]

end Sketch

/-- The verdict that is meant. -/
def Outlook.verdict (place : Nat → Nat) (given : Nat → Tree) : Outlook → Verdict
  | .matched stop sketches => .matched (place stop) (Sketch.trees place given sketches)
  | .failed => .failed

/-- The sketch of the node of a rule. -/
def Production.sketch (p : Production) (rule : Rule) (start stop : Nat) (sketches : List Sketch) :
    Sketch :=
  match p.collapse, sketches with
  | true, [s] => s
  | _, _ => .node rule start stop sketches

theorem Production.tree_sketch (p : Production) (rule : Rule) (start stop : Nat)
    (sketches : List Sketch) (place : Nat → Nat) (given : Nat → Tree) :
    (p.sketch rule start stop sketches).tree place given =
      p.node rule (place start) (place stop) (Sketch.trees place given sketches) := by
  unfold sketch node
  rcases p.collapse with _ | _
  · simp [Sketch.tree]
  · rcases sketches with _ | ⟨s, _ | ⟨s', ss⟩⟩ <;> simp [Sketch.tree, Sketch.trees]

namespace Window

/-- What the token of a spot may look like. -/
def sights? (w : Window) (k : Nat) : Option (List Sight) :=
  (w.near ++ w.far)[k]?

/-- The place of a spot, if the two runs start at `p` and at `c`. -/
def place (w : Window) (p c k : Nat) : Nat :=
  if k < w.near.length then p + k else c + (k - w.near.length)

/-- What a rule is known to come to. -/
def known? (w : Window) (r : Rule) (k : Nat) : Option Outlook :=
  (w.known.find? fun fact => fact.rule = r && fact.spot = k).map (·.outlook)

/-- The outlook of a test on the token of a spot.  Where the two runs meet there is no next spot. -/
def test (w : Window) (passes : Sight → Bool) (k : Nat) : Option Outlook :=
  match w.sights? k with
  | none => none
  | some sights =>
    if sights.all passes then
      if k + 1 = w.near.length then none else some (.matched (k + 1) [.leaf k])
    else if sights.any passes then
      none
    else
      some .failed

/-- The outlook of a repetition of something, in at most some turns. -/
def turns (body : Nat → Option Outlook) : Nat → Nat → Option Outlook
  | 0, _ => none
  | n + 1, k =>
    match body k with
    | none => none
    | some .failed => some (.matched k [])
    | some (.matched q sketches) =>
      if q = k then
        some (.matched k [])
      else
        match turns body n q with
        | some (.matched stop sketches') => some (.matched stop (sketches ++ sketches'))
        | _ => none

end Window

/-! ## Foresight -/

namespace Expr

section
variable (w : Window) (call : Rule → Nat → Option Outlook) (room : Nat)

mutual

/-- The outlook of an expression at a spot, if the window tells. -/
def foresee : Expr → Nat → Option Outlook
  | .token test, k => w.test (fun sight => sight.passes test) k
  | .anyToken, k => w.test Sight.isToken k
  | .rule r, k => call r k
  | .seq es, k => foreseeItems es k
  | .choice es, k => foreseeAlternatives es k
  | .option e, k =>
    match foresee e k with
    | some .failed => some (.matched k [])
    | outlook => outlook
  | .star e, k => Window.turns (foresee e) room k
  | .plus e, k =>
    match foresee e k with
    | some (.matched q sketches) =>
      if q = k then
        some (.matched k [])
      else
        match Window.turns (foresee e) room q with
        | some (.matched stop sketches') => some (.matched stop (sketches ++ sketches'))
        | _ => none
    | outlook => outlook
  | .followedBy e, k =>
    match foresee e k with
    | some (.matched _ _) => some (.matched k [])
    | outlook => outlook
  | .notFollowedBy e, k =>
    match foresee e k with
    | some (.matched _ _) => some .failed
    | some .failed => some (.matched k [])
    | none => none
  | .epsilon, k => some (.matched k [])
  | .never, _ => some .failed

/-- The outlook of some expressions, one after the other. -/
def foreseeItems : List Expr → Nat → Option Outlook
  | [], k => some (.matched k [])
  | e :: es, k =>
    match foresee e k with
    | some (.matched q sketches) =>
      match foreseeItems es q with
      | some (.matched stop sketches') => some (.matched stop (sketches ++ sketches'))
      | outlook => outlook
    | outlook => outlook

/-- The outlook of the first expression that matches. -/
def foreseeAlternatives : List Expr → Nat → Option Outlook
  | [], _ => some .failed
  | e :: es, k =>
    match foresee e k with
    | some .failed => foreseeAlternatives es k
    | outlook => outlook

end

end

end Expr

/-- The outlook of a rule at a spot, with room for some rules inside of each other. -/
def Window.call (w : Window) (find : Rule → Option Production) : Nat → Rule → Nat → Option Outlook
  | 0, _, _ => none
  | room + 1, r, k =>
    match w.known? r k with
    | some outlook => some outlook
    | none =>
      match find r with
      | none => none
      | some production =>
        match production.body.foresee w (w.call find room) room k with
        | some (.matched stop sketches) =>
          some (.matched stop (if stop = k then [] else [production.sketch r k stop sketches]))
        | outlook => outlook

end PackratCpp
