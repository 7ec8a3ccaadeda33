/-
  The state of a parse: what has been found out so far, and the nodes made on the way.

  * `Memo`: what a rule does at a place.  It is worked out once and looked up after that.
  * `State`: the answers found so far, the arena of all nodes, the elements that wait for the
    node of the rule at work, the rules at work, the furthest failure, the rule bodies that were
    looked at, and the counts.  What is kept for one rule and place is found there and nowhere
    else (`State.memo?_remember`), as in a table whose keys have 64 bits (`State.Packs.remember`).
  * `State.finishNode`: makes a node of the elements above some height of the stack.
-/
import Std.Data.HashMap
import Std.Data.TreeMap
import PackratCpp.Grammar.Basic
import PackratCpp.Parse.Expectation
import PackratCpp.Tree.Arena

namespace PackratCpp

/-- What a rule does at a place, as far as it is remembered. -/
inductive Memo where
  /-- It matches up to `stop`, and yields no element if it consumes nothing. -/
  | matched (stop : Nat) (element? : Option Element)
  | failed

/-- Where a rule matches up to and what it yields, if it matches. -/
def Memo.result : Memo → Option (Nat × Option Element)
  | .matched stop element? => some (stop, element?)
  | .failed => none

/-- The state of a parse. -/
structure State where
  /-- The answers, by `State.slot`. -/
  memo : Std.TreeMap Nat Memo
  /-- Every node made so far, those of abandoned alternatives included. -/
  arena : Layout.Arena
  /-- The elements yielded by the rules at work, innermost last. -/
  scratch : Array Element
  /-- The rules at work, innermost first. -/
  active : List Rule
  furthest : Furthest
  /-- The rules whose bodies were looked at, and where, latest first. -/
  visits : List (Rule × Nat)
  /-- Number of answers looked up. -/
  hits : Nat
  /-- Number of rules skipped for nesting too deep. -/
  refusals : Nat
  /-- Whether the parse is given up. -/
  fatal : Bool

namespace State

/-- Where the answer of a rule at a place is kept.  Places have no bound here. -/
def slot (rule : Rule) (position : Nat) : Nat :=
  position * Rule.count + rule.index

/-- The same packed into 64 bits, for places that fit into 32 bits. -/
def key (rule : Rule) (position : UInt32) : UInt64 :=
  rule.index.toUInt64 <<< 32 ||| position.toUInt64

/-- Different rules or places have different slots. -/
theorem slot_injective {r s : Rule} {p q : Nat} (h : slot r p = slot s q) : r = s ∧ p = q := by
  have hr := r.index_lt_count
  have hs := s.index_lt_count
  simp only [slot, Rule.count] at h hr hs
  have hpq : p = q := by omega
  subst hpq
  exact ⟨Rule.index_injective (by omega), rfl⟩

/-- Nothing is known, and no rule is at work. -/
def initial : State := ⟨∅, .empty, #[], [], .none, [], 0, 0, false⟩

/-- The answer of a rule at a place, if it is known. -/
def memo? (st : State) (rule : Rule) (position : Nat) : Option Memo :=
  st.memo[slot rule position]?

/-- Keeps the answer of a rule at a place. -/
def remember (st : State) (rule : Rule) (position : Nat) (memo : Memo) : State :=
  { st with memo := st.memo.insert (slot rule position) memo }

/-- Notes what was expected in vain, by the innermost rule at work. -/
def expect (st : State) (position : Nat) (e : Expectation) : State :=
  { st with furthest := st.furthest.record position st.active.head? e }

/-- Counts an answer that was looked up. -/
def hit (st : State) : State :=
  { st with hits := st.hits + 1 }

/-- Counts a rule that was skipped. -/
def refuse (st : State) : State :=
  { st with refusals := st.refusals + 1 }

/-- Gives up the parse. -/
def giveUp (st : State) : State :=
  { st with fatal := true }

/-- Number of rule bodies looked at. -/
def evaluations (st : State) : Nat :=
  st.visits.length

/-- Starts looking at the body of a rule at a place. -/
def enter (st : State) (rule : Rule) (position : Nat) : State :=
  { st with
    active := rule :: st.active
    visits := (rule, position) :: st.visits }

/-- Is done with the innermost rule at work. -/
def leave (st : State) : State :=
  { st with active := st.active.tail }

/-- Adds what has been matched. -/
def yield (st : State) (element? : Option Element) : State :=
  match element? with
  | some e => { st with scratch := st.scratch.push e }
  | none => st

/-- Takes everything above some height off the stack. -/
def truncate (st : State) (height : Nat) : State :=
  { st with scratch := st.scratch.shrink height }

/-- Makes a node of the elements above some height.  A rule that consumes nothing has none, but
for the root, and one that collapses gives way to its only element. -/
def finishNode (st : State) (p : Production) (rule : Rule) (start stop height : Nat)
    (isRoot : Bool) : Option Element × State :=
  if start = stop && !isRoot then
    (none, st.truncate height)
  else if p.collapse && st.scratch.size = height + 1 then
    (st.scratch.back?, { st with scratch := st.scratch.pop })
  else
    let children := st.scratch.extract height st.scratch.size
    let (node, arena) := st.arena.finish rule start stop children
    (some node, { st with arena := arena, scratch := st.scratch.shrink height })

/-! ## What is remembered -/

@[simp] theorem memo?_initial (rule : Rule) (position : Nat) :
    initial.memo? rule position = none := by
  simp [memo?, initial]

/-- Keeping an answer changes what is known about one rule at one place. -/
theorem memo?_remember (st : State) (r s : Rule) (p q : Nat) (m : Memo) :
    (st.remember r p m).memo? s q = if s = r ∧ q = p then some m else st.memo? s q := by
  simp only [memo?, remember, Std.TreeMap.getElem?_insert, Std.compare_eq_iff_eq]
  by_cases h : s = r ∧ q = p
  · obtain ⟨rfl, rfl⟩ := h
    simp
  · rw [if_neg h, if_neg fun hs => h ((slot_injective hs).imp Eq.symm Eq.symm)]

/-! ## Keys of 64 bits -/

theorem toNat_key (rule : Rule) (position : UInt32) :
    (key rule position).toNat = rule.index * UInt32.size + position.toNat := by
  have hr := rule.index_lt_count
  have hp := position.toNat_lt
  simp only [Rule.count] at hr
  have hs : rule.index.toUInt64.toNat <<< 32 = rule.index * UInt32.size := by
    rw [Nat.shiftLeft_eq, Nat.toUInt64, UInt64.toNat_ofNat', Nat.mod_eq_of_lt (by omega)]
  rw [key, UInt64.toNat_or, UInt64.toNat_shiftLeft, UInt32.toNat_toUInt64]
  change rule.index.toUInt64.toNat <<< 32 % UInt64.size ||| _ = _
  rw [Nat.mod_eq_of_lt (by rw [hs]; simp only [UInt32.size, UInt64.size]; omega),
    ← Nat.shiftLeft_add_eq_or_of_lt hp, hs]

theorem key_eq_iff {r s : Rule} {p q : UInt32} :
    key r p = key s q ↔ r = s ∧ p = q := by
  have hp := p.toNat_lt
  have hq := q.toNat_lt
  rw [← UInt64.toNat_inj, toNat_key, toNat_key]
  constructor
  · intro h
    simp only [UInt32.size] at h
    exact ⟨Rule.index_injective (by omega), UInt32.toNat_inj.1 (by omega)⟩
  · rintro ⟨rfl, rfl⟩
    rfl

/-- A table by keys holds what a state holds. -/
structure Packs (table : Std.HashMap UInt64 Memo) (st : State) : Prop where
  find : ∀ rule (position : UInt32), table[key rule position]? = st.memo? rule position.toNat
  size : table.size = st.memo.size

theorem Packs.initial : Packs ∅ initial :=
  ⟨fun rule position => by simp, by simp [State.initial]⟩

theorem Packs.remember {table : Std.HashMap UInt64 Memo} {st : State} (h : Packs table st)
    (rule : Rule) (position : UInt32) (memo : Memo) :
    Packs (table.insert (key rule position) memo) (st.remember rule position.toNat memo) where
  find r p := by
    rw [memo?_remember, Std.HashMap.getElem?_insert, h.find]
    simp only [beq_iff_eq, key_eq_iff, UInt32.toNat_inj, eq_comm (a := r), eq_comm (a := p)]
  size := by
    have hmem : key rule position ∈ table ↔ slot rule position.toNat ∈ st.memo := by
      rw [← Std.HashMap.isSome_getElem?_iff_mem, ← Std.TreeMap.isSome_getElem?_iff_mem, h.find, memo?]
    rw [State.remember, Std.HashMap.size_insert, Std.TreeMap.size_insert, h.size]
    simp only [hmem, Std.TreeMap.mem_iff_contains]

end State

end PackratCpp
