/-
  Regular patterns, and reading along them one character at a time.

  * `CharSet`, `Pattern`: ranges of characters, and patterns built from them.
  * `Pattern.Matches`: the texts that a pattern describes.
  * `Pattern.matchesEmpty`, `Pattern.after`: whether a pattern describes the empty text, and
    what it describes behind a first character (`matchesEmpty_iff`, `matches_after`).
    Hopeless parts are dropped on the way.
  * `Pattern.isHopeless`: no way to go on (`not_matches_of_isHopeless`).
-/

namespace PackratCpp

/-- The characters in some ranges, ends included, or all others. -/
structure CharSet where
  negated : Bool
  ranges : List (Char × Char)

namespace CharSet

/-- Whether a character belongs to a set. -/
def contains (s : CharSet) (c : Char) : Bool :=
  (s.ranges.any fun r => r.1 ≤ c && c ≤ r.2) != s.negated

/-- Some characters. -/
def of (cs : List Char) : CharSet := ⟨false, cs.map fun c => (c, c)⟩

/-- All but some characters. -/
def except (cs : List Char) : CharSet := ⟨true, cs.map fun c => (c, c)⟩

end CharSet

/-- A regular pattern. -/
inductive Pattern where
  /-- No text at all. -/
  | hopeless
  | empty
  | one (set : CharSet)
  | seq (first second : Pattern)
  | alt (left right : Pattern)
  | star (body : Pattern)

namespace Pattern

/-- The texts that a pattern describes. -/
inductive Matches : Pattern → List Char → Prop
  | empty : Matches .empty []
  | one {s c} : s.contains c = true → Matches (.one s) [c]
  | seq {p q u v} : Matches p u → Matches q v → Matches (.seq p q) (u ++ v)
  | left {p q u} : Matches p u → Matches (.alt p q) u
  | right {p q u} : Matches q u → Matches (.alt p q) u
  | starNil {p} : Matches (.star p) []
  | starCons {p u v} : Matches p u → Matches (.star p) v → Matches (.star p) (u ++ v)

/-! ## Reading -/

/-- Whether a pattern describes the empty text. -/
def matchesEmpty : Pattern → Bool
  | .hopeless => false
  | .empty => true
  | .one _ => false
  | .seq p q => p.matchesEmpty && q.matchesEmpty
  | .alt p q => p.matchesEmpty || q.matchesEmpty
  | .star _ => true

/-- Whether a pattern is `hopeless` itself. -/
def isHopeless : Pattern → Bool
  | .hopeless => true
  | _ => false

/-- One after the other; hopeless if the first is, and the second alone if the first is
empty. -/
def andThen : Pattern → Pattern → Pattern
  | .hopeless, _ => .hopeless
  | .empty, q => q
  | p, q => .seq p q

/-- One or the other, whichever is not hopeless. -/
def orElse : Pattern → Pattern → Pattern
  | .hopeless, q => q
  | p, .hopeless => p
  | p, q => .alt p q

/-- What a pattern describes behind a first character. -/
def after (c : Char) : Pattern → Pattern
  | .hopeless => .hopeless
  | .empty => .hopeless
  | .one s => if s.contains c then .empty else .hopeless
  | .seq p q =>
    if p.matchesEmpty then
      ((p.after c).andThen q).orElse (q.after c)
    else
      (p.after c).andThen q
  | .alt p q => (p.after c).orElse (q.after c)
  | .star p => (p.after c).andThen (.star p)

/-! ## Reading follows the described texts -/

theorem matchesEmpty_iff {p : Pattern} : p.matchesEmpty = true ↔ Matches p [] := by
  constructor
  · intro h
    induction p with
    | hopeless => cases h
    | empty => exact .empty
    | one s => cases h
    | seq p q ihp ihq =>
      simp only [matchesEmpty, Bool.and_eq_true] at h
      exact .seq (ihp h.1) (ihq h.2)
    | alt p q ihp ihq =>
      simp only [matchesEmpty, Bool.or_eq_true] at h
      exact h.elim (fun h => .left (ihp h)) (fun h => .right (ihq h))
    | star p => exact .starNil
  · intro h
    generalize hw : ([] : List Char) = w at h
    induction h with
    | empty => rfl
    | one _ => cases hw
    | seq _ _ ihp ihq =>
      obtain ⟨rfl, rfl⟩ := List.append_eq_nil_iff.1 hw.symm
      simp [matchesEmpty, ihp rfl, ihq rfl]
    | left _ ih => simp [matchesEmpty, ih hw]
    | right _ ih => simp [matchesEmpty, ih hw]
    | starNil => rfl
    | starCons _ _ _ _ => rfl

theorem not_matches_hopeless {w : List Char} : ¬ Matches .hopeless w := nofun

theorem not_matches_of_isHopeless {p : Pattern} (h : p.isHopeless = true) {w : List Char} :
    ¬ Matches p w := by
  cases p with
  | hopeless => exact not_matches_hopeless
  | _ => cases h

theorem matches_seq_iff {p q : Pattern} {w : List Char} :
    Matches (.seq p q) w ↔ ∃ u v, w = u ++ v ∧ Matches p u ∧ Matches q v :=
  ⟨fun | .seq hu hv => ⟨_, _, rfl, hu, hv⟩, fun ⟨_, _, hw, hu, hv⟩ => hw ▸ .seq hu hv⟩

theorem matches_alt_iff {p q : Pattern} {w : List Char} :
    Matches (.alt p q) w ↔ Matches p w ∨ Matches q w :=
  ⟨fun | .left h => .inl h | .right h => .inr h, fun h => h.elim .left .right⟩

theorem matches_empty_iff {w : List Char} : Matches .empty w ↔ w = [] :=
  ⟨fun | .empty => rfl, fun h => h ▸ .empty⟩

theorem matches_andThen {p q : Pattern} {w : List Char} :
    Matches (p.andThen q) w ↔ Matches (.seq p q) w := by
  cases p with
  | hopeless =>
    simp only [andThen, matches_seq_iff]
    exact ⟨fun h => (not_matches_hopeless h).elim,
      fun ⟨_, _, _, h, _⟩ => (not_matches_hopeless h).elim⟩
  | empty =>
    simp only [andThen, matches_seq_iff, matches_empty_iff]
    exact ⟨fun h => ⟨[], w, rfl, rfl, h⟩, fun ⟨u, v, hw, hu, hv⟩ => by simpa [hw, hu] using hv⟩
  | _ => rfl

theorem matches_orElse {p q : Pattern} {w : List Char} :
    Matches (p.orElse q) w ↔ Matches p w ∨ Matches q w := by
  have hn : ∀ r : Pattern, Matches r w ↔ Matches r w ∨ Matches .hopeless w := fun _ =>
    ⟨.inl, fun h => h.elim id fun h => (not_matches_hopeless h).elim⟩
  by_cases hp : p = .hopeless
  · subst hp
    simpa only [orElse, or_comm] using hn q
  by_cases hq : q = .hopeless
  · subst hq
    have : p.orElse .hopeless = p := by cases p <;> rfl
    rw [this]
    exact hn p
  · have : p.orElse q = .alt p q := by cases p <;> cases q <;> simp_all [orElse]
    rw [this, matches_alt_iff]

private theorem matches_star_cons {p : Pattern} {c : Char} {w : List Char}
    (h : Matches (.star p) (c :: w)) :
    ∃ u v, w = u ++ v ∧ Matches p (c :: u) ∧ Matches (.star p) v := by
  generalize hs : Pattern.star p = s at h
  generalize hx : c :: w = x at h
  induction h generalizing w with
  | starNil => cases hx
  | @starCons p' u v hu hv _ ih =>
    cases hs
    cases u with
    | nil => exact ih rfl hx
    | cons d u =>
      obtain ⟨rfl, rfl⟩ := List.cons.inj hx
      exact ⟨u, v, rfl, hu, hv⟩
  | _ => cases hs

/-- **Reading a character.**  What a pattern describes behind `c` are the texts that it
describes with `c` in front. -/
theorem matches_after {c : Char} {p : Pattern} {w : List Char} :
    Matches (p.after c) w ↔ Matches p (c :: w) := by
  induction p generalizing w with
  | hopeless => exact ⟨nofun, nofun⟩
  | empty => exact ⟨nofun, nofun⟩
  | one s =>
    simp only [after]
    split
    · rw [matches_empty_iff]
      exact ⟨fun h => h ▸ .one ‹_›, fun h => by cases h; rfl⟩
    · exact ⟨nofun, fun h => by cases h; contradiction⟩
  | alt p q ihp ihq => simp only [after, matches_orElse, matches_alt_iff, ihp, ihq]
  | seq p q ihp ihq =>
    have hcons : Matches (.seq p q) (c :: w) ↔
        (∃ u v, w = u ++ v ∧ Matches p (c :: u) ∧ Matches q v) ∨
          (Matches p [] ∧ Matches q (c :: w)) := by
      rw [matches_seq_iff]
      constructor
      · rintro ⟨u, v, hw, hu, hv⟩
        cases u with
        | nil => exact .inr ⟨hu, by simpa [hw] using hv⟩
        | cons d u =>
          obtain ⟨rfl, rfl⟩ := List.cons.inj hw
          exact .inl ⟨u, v, rfl, hu, hv⟩
      · rintro (⟨u, v, rfl, hu, hv⟩ | ⟨hu, hv⟩)
        · exact ⟨c :: u, v, rfl, hu, hv⟩
        · exact ⟨[], c :: w, rfl, hu, hv⟩
    have hfirst : Matches ((p.after c).andThen q) w ↔
        ∃ u v, w = u ++ v ∧ Matches p (c :: u) ∧ Matches q v := by
      simp only [matches_andThen, matches_seq_iff, ihp]
    rw [hcons]
    simp only [after]
    split
    · rename_i he
      rw [matches_orElse, hfirst, ihq]
      simp [matchesEmpty_iff.1 he]
    · rename_i he
      rw [hfirst]
      exact (or_iff_left fun h => he (matchesEmpty_iff.2 h.1)).symm
  | star p ih =>
    simp only [after, matches_andThen, matches_seq_iff, ih]
    constructor
    · rintro ⟨u, v, rfl, hu, hv⟩
      exact .starCons hu hv
    · exact matches_star_cons

/-! ## Common patterns -/

/-- At least once. -/
def plus (p : Pattern) : Pattern := .seq p (.star p)

/-- One or not at all. -/
def optional (p : Pattern) : Pattern := .alt p .empty

/-- One of some characters. -/
def oneOf (cs : List Char) : Pattern := .one (.of cs)

/-- Any character but some. -/
def noneOf (cs : List Char) : Pattern := .one (.except cs)

/-- Some characters in a row. -/
def chars : List Char → Pattern
  | [] => .empty
  | [c] => oneOf [c]
  | c :: cs => .seq (oneOf [c]) (chars cs)

/-- A fixed spelling. -/
def word (s : String) : Pattern := chars s.toList

/-- Some patterns in a row. -/
def all : List Pattern → Pattern
  | [] => .empty
  | [p] => p
  | p :: ps => .seq p (all ps)

/-- One of some patterns. -/
def anyOf : List Pattern → Pattern
  | [] => .hopeless
  | [p] => p
  | p :: ps => .alt p (anyOf ps)

end Pattern

end PackratCpp
