/-
  What patterns describe.

  * `Pattern.matches_star_one_iff`, `Pattern.matches_word_iff`: characters of a set, and a fixed
    spelling.
  * `Pattern.afterAll`: what a pattern describes behind some characters (`matches_afterAll`).
  * `Pattern.Sturdy`: no part of a pattern is hopeless.  What is left of such a pattern describes
    some text, or is hopeless itself (`Sturdy.exists_matches`, `Sturdy.afterAll`).
  * `Pattern.avoids`: no text of a pattern holds a character (`Matches.not_mem`).
-/
import Mathlib.Data.List.Basic
import PackratCpp.Lex.Pattern

namespace PackratCpp

theorem CharSet.contains_of {cs : List Char} {c : Char} : (of cs).contains c = true ↔ c ∈ cs := by
  simp only [contains, of, List.any_map, Bool.bne_false, List.any_eq_true, Function.comp_apply,
    Bool.and_eq_true, decide_eq_true_eq]
  constructor
  · rintro ⟨d, hd, h₁, h₂⟩
    rwa [Char.le_antisymm h₂ h₁]
  · exact fun h => ⟨c, h, Char.le_refl c, Char.le_refl c⟩

theorem CharSet.contains_except {cs : List Char} {c : Char} :
    (except cs).contains c = true ↔ c ∉ cs := by
  have h : (except cs).contains c = !(of cs).contains c := by
    simp [contains, except, of]
  rw [h, Bool.not_eq_true', ← Bool.not_eq_true, contains_of]

namespace Pattern

/-! ## Texts -/

theorem matches_one_iff {s : CharSet} {w : List Char} :
    Matches (.one s) w ↔ ∃ c, s.contains c = true ∧ w = [c] :=
  ⟨fun | .one h => ⟨_, h, rfl⟩, fun ⟨_, h, hw⟩ => hw ▸ .one h⟩

theorem matches_oneOf_iff {cs w : List Char} : Matches (oneOf cs) w ↔ ∃ c ∈ cs, w = [c] := by
  simp only [oneOf, matches_one_iff, CharSet.contains_of]

theorem matches_noneOf_iff {cs w : List Char} : Matches (noneOf cs) w ↔ ∃ c, c ∉ cs ∧ w = [c] := by
  simp only [noneOf, matches_one_iff, CharSet.contains_except]

theorem matches_star_one_iff {s : CharSet} {w : List Char} :
    Matches (.star (.one s)) w ↔ ∀ c ∈ w, s.contains c = true := by
  constructor
  · intro h
    generalize hp : Pattern.star (.one s) = p at h
    induction h with
    | starNil => exact nofun
    | starCons hu _ _ ih =>
      cases hp
      obtain ⟨c, hc, rfl⟩ := matches_one_iff.1 hu
      exact List.forall_mem_cons.2 ⟨hc, ih rfl⟩
    | _ => cases hp
  · intro h
    induction w with
    | nil => exact .starNil
    | cons c w ih =>
      obtain ⟨hc, hw⟩ := List.forall_mem_cons.1 h
      exact .starCons (.one hc) (ih hw)

theorem matches_plus_one_iff {s : CharSet} {w : List Char} :
    Matches (plus (.one s)) w ↔ w ≠ [] ∧ ∀ c ∈ w, s.contains c = true := by
  rw [plus, matches_seq_iff]
  constructor
  · rintro ⟨u, v, rfl, hu, hv⟩
    obtain ⟨c, hc, rfl⟩ := matches_one_iff.1 hu
    exact ⟨List.cons_ne_nil c v, List.forall_mem_cons.2 ⟨hc, matches_star_one_iff.1 hv⟩⟩
  · rintro ⟨hne, h⟩
    obtain ⟨c, v, rfl⟩ := List.exists_cons_of_ne_nil hne
    obtain ⟨hc, hv⟩ := List.forall_mem_cons.1 h
    exact ⟨[c], v, rfl, .one hc, matches_star_one_iff.2 hv⟩

theorem matches_chars_iff {cs w : List Char} : Matches (chars cs) w ↔ w = cs := by
  induction cs generalizing w with
  | nil => exact matches_empty_iff
  | cons c cs ih =>
    cases cs with
    | nil => simp [chars, matches_oneOf_iff]
    | cons d cs =>
      show Matches (.seq (oneOf [c]) (chars (d :: cs))) w ↔ _
      simp [matches_seq_iff, matches_oneOf_iff, ih]

theorem matches_word_iff {s : String} {w : List Char} : Matches (word s) w ↔ w = s.toList :=
  matches_chars_iff

/-! ## Reading along a pattern -/

/-- What a pattern describes behind some characters. -/
def afterAll (p : Pattern) (u : List Char) : Pattern :=
  u.foldl (fun p c => p.after c) p

/-- **Reading some characters.**  What a pattern describes behind `u` are the texts that it
describes with `u` in front. -/
theorem matches_afterAll {p : Pattern} {u w : List Char} :
    Matches (p.afterAll u) w ↔ Matches p (u ++ w) := by
  induction u generalizing p with
  | nil => rfl
  | cons c u ih => exact ih.trans matches_after

theorem afterAll_hopeless (u : List Char) : afterAll .hopeless u = .hopeless := by
  induction u with
  | nil => rfl
  | cons c u ih => exact ih

theorem eq_hopeless_of_isHopeless {p : Pattern} (h : p.isHopeless = true) : p = .hopeless := by
  cases p with
  | hopeless => rfl
  | _ => cases h

/-- No part of a pattern is hopeless. -/
def Sturdy : Pattern → Prop
  | .hopeless => False
  | .empty => True
  | .one s => ∃ c, s.contains c = true
  | .seq p q => p.Sturdy ∧ q.Sturdy
  | .alt p q => p.Sturdy ∧ q.Sturdy
  | .star p => p.Sturdy

theorem Sturdy.isHopeless_eq {p : Pattern} (h : p.Sturdy) : p.isHopeless = false := by
  cases p with
  | hopeless => exact h.elim
  | _ => rfl

theorem Sturdy.exists_matches {p : Pattern} (h : p.Sturdy) : ∃ w, Matches p w := by
  induction p with
  | hopeless => exact h.elim
  | empty => exact ⟨_, .empty⟩
  | one s => exact h.imp' _ fun _ => .one
  | seq p q ihp ihq =>
    obtain ⟨u, hu⟩ := ihp h.1
    obtain ⟨v, hv⟩ := ihq h.2
    exact ⟨_, .seq hu hv⟩
  | alt p q ihp _ => exact (ihp h.1).imp fun _ => .left
  | star p => exact ⟨_, .starNil⟩

/-- A pattern is sturdy, or hopeless altogether. -/
def SturdyOrHopeless (p : Pattern) : Prop :=
  p = .hopeless ∨ p.Sturdy

theorem SturdyOrHopeless.andThen {p q : Pattern} (hp : p.SturdyOrHopeless) (hq : q.Sturdy) :
    (p.andThen q).SturdyOrHopeless := by
  rcases hp with rfl | hp
  · exact Or.inl rfl
  · cases p with
    | hopeless => exact hp.elim
    | empty => exact Or.inr hq
    | one | seq | alt | star => exact Or.inr ⟨hp, hq⟩

theorem SturdyOrHopeless.orElse {p q : Pattern} (hp : p.SturdyOrHopeless)
    (hq : q.SturdyOrHopeless) : (p.orElse q).SturdyOrHopeless := by
  rcases hp with rfl | hp
  · exact hq
  · rcases hq with rfl | hq
    · cases p <;> exact Or.inr hp
    · cases p with
      | hopeless => exact hp.elim
      | empty | one | seq | alt | star =>
        cases q with
        | hopeless => exact hq.elim
        | empty | one | seq | alt | star => exact Or.inr ⟨hp, hq⟩

theorem Sturdy.after {p : Pattern} (h : p.Sturdy) (c : Char) : (p.after c).SturdyOrHopeless := by
  induction p with
  | hopeless => exact h.elim
  | empty => exact Or.inl rfl
  | one s =>
    rw [Pattern.after]
    split_ifs
    · exact Or.inr trivial
    · exact Or.inl rfl
  | seq p q ihp ihq =>
    rw [Pattern.after]
    split_ifs
    · exact ((ihp h.1).andThen h.2).orElse (ihq h.2)
    · exact (ihp h.1).andThen h.2
  | alt p q ihp ihq => exact (ihp h.1).orElse (ihq h.2)
  | star p ih => exact (ih h).andThen h

theorem Sturdy.afterAll {p : Pattern} (h : p.Sturdy) (u : List Char) :
    (p.afterAll u).SturdyOrHopeless := by
  induction u generalizing p with
  | nil => exact Or.inr h
  | cons c u ih =>
    rcases h.after c with hc | hc
    · exact Or.inl ((congrArg (Pattern.afterAll · u) hc).trans (afterAll_hopeless u))
    · exact ih hc

theorem sturdy_chars : ∀ cs : List Char, (chars cs).Sturdy
  | [] => trivial
  | [c] => ⟨c, CharSet.contains_of.2 (List.mem_cons_self ..)⟩
  | c :: d :: cs => ⟨⟨c, CharSet.contains_of.2 (List.mem_cons_self ..)⟩, sturdy_chars (d :: cs)⟩

/-! ## Characters that are avoided -/

/-- No text of a pattern holds a character, as far as can be seen from its sets. -/
def avoids (c : Char) : Pattern → Bool
  | .hopeless | .empty => true
  | .one s => !s.contains c
  | .seq p q | .alt p q => p.avoids c && q.avoids c
  | .star p => p.avoids c

theorem Matches.not_mem {p : Pattern} {w : List Char} {c : Char} (h : Matches p w)
    (hc : p.avoids c = true) : c ∉ w := by
  induction h with
  | empty | starNil => exact List.not_mem_nil
  | one hs =>
    rintro hmem
    rw [List.mem_singleton.1 hmem, avoids, hs] at hc
    cases hc
  | seq _ _ ihu ihv =>
    obtain ⟨hp, hq⟩ := Bool.and_eq_true_iff.1 hc
    exact fun hmem => (List.mem_append.1 hmem).elim (ihu hp) (ihv hq)
  | left _ ih => exact ih (Bool.and_eq_true_iff.1 hc).1
  | right _ ih => exact ih (Bool.and_eq_true_iff.1 hc).2
  | starCons _ _ ihu ihv => exact fun hmem => (List.mem_append.1 hmem).elim (ihu hc) (ihv hc)

end Pattern

end PackratCpp
