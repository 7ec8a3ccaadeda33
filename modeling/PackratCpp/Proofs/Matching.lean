/-
  Which brackets belong together.

  * `TokenStream.SpelledAt`, `TokenStream.NeutralAt`: what stands at a place, and that it is no bracket.
  * `TokenStream.Matches`: an opening and a closing bracket of one kind, and what lies between them is
    well nested.
  * `TokenStream.exists_closer`: where the brackets of a stretch match, what is opened is closed, and
    the brackets on either side of the closing bracket match.
  * `TokenStream.closer_unique`: there is one such place.
  * `TokenStream.IsRun`: as many tokens without a bracket as there are in a row.
  * `Derives.text_cases`: a test on a spelling, in terms of what stands at the place.
-/
import PackratCpp.Proofs.Brackets

namespace PackratCpp

open BracketKind

namespace BracketKind

/-- The spelling that opens a bracket. -/
def opener : BracketKind → String
  | .round => "("
  | .square => "["
  | .curly => "\x7b"

/-- The spelling that closes a bracket. -/
def closer : BracketKind → String
  | .round => ")"
  | .square => "]"
  | .curly => "\x7d"

theorem step_opener (b : BracketKind) (stack : List BracketKind) :
    step stack b.opener = some (b :: stack) := by
  cases b <;> rfl

theorem step_closer (b c : BracketKind) (rest : List BracketKind) :
    step (c :: rest) b.closer = if b = c then some rest else none := by
  cases b <;> rfl

theorem step_nil_closer (b : BracketKind) : step [] b.closer = none := by
  cases b <;> rfl

theorem opener_ne_closer (b c : BracketKind) : b.opener ≠ c.closer := by
  cases b <;> cases c <;> decide

theorem opener_mem (b : BracketKind) : b.opener ∈ spellings := by
  cases b <;> decide

theorem closer_mem (b : BracketKind) : b.closer ∈ spellings := by
  cases b <;> decide

theorem cases_of_mem {s : String} (h : s ∈ spellings) :
    (∃ b : BracketKind, s = b.opener) ∨ ∃ b : BracketKind, s = b.closer := by
  simp only [spellings, List.mem_cons, List.not_mem_nil, or_false] at h
  rcases h with rfl | rfl | rfl | rfl | rfl | rfl
  · exact Or.inl ⟨.round, rfl⟩
  · exact Or.inr ⟨.round, rfl⟩
  · exact Or.inl ⟨.square, rfl⟩
  · exact Or.inr ⟨.square, rfl⟩
  · exact Or.inl ⟨.curly, rfl⟩
  · exact Or.inr ⟨.curly, rfl⟩

end BracketKind

theorem wellNested_right {s : TokenStream} {p q r : Nat} (hpq : p ≤ q) (hqr : q ≤ r)
    (h : WellNested (s.between p q)) (h' : WellNested (s.between p r)) :
    WellNested (s.between q r) := by
  rw [WellNested, ← TokenStream.between_append hpq hqr, matchBrackets_append, h,
    Option.bind_some] at h'
  exact h'

namespace TokenStream

/-- A token with this spelling, which is not the end of input, stands at a place. -/
def SpelledAt (s : TokenStream) (text : String) (i : Nat) : Prop :=
  ∃ t, s.get? i = some t ∧ t.isEof = false ∧ t.text = text

/-- A token that is no bracket, nor the end of input, stands at a place. -/
def NeutralAt (s : TokenStream) (i : Nat) : Prop :=
  ∃ t, s.get? i = some t ∧ t.isEof = false ∧ t.text ∉ spellings

/-- The brackets of kind `b` at `i` and `j` belong together. -/
def Matches (s : TokenStream) (b : BracketKind) (i j : Nat) : Prop :=
  i < j ∧ s.SpelledAt b.opener i ∧ s.SpelledAt b.closer j ∧ WellNested (s.between (i + 1) j)

/-- The tokens from `i` up to `j` are no brackets, and there are no more of them on either side. -/
def IsRun (s : TokenStream) (i j : Nat) : Prop :=
  i < j ∧ (∀ k, i ≤ k → k < j → s.NeutralAt k) ∧ (i = 0 ∨ ¬ s.NeutralAt (i - 1)) ∧ ¬ s.NeutralAt j

variable {s : TokenStream} {a : String} {b c : BracketKind} {i j k p e : Nat}
  {stack stack' below : List BracketKind}

/-! ## One place -/

theorem SpelledAt.lt_eofIndex (h : s.SpelledAt a i) : i < s.eofIndex := by
  obtain ⟨t, ht, heof, -⟩ := h
  exact TokenStream.lt_eofIndex ht heof

theorem NeutralAt.lt_eofIndex (h : s.NeutralAt i) : i < s.eofIndex := by
  obtain ⟨t, ht, heof, -⟩ := h
  exact TokenStream.lt_eofIndex ht heof

theorem SpelledAt.unique {a' : String} (h : s.SpelledAt a i) (h' : s.SpelledAt a' i) : a = a' := by
  obtain ⟨t, ht, -, rfl⟩ := h
  obtain ⟨t', ht', -, rfl⟩ := h'
  cases ht.symm.trans ht'
  rfl

theorem NeutralAt.not_spelledAt (h : s.NeutralAt i) (ha : a ∈ spellings) : ¬ s.SpelledAt a i := by
  rintro ⟨t, ht, -, rfl⟩
  obtain ⟨t', ht', -, hno⟩ := h
  cases ht.symm.trans ht'
  exact hno ha

theorem SpelledAt.opener_not_closer (h : s.SpelledAt b.opener i) : ¬ s.SpelledAt c.closer i :=
  fun h' => opener_ne_closer b c (h.unique h')

theorem cases_of_lt (h : i < s.eofIndex) :
    s.NeutralAt i ∨ (∃ b : BracketKind, s.SpelledAt b.opener i) ∨
      ∃ b : BracketKind, s.SpelledAt b.closer i := by
  obtain ⟨t, ht, heof⟩ := exists_token h
  by_cases hm : t.text ∈ spellings
  · rcases cases_of_mem hm with ⟨b, hb⟩ | ⟨b, hb⟩
    · exact Or.inr (Or.inl ⟨b, t, ht, heof, hb⟩)
    · exact Or.inr (Or.inr ⟨b, t, ht, heof, hb⟩)
  · exact Or.inl ⟨t, ht, heof, hm⟩

/-! ## One token after the other -/

theorem matchBrackets_between {t : Token} (ht : s.get? p = some t) (h : p < e)
    (stack : List BracketKind) : matchBrackets stack (s.between p e) =
      (step stack t.text).bind fun stack' => matchBrackets stack' (s.between (p + 1) e) := by
  rw [← between_append (Nat.le_succ p) (Nat.succ_le_of_lt h), between_succ ht,
    List.singleton_append, matchBrackets_cons]

theorem NeutralAt.matchBrackets_between (hp : s.NeutralAt p) (h : p < e)
    (stack : List BracketKind) :
    matchBrackets stack (s.between p e) = matchBrackets stack (s.between (p + 1) e) := by
  obtain ⟨t, ht, -, hno⟩ := hp
  rw [TokenStream.matchBrackets_between ht h, step_of_notMem hno, Option.bind_some]

theorem SpelledAt.matchBrackets_between (hp : s.SpelledAt a p) (h : p < e)
    (stack : List BracketKind) : matchBrackets stack (s.between p e) =
      (step stack a).bind fun stack' => matchBrackets stack' (s.between (p + 1) e) := by
  obtain ⟨t, ht, -, rfl⟩ := hp
  exact TokenStream.matchBrackets_between ht h stack

theorem wellNested_of_neutral (hpe : p ≤ e) (h : ∀ k, p ≤ k → k < e → s.NeutralAt k) :
    WellNested (s.between p e) := by
  induction hn : e - p generalizing p with
  | zero =>
    obtain rfl : p = e := by omega
    exact wellNested_between_self s p
  | succ n ih =>
    have hlt : p < e := by omega
    rw [WellNested, (h p (Nat.le_refl p) hlt).matchBrackets_between hlt]
    exact ih (by omega) (fun k hk => h k (by omega)) (by omega)

theorem Matches.wellNested (h : s.Matches b i j) : WellNested (s.between i (j + 1)) := by
  obtain ⟨hij, hopen, hclose, hinner⟩ := h
  rw [WellNested, hopen.matchBrackets_between (by omega), step_opener, Option.bind_some,
    ← between_append (by omega : i + 1 ≤ j) (Nat.le_succ j), matchBrackets_append,
    hinner.matchBrackets_eq, Option.bind_some, hclose.matchBrackets_between (Nat.lt_succ_self j),
    step_closer, if_pos rfl, Option.bind_some, between_self]
  rfl

/-! ## Where a bracket is closed -/

/-- **What is opened is closed.**  If the brackets of a stretch match to the point that a bracket is no
longer open, it is closed in there, with a well nested stretch before it.  The induction is on the
length of the stretch; a bracket that is opened in between is closed first. -/
theorem exists_closer (he : e ≤ s.eofIndex) (hpe : p ≤ e)
    (h : matchBrackets (b :: below) (s.between p e) = some stack')
    (hlen : stack'.length ≤ below.length) :
    ∃ j, p ≤ j ∧ j < e ∧ WellNested (s.between p j) ∧ s.SpelledAt b.closer j ∧
      matchBrackets below (s.between (j + 1) e) = some stack' := by
  induction hn : e - p using Nat.strong_induction_on generalizing p b below with
  | _ n ih =>
    by_cases hlt : p < e
    case neg =>
      obtain rfl : p = e := by omega
      rw [between_self] at h
      cases h
      simp only [List.length_cons] at hlen
      omega
    rcases cases_of_lt (Nat.lt_of_lt_of_le hlt he) with hneutral | ⟨c, hopen⟩ | ⟨c, hclose⟩
    · rw [hneutral.matchBrackets_between hlt] at h
      obtain ⟨j, hpj, hj, hwell, hrest⟩ := ih (e - (p + 1)) (by omega) (by omega) h hlen rfl
      refine ⟨j, by omega, hj, ?_, hrest⟩
      rwa [WellNested, hneutral.matchBrackets_between (by omega)]
    · rw [hopen.matchBrackets_between hlt, step_opener, Option.bind_some] at h
      -- the inner bracket is closed at `i`, the outer one behind that
      obtain ⟨i, hpi, hi, hinner, hclose, h⟩ := ih (e - (p + 1)) (by omega) (by omega) h
        (by simp only [List.length_cons]; omega) rfl
      obtain ⟨j, hij, hj, hwell, hrest⟩ := ih (e - (i + 1)) (by omega) (by omega) h hlen rfl
      refine ⟨j, by omega, hj, ?_, hrest⟩
      exact wellNested_between (by omega) hij
        (Matches.wellNested ⟨Nat.lt_of_succ_le hpi, hopen, hclose, hinner⟩) hwell
    · rw [hclose.matchBrackets_between hlt, step_closer] at h
      split_ifs at h with hc
      · subst hc
        exact ⟨p, Nat.le_refl p, hlt, wellNested_between_self s p, hclose, h⟩
      · cases h

theorem exists_matches (he : e ≤ s.eofIndex) (hpe : p < e) (hopen : s.SpelledAt b.opener p)
    (h : WellNested (s.between p e)) :
    ∃ j, s.Matches b p j ∧ j < e ∧ WellNested (s.between (j + 1) e) := by
  rw [WellNested, hopen.matchBrackets_between hpe, step_opener, Option.bind_some] at h
  obtain ⟨j, hpj, hj, hwell, hclose, hrest⟩ := exists_closer he hpe h (Nat.zero_le _)
  exact ⟨j, ⟨Nat.lt_of_succ_le hpj, hopen, hclose, hwell⟩, hj, hrest⟩

theorem not_wellNested_of_closer (hpe : p < e) (hclose : s.SpelledAt b.closer p) :
    ¬ WellNested (s.between p e) := by
  rw [WellNested, hclose.matchBrackets_between hpe, step_nil_closer, Option.bind_none]
  exact (Option.some_ne_none _).symm

/-- **A well nested stretch in front of a closing bracket ends in one place only.** -/
theorem closer_unique (hi : p ≤ i) (hj : p ≤ j) (h : WellNested (s.between p i))
    (h' : WellNested (s.between p j)) (hb : s.SpelledAt b.closer i) (hc : s.SpelledAt c.closer j) :
    i = j := by
  have hle : ∀ {i j : Nat} {b : BracketKind}, p ≤ i → WellNested (s.between p i) →
      WellNested (s.between p j) → s.SpelledAt b.closer i → j ≤ i := by
    intro i j b hi h h' hb
    by_contra hij
    exact not_wellNested_of_closer (by omega) hb (wellNested_right hi (by omega) h h')
  exact Nat.le_antisymm (hle hj h' h hc) (hle hi h h' hb)

end TokenStream

/-! ## Tests on spellings -/

section
variable {g : Grammar} {s : TokenStream} {r : Rule} {a a' : String} {p : Nat} {v : Verdict}
  {log : List Attempt}

theorem TokenStream.SpelledAt.derives (h : s.SpelledAt a p) (g : Grammar) (r : Rule) :
    Derives g s r (.expr (.token (.text a))) p (.matched (p + 1) [.leaf p]) [] := by
  obtain ⟨t, ht, heof, htext⟩ := h
  exact .tokenPass ht (by simp [Terminal.accepts, heof, htext])

theorem TokenStream.SpelledAt.derives_failed (h : s.SpelledAt a p) (hne : a ≠ a') (g : Grammar)
    (r : Rule) : ∃ log, Derives g s r (.expr (.token (.text a'))) p .failed log := by
  obtain ⟨t, ht, -, rfl⟩ := h
  exact ⟨_, .tokenFail ht (by simp [Terminal.accepts, hne])⟩

theorem Derives.text_cases (h : Derives g s r (.expr (.token (.text a))) p v log) :
    (v = .matched (p + 1) [.leaf p] ∧ s.SpelledAt a p) ∨ (v = .failed ∧ ¬ s.SpelledAt a p) := by
  have haccepts : ∀ {t}, (Terminal.text a).accepts t = true ↔ t.isEof = false ∧ t.text = a := by
    simp [Terminal.accepts]
  cases h with
  | tokenPass ht ha =>
    obtain ⟨heof, htext⟩ := haccepts.1 ha
    exact Or.inl ⟨rfl, _, ht, heof, htext⟩
  | tokenFail ht ha =>
    refine Or.inr ⟨rfl, ?_⟩
    rintro ⟨t, ht', heof, htext⟩
    cases ht.symm.trans ht'
    rw [haccepts.2 ⟨heof, htext⟩] at ha
    cases ha
  | tokenBeyond ht =>
    refine Or.inr ⟨rfl, ?_⟩
    rintro ⟨t, ht', -, -⟩
    cases ht.symm.trans ht'

theorem Derives.spelledAt {q : Nat} {trees : List Tree}
    (h : Derives g s r (.expr (.token (.text a))) p (.matched q trees) log) :
    q = p + 1 ∧ trees = [.leaf p] ∧ s.SpelledAt a p := by
  rcases h.text_cases with ⟨hv, hspelled⟩ | ⟨hv, -⟩
  · cases hv
    exact ⟨rfl, rfl, hspelled⟩
  · cases hv

end

end PackratCpp
