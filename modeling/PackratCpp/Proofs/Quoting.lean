/-
  Quoted texts tell what they quote.

  * `Text.digit_injective`, `Text.hexDigits_injective`: numbers are told from their hexadecimal digits.
  * `Text.Escaped`: the ways to write a character.  `Text.Escaped.unique`: none of them is the beginning of
    a way to write another one, so that a character is told from what stands for it, whatever follows.
  * `Text.quoted_injective`, `Text.newline_notMem_quoted`: different texts have different quotations, and
    each is on one line.
-/
import Mathlib.Data.List.Basic
import PackratCpp.Text.Quoted

namespace PackratCpp.Text

theorem split_unique {α : Type} {c : α} {xs ys us vs : List α} (hx : c ∉ xs) (hy : c ∉ ys)
    (h : xs ++ c :: us = ys ++ c :: vs) : xs = ys ∧ us = vs := by
  induction xs generalizing ys with
  | nil =>
    cases ys with
    | nil => exact ⟨rfl, (List.cons.inj h).2⟩
    | cons y ys => exact absurd (List.mem_cons.2 (Or.inl (List.cons.inj h).1)) hy
  | cons x xs ih =>
    cases ys with
    | nil => exact absurd (List.mem_cons.2 (Or.inl (List.cons.inj h).1.symm)) hx
    | cons y ys =>
      obtain ⟨rfl, hrest⟩ := List.cons.inj h
      obtain ⟨rfl, rfl⟩ := ih (fun hm => hx (List.mem_cons_of_mem _ hm))
        (fun hm => hy (List.mem_cons_of_mem _ hm)) hrest
      exact ⟨rfl, rfl⟩

/-! ## Hexadecimal digits -/

theorem digit_injective {m n : Nat} (hm : m < 16) (hn : n < 16)
    (h : m.digitChar = n.digitChar) : m = n := by
  have hall : ∀ i j : Fin 16, i.val.digitChar = j.val.digitChar → i = j := by decide
  exact congrArg Fin.val (hall ⟨m, hm⟩ ⟨n, hn⟩ h)

theorem digit_ne {n : Nat} (hn : n < 16) : n.digitChar ≠ '\n' ∧ n.digitChar ≠ '\x7d' := by
  have hall : ∀ i : Fin 16, i.val.digitChar ≠ '\n' ∧ i.val.digitChar ≠ '\x7d' := by decide
  exact hall ⟨n, hn⟩

/-- The induction is on the number: what is left of it without its last digit is smaller. -/
theorem toDigits_injective (m n : Nat) (h : Nat.toDigits 16 m = Nat.toDigits 16 n) : m = n := by
  induction m using Nat.strongRecOn generalizing n with
  | ind m ih =>
    have hdigit : ∀ {k}, k < 16 → Nat.toDigits 16 k = [k.digitChar] := Nat.toDigits_of_lt_base
    have hlast : ∀ {k}, 16 ≤ k → Nat.toDigits 16 k = Nat.toDigits 16 (k / 16) ++ [(k % 16).digitChar] :=
      Nat.toDigits_of_base_le (by decide)
    rcases Nat.lt_or_ge m 16 with hm | hm <;> rcases Nat.lt_or_ge n 16 with hn | hn
    · rw [hdigit hm, hdigit hn] at h
      exact digit_injective hm hn (List.singleton_inj.1 h)
    · rw [hdigit hm, hlast hn, List.singleton_eq_append_iff] at h
      rcases h with ⟨hnil, -⟩ | ⟨-, hnil⟩
      · exact absurd hnil Nat.toDigits_ne_nil
      · cases hnil
    · rw [hlast hm, hdigit hn, List.append_eq_singleton_iff] at h
      rcases h with ⟨hnil, -⟩ | ⟨-, hnil⟩
      · exact absurd hnil Nat.toDigits_ne_nil
      · cases hnil
    · rw [hlast hm, hlast hn] at h
      obtain ⟨hinit, hend⟩ := List.append_inj' h rfl
      have hdiv := ih (m / 16) (Nat.div_lt_self (by omega) (by decide)) (n / 16) hinit
      have hmod := digit_injective (Nat.mod_lt _ (by decide)) (Nat.mod_lt _ (by decide))
        (List.singleton_inj.1 hend)
      omega

theorem hexDigits_injective {c d : Char} (h : hexDigits c = hexDigits d) : c = d :=
  Char.toNat_inj.1 (toDigits_injective _ _ h)

theorem toDigits_ne (n : Nat) : ∀ c ∈ Nat.toDigits 16 n, c ≠ '\n' ∧ c ≠ '\x7d' := by
  induction n using Nat.strongRecOn with
  | ind n ih =>
    intro c hc
    rcases Nat.lt_or_ge n 16 with hn | hn
    · rw [Nat.toDigits_of_lt_base hn, List.mem_singleton] at hc
      exact hc ▸ digit_ne hn
    · rw [Nat.toDigits_of_base_le (by decide) hn, List.mem_append, List.mem_singleton] at hc
      rcases hc with hc | rfl
      · exact ih _ (Nat.div_lt_self (by omega) (by decide)) c hc
      · exact digit_ne (Nat.mod_lt _ (by decide))

/-! ## Escapes -/

/-- The characters that are written as a letter behind a backslash. -/
def letters : List (Char × Char) :=
  [('"', '"'), ('\\', '\\'), ('\t', 't'), ('\n', 'n'), ('\r', 'r'), ('\x00', '0')]

theorem letters_unique : ∀ p ∈ letters, ∀ q ∈ letters, p.2 = q.2 → p.1 = q.1 := by
  decide

theorem letters_ne : ∀ p ∈ letters, p.2 ≠ 'u' ∧ p.2 ≠ '\n' := by
  decide

/-- The ways to write a character: as itself, by a letter, or by its number. -/
inductive Escaped (c : Char) : List Char → Prop
  | plain : c ≠ '\\' → c ≠ '\n' → Escaped c [c]
  | letter {letter} : (c, letter) ∈ letters → Escaped c ['\\', letter]
  | number : Escaped c ('\\' :: 'u' :: '\x7b' :: hexDigits c ++ ['\x7d'])

theorem escaped (c : Char) : Escaped c (escape c) := by
  unfold escape
  split_ifs with h₁ h₂ h₃ h₄ h₅ h₆
  · exact .letter (by simp [letters, h₁])
  · exact .letter (by simp [letters, h₂])
  · exact .letter (by simp [letters, h₃])
  · exact .letter (by simp [letters, h₄])
  · exact .letter (by simp [letters, h₅])
  · exact .letter (by simp [letters, h₆])
  · exact .number
  · exact .plain h₂ h₄

variable {c d : Char} {w v u u' : List Char}

/-- **No way to write a character is the beginning of a way to write another.** -/
theorem Escaped.unique (hc : Escaped c w) (hd : Escaped d v) (h : w ++ u = v ++ u') :
    c = d ∧ u = u' := by
  cases hc with
  | plain hc =>
    cases hd with
    | plain => simpa using h
    | letter => exact absurd (List.cons.inj h).1 hc
    | number => exact absurd (List.cons.inj h).1 hc
  | letter hc =>
    cases hd with
    | plain hd => exact absurd (List.cons.inj h).1.symm hd
    | letter hd =>
      obtain ⟨rfl, rfl⟩ := List.cons.inj (List.cons.inj h).2
      exact ⟨letters_unique _ hc _ hd rfl, rfl⟩
    | number => exact absurd (List.cons.inj (List.cons.inj h).2).1 (letters_ne _ hc).1
  | number =>
    cases hd with
    | plain hd => exact absurd (List.cons.inj h).1.symm hd
    | letter hd => exact absurd (List.cons.inj (List.cons.inj h).2).1.symm (letters_ne _ hd).1
    | number =>
      have hbraces : hexDigits c ++ '\x7d' :: u = hexDigits d ++ '\x7d' :: u' := by simpa using h
      obtain ⟨hdigits, hrest⟩ := split_unique (fun hm => (toDigits_ne _ _ hm).2 rfl)
        (fun hm => (toDigits_ne _ _ hm).2 rfl) hbraces
      exact ⟨hexDigits_injective hdigits, hrest⟩

theorem Escaped.ne_nil (hc : Escaped c w) : w ≠ [] := by
  cases hc <;> exact List.cons_ne_nil _ _

theorem Escaped.newline_notMem (hc : Escaped c w) : '\n' ∉ w := by
  cases hc with
  | plain _ hc => simpa using hc.symm
  | letter hc =>
    have hne := (letters_ne _ hc).2.symm
    simpa using hne
  | number =>
    have hdigits : '\n' ∉ hexDigits c := fun hm => (toDigits_ne _ _ hm).1 rfl
    simpa using hdigits

/-! ## Quotations -/

theorem flatMap_escape_injective {cs ds : List Char} (h : cs.flatMap escape = ds.flatMap escape) :
    cs = ds := by
  induction cs generalizing ds with
  | nil =>
    cases ds with
    | nil => rfl
    | cons d ds =>
      rw [List.flatMap_nil, List.flatMap_cons] at h
      exact absurd (List.append_eq_nil_iff.1 h.symm).1 (escaped d).ne_nil
  | cons c cs ih =>
    cases ds with
    | nil =>
      rw [List.flatMap_nil, List.flatMap_cons] at h
      exact absurd (List.append_eq_nil_iff.1 h).1 (escaped c).ne_nil
    | cons d ds =>
      obtain ⟨rfl, hrest⟩ := (escaped c).unique (escaped d) h
      rw [ih hrest]

/-- **A quotation tells the text.** -/
theorem quoted_injective {s t : String} (h : quoted s = quoted t) : s = t := by
  have hchars : quotedChars s.toList = quotedChars t.toList := String.ofList_injective h
  have hinside := List.append_cancel_right (List.cons.inj hchars).2
  exact String.toList_inj.1 (flatMap_escape_injective hinside)

/-- **A quotation is on one line.** -/
theorem newline_notMem_quoted (s : String) : '\n' ∉ (quoted s).toList := by
  have hinside : '\n' ∉ s.toList.flatMap escape := by
    rw [List.mem_flatMap]
    rintro ⟨c, -, hc⟩
    exact (escaped c).newline_notMem hc
  simpa [quoted, quotedChars] using hinside

end PackratCpp.Text
