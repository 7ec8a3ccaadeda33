/-
  Where the end of input is, and what lies between two places.

  * `TokenStream.isEof_iff`: a token of a stream is the end of input if it is the last one.
  * `TokenStream.between_succ`, `TokenStream.between_append`: the tokens between two places, one by
    one and piece by piece.
  * `TokenStream.drop`: the stream from some place on; it ends where the whole stream does.
-/
import Mathlib.Tactic.Common
import PackratCpp.Tree.Span

namespace PackratCpp.TokenStream

variable {s : TokenStream} {i : Nat} {t : Token}

theorem get?_lt_length (h : s.get? i = some t) : i < s.length :=
  (Array.getElem?_eq_some_iff.1 h).1

theorem exists_get? (h : i < s.length) : ∃ t, s.get? i = some t :=
  ⟨s.tokens[i], Array.getElem?_eq_getElem h⟩

theorem length_eq (s : TokenStream) : s.length = s.eofIndex + 1 := by
  have := s.length_pos
  simp only [eofIndex]
  omega

theorem exists_body (s : TokenStream) : ∃ body last, s.tokens.toList = body ++ [last] ∧
    s.eofIndex = body.length ∧ last.isEof = true ∧ ∀ t ∈ body, t.isEof = false := by
  obtain ⟨body, last, hs, hlast, hbody⟩ := s.closed
  refine ⟨body, last, hs, ?_, hlast, hbody⟩
  have := congrArg List.length hs
  simp only [Array.length_toList, List.length_append, List.length_singleton] at this
  simp only [eofIndex, length]
  omega

/-- **The end of input is the last token and no other.** -/
theorem isEof_iff (h : s.get? i = some t) : t.isEof = true ↔ i = s.eofIndex := by
  obtain ⟨body, last, hs, hlen, hlast, hbody⟩ := s.exists_body
  have ht : (body ++ [last])[i]? = some t := by
    rw [← hs]
    simpa [get?] using h
  rw [hlen]
  constructor
  · intro he
    by_contra hi
    have hlt : i < body.length := by
      have := (List.getElem?_eq_some_iff.1 ht).1
      simp only [List.length_append, List.length_singleton] at this
      omega
    rw [List.getElem?_append_left hlt] at ht
    rw [hbody t (List.mem_of_getElem? ht)] at he
    cases he
  · rintro rfl
    simp only [List.getElem?_concat_length, Option.some.injEq] at ht
    rwa [← ht]

theorem exists_eof (s : TokenStream) : ∃ t, s.get? s.eofIndex = some t ∧ t.isEof = true := by
  obtain ⟨t, ht⟩ := exists_get? s.eofIndex_lt_length
  exact ⟨t, ht, (isEof_iff ht).2 rfl⟩

theorem exists_token (h : i < s.eofIndex) : ∃ t, s.get? i = some t ∧ t.isEof = false := by
  obtain ⟨t, ht⟩ := exists_get? (Nat.lt_trans h s.eofIndex_lt_length)
  refine ⟨t, ht, Bool.eq_false_iff.2 fun he => ?_⟩
  have := (isEof_iff ht).1 he
  omega

theorem lt_eofIndex (h : s.get? i = some t) (he : t.isEof = false) : i < s.eofIndex := by
  have hlt := get?_lt_length h
  have hlen := s.length_eq
  have hne : i ≠ s.eofIndex := fun hi => by
    rw [(isEof_iff h).2 hi] at he
    cases he
  omega

theorem filter_isEof_range (s : TokenStream) :
    (List.range s.length).filter (fun i => (s.get? i).any Token.isEof) = [s.eofIndex] := by
  obtain ⟨t, ht, heof⟩ := s.exists_eof
  have hbody : (List.range s.eofIndex).filter
      (fun i => (s.get? i).any Token.isEof) = [] := by
    rw [List.filter_eq_nil_iff]
    intro i hi
    obtain ⟨u, hu, hueof⟩ := exists_token (List.mem_range.1 hi)
    simp [hu, hueof]
  rw [s.length_eq, List.range_succ, List.filter_append, hbody]
  simp [ht, heof]

/-! ## Between two places -/

theorem getClamped_eq (h : s.get? i = some t) : s.getClamped i = t := by
  have hlt := get?_lt_length h
  have hlen := s.length_eq
  have hmin : min i s.eofIndex = i := Nat.min_eq_left (by omega)
  rw [get?, Array.getElem?_eq_some_iff] at h
  obtain ⟨hi, rfl⟩ := h
  simp only [getClamped, hmin]

theorem between_self (s : TokenStream) (i : Nat) : s.between i i = [] := by
  simp [between]

theorem between_succ (h : s.get? i = some t) : s.between i (i + 1) = [t] := by
  have hi : s.tokens.toList[i]? = some t := by simpa [get?] using h
  rw [between, Array.toList_extract, List.extract_eq_take_drop, Nat.add_sub_cancel_left,
    List.drop_eq_getElem?_toList_append, hi]
  simp

theorem between_append {p q r : Nat} (hpq : p ≤ q) (hqr : q ≤ r) :
    s.between p q ++ s.between q r = s.between p r := by
  obtain ⟨k, rfl⟩ := Nat.exists_eq_add_of_le hpq
  obtain ⟨m, rfl⟩ := Nat.exists_eq_add_of_le hqr
  have hsecond : p + k + m - (p + k) = m := by omega
  have hboth : p + k + m - p = k + m := by omega
  simp only [between, Array.toList_extract, List.extract_eq_take_drop]
  rw [Nat.add_sub_cancel_left, hsecond, hboth, List.take_add, List.drop_drop]

theorem between_eq_map {p q : Nat} (hq : q ≤ s.length) :
    s.between p q = (List.range' p (q - p)).map s.getClamped := by
  induction hn : q - p generalizing p with
  | zero =>
    have hle : q ≤ p := by omega
    simp [between, hle]
  | succ n ih =>
    obtain ⟨t, ht⟩ := exists_get? (s := s) (i := p) (by omega)
    rw [← between_append (Nat.le_succ p) (by omega : p + 1 ≤ q), between_succ ht, ih (by omega),
      List.range'_succ, List.map_cons, getClamped_eq ht, List.singleton_append]

/-! ## Suffixes -/

theorem closed_extract (s : TokenStream) (q : Nat) :
    TokensClosed (s.tokens.extract (min q s.eofIndex)).toList := by
  obtain ⟨body, last, hs, hlen, hlast, hbody⟩ := s.exists_body
  refine ⟨body.drop (min q body.length), last, ?_, hlast, fun t ht => ?_⟩
  · rw [hlen, Array.toList_extract, hs, List.extract_eq_take_drop,
      List.drop_append_of_le_length (Nat.min_le_right ..), List.take_of_length_le]
    have := s.length_eq
    simp only [length] at this
    simp only [List.length_append, List.length_drop, List.length_singleton]
    omega
  · exact hbody t (List.mem_of_mem_drop ht)

/-- The stream from the place `q` on, or its end of input alone if `q` lies behind that. -/
def drop (s : TokenStream) (q : Nat) : TokenStream where
  tokens := s.tokens.extract (min q s.eofIndex)
  closed := s.closed_extract q

theorem get?_drop {q : Nat} (hq : q ≤ s.eofIndex) (i : Nat) :
    (s.drop q).get? i = s.get? (i + q) := by
  have := s.length_eq
  simp only [length] at this
  simp only [drop, get?, Nat.min_eq_left hq, Array.getElem?_extract]
  split
  · rw [Nat.add_comm]
  · rw [Array.getElem?_eq_none (by omega)]

theorem eofIndex_drop {q : Nat} (hq : q ≤ s.eofIndex) : (s.drop q).eofIndex + q = s.eofIndex := by
  have hmin : min q s.eofIndex = q := Nat.min_eq_left hq
  have hlen := s.length_eq
  simp only [drop, eofIndex, length, Array.size_extract] at *
  omega

end PackratCpp.TokenStream
