/-
  A dump tells the tree.

  * `Label`: what a view says of a node or a token.  `Label.text_injective`: how a dump writes a label
    tells it.
  * `Shape`: a tree of labels; `Tree.shape` is that of a tree over its tokens.
  * `Shape.marks`: the labels in preorder, each with its depth.  `Shape.marks_injective`: these tell the
    shape, since a tree ends where the depth is no more than that of its root.
  * `Tree.line`: a label behind its indentation.  `Tree.joinLines_injective`: lines are told from their
    join.  `Tree.dumpLines_whole`: a dump has a line for each mark.
  * `Tree.shape_eq_of_dump_eq`: trees with the same dump have the same shape.
-/
import Mathlib.Data.List.Nodup
import PackratCpp.Proofs.Quoting
import PackratCpp.Proofs.Stream
import PackratCpp.Tree.Dump

namespace PackratCpp

/-! ## Labels -/

/-- What a view says of a node or a token. -/
inductive Label where
  | rule (rule : Rule)
  | token (kind : TokenKind) (text : String)
  deriving DecidableEq

namespace Label

/-- A label in a dump. -/
def text : Label → String
  | .rule r => r.name
  | .token kind text => kind.name ++ " " ++ Text.quoted text

end Label

/-- The bytes of a text as one number.  The kernel compares numbers faster than texts. -/
def Text.number (s : String) : Nat :=
  s.toByteArray.data.toList.foldl (fun n b => 256 * n + b.toNat) 0

/-- No number occurs twice. -/
def Text.distinct : List Nat → Bool
  | [] => true
  | n :: ns => ns.all (fun m => !Nat.beq n m) && distinct ns

theorem Text.nodup_of_distinct : ∀ {ns : List Nat}, Text.distinct ns = true → ns.Nodup
  | [], _ => List.nodup_nil
  | n :: ns, h => by
    rw [distinct, Bool.and_eq_true, List.all_eq_true] at h
    refine List.nodup_cons.2 ⟨fun hm => ?_, nodup_of_distinct h.2⟩
    have hne := h.1 n hm
    simp at hne

theorem Rule.names_distinct : Text.distinct (Rule.all.map fun r => Text.number r.name) = true := by
  decide +kernel

theorem Rule.name_injective {r s : Rule} (h : r.name = s.name) : r = s :=
  List.inj_on_of_nodup_map (Text.nodup_of_distinct names_distinct) r.mem_all s.mem_all
    (congrArg Text.number h)

theorem Rule.exists_name (r : Rule) :
    ∃ c cs, r.name = String.ofList (c :: cs) ∧ (c :: cs).all (·.isAlpha) = true := by
  cases r <;> exact ⟨_, _, rfl, rfl⟩

theorem TokenKind.exists_name (k : TokenKind) :
    ∃ c cs, k.name = String.ofList (c :: cs) ∧ (c :: cs).all (·.isAlpha) = true := by
  cases k <;> exact ⟨_, _, rfl, rfl⟩

theorem TokenKind.name_injective {k k' : TokenKind} (h : k.name = k'.name) : k = k' := by
  have hk := k.ofName?_name
  rw [h, k'.ofName?_name] at hk
  exact (Option.some.inj hk).symm

namespace Label

theorem notMem_of_alpha {name : String} (h : ∃ c cs, name = String.ofList (c :: cs) ∧
    (c :: cs).all (·.isAlpha) = true) {c : Char} (hc : c.isAlpha = false) : c ∉ name.toList := by
  obtain ⟨d, ds, rfl, hall⟩ := h
  intro hm
  rw [String.toList_ofList] at hm
  rw [List.all_eq_true.1 hall c hm] at hc
  cases hc

theorem exists_text (label : Label) : ∃ c cs, label.text.toList = c :: cs ∧ c.isAlpha = true := by
  cases label with
  | rule r =>
    obtain ⟨c, cs, hname, hall⟩ := r.exists_name
    exact ⟨c, cs, by simp [text, hname], List.all_eq_true.1 hall c (List.mem_cons_self ..)⟩
  | token kind t =>
    obtain ⟨c, cs, hname, hall⟩ := kind.exists_name
    exact ⟨c, cs ++ ' ' :: (Text.quoted t).toList, by simp [text, hname],
      List.all_eq_true.1 hall c (List.mem_cons_self ..)⟩

theorem newline_notMem (label : Label) : '\n' ∉ label.text.toList := by
  cases label with
  | rule r => exact notMem_of_alpha r.exists_name (by decide)
  | token kind t =>
    have hkind : '\n' ∉ kind.name.toList := notMem_of_alpha kind.exists_name (by decide)
    simpa [text, hkind] using Text.newline_notMem_quoted t

/-- **A label is told from how it is written**: only that of a token has a blank, and the first one ends
the name of its kind. -/
theorem text_injective {label label' : Label} (h : label.text = label'.text) : label = label' := by
  have hblank : ∀ (r : Rule) kind t, (rule r).text ≠ (token kind t).text := by
    intro r kind t heq
    have hm : ' ' ∈ (token kind t).text.toList := by simp [text]
    rw [← heq] at hm
    exact notMem_of_alpha r.exists_name (by decide) hm
  cases label with
  | rule r =>
    cases label' with
    | rule r' => rw [Rule.name_injective h]
    | token => exact (hblank _ _ _ h).elim
  | token kind t =>
    cases label' with
    | rule => exact (hblank _ _ _ h.symm).elim
    | token kind' t' =>
      have hchars : kind.name.toList ++ ' ' :: (Text.quoted t).toList =
          kind'.name.toList ++ ' ' :: (Text.quoted t').toList := by
        simpa [text] using congrArg String.toList h
      obtain ⟨hkind, ht⟩ := Text.split_unique (notMem_of_alpha kind.exists_name (by decide))
        (notMem_of_alpha kind'.exists_name (by decide)) hchars
      rw [TokenKind.name_injective (String.toList_inj.1 hkind),
        Text.quoted_injective (String.toList_inj.1 ht)]

end Label

/-! ## Shapes -/

/-- A tree of labels. -/
inductive Shape where
  | token (kind : TokenKind) (text : String)
  | node (rule : Rule) (children : List Shape)

namespace Shape

mutual

/-- The labels of a shape in preorder, each with its depth. -/
def marks (depth : Nat) : Shape → List (Nat × Label)
  | .token kind text => [(depth, .token kind text)]
  | .node r cs => (depth, .rule r) :: marksAll (depth + 1) cs

/-- The labels of some shapes side by side. -/
def marksAll (depth : Nat) : List Shape → List (Nat × Label)
  | [] => []
  | s :: ss => marks depth s ++ marksAll depth ss

end

/-- What follows the marks of a shape is not inside of it. -/
def Outside (depth : Nat) (rest : List (Nat × Label)) : Prop :=
  ∀ mark ∈ rest.head?, mark.1 ≤ depth

theorem Outside.nil {depth : Nat} : Outside depth [] := by
  rintro _ ⟨⟩

theorem Outside.mono {depth depth' : Nat} {rest : List (Nat × Label)} (h : Outside depth rest)
    (hle : depth ≤ depth') : Outside depth' rest :=
  fun mark hm => Nat.le_trans (h mark hm) hle

theorem exists_marks (depth : Nat) (s : Shape) : ∃ label rest, s.marks depth = (depth, label) :: rest := by
  cases s with
  | token => exact ⟨_, _, rfl⟩
  | node => exact ⟨_, _, rfl⟩

theorem outside_marksAll {depth : Nat} (ss : List Shape) {rest : List (Nat × Label)}
    (h : Outside depth rest) : Outside depth (marksAll depth ss ++ rest) := by
  cases ss with
  | nil => exact h
  | cons s ss =>
    obtain ⟨label, more, hs⟩ := exists_marks depth s
    rw [marksAll, hs]
    rintro mark ⟨⟩
    exact Nat.le_refl _

theorem not_outside_marks {depth : Nat} {s : Shape} {rest : List (Nat × Label)} :
    ¬ ∀ mark ∈ (marks depth s ++ rest).head?, mark.1 < depth := by
  obtain ⟨label, more, hs⟩ := exists_marks depth s
  rw [hs]
  exact fun h => Nat.lt_irrefl _ (h _ rfl)

mutual

theorem marks_unique {depth : Nat} {rest rest' : List (Nat × Label)} (hrest : Outside depth rest)
    (hrest' : Outside depth rest') : ∀ s s' : Shape,
    s.marks depth ++ rest = s'.marks depth ++ rest' → s = s' ∧ rest = rest'
  | .token kind text, .token kind' text', h => by
    simpa [marks, and_assoc] using h
  | .token .., .node .., h => by
    simp [marks] at h
  | .node .., .token .., h => by
    simp [marks] at h
  | .node r cs, .node r' cs', h => by
    simp only [marks, List.cons_append, List.cons.injEq, Prod.mk.injEq, true_and,
      Label.rule.injEq] at h
    obtain ⟨rfl, hinside⟩ := h
    obtain ⟨rfl, rfl⟩ := marksAll_unique
      (fun mark hm => Nat.lt_succ_of_le (hrest mark hm))
      (fun mark hm => Nat.lt_succ_of_le (hrest' mark hm)) cs cs' hinside
    exact ⟨rfl, rfl⟩

theorem marksAll_unique {depth : Nat} {rest rest' : List (Nat × Label)}
    (hrest : ∀ mark ∈ rest.head?, mark.1 < depth) (hrest' : ∀ mark ∈ rest'.head?, mark.1 < depth) :
    ∀ ss ss' : List Shape, marksAll depth ss ++ rest = marksAll depth ss' ++ rest' →
      ss = ss' ∧ rest = rest'
  | [], [], h => ⟨rfl, h⟩
  | [], s' :: ss', h => by
    rw [marksAll, marksAll, List.nil_append, List.append_assoc] at h
    exact absurd (h ▸ hrest) not_outside_marks
  | s :: ss, [], h => by
    rw [marksAll, marksAll, List.nil_append, List.append_assoc] at h
    exact absurd (h ▸ hrest') not_outside_marks
  | s :: ss, s' :: ss', h => by
    rw [marksAll, marksAll, List.append_assoc, List.append_assoc] at h
    obtain ⟨rfl, hsiblings⟩ := marks_unique
      (outside_marksAll ss fun mark hm => Nat.le_of_lt (hrest mark hm))
      (outside_marksAll ss' fun mark hm => Nat.le_of_lt (hrest' mark hm)) s s' h
    obtain ⟨rfl, rfl⟩ := marksAll_unique hrest hrest' ss ss' hsiblings
    exact ⟨rfl, rfl⟩

end

/-- **A shape is told from the labels in preorder with their depths.** -/
theorem marks_injective {depth : Nat} {s s' : Shape} (h : s.marks depth = s'.marks depth) : s = s' :=
  (marks_unique .nil .nil s s' (by rw [h])).1

end Shape

/-! ## Lines -/

/-- Names and spellings alone, with the end of input. -/
def DumpStyle.whole : DumpStyle := ⟨false, true, .plain⟩

namespace Tree

/-- A label in a dump, behind the indentation of its depth. -/
def line (depth : Nat) (label : Label) : String :=
  indentation depth ++ label.text

theorem toList_line (depth : Nat) (label : Label) :
    (line depth label).toList = List.replicate (2 * depth) ' ' ++ label.text.toList := by
  simp [line, indentation]

theorem newline_notMem_line (depth : Nat) (label : Label) : '\n' ∉ (line depth label).toList := by
  rw [toList_line, List.mem_append, List.mem_replicate]
  rintro (⟨-, heq⟩ | hm)
  · exact absurd heq (by decide)
  · exact label.newline_notMem hm

theorem replicate_unique {m n : Nat} {c d : Char} {cs ds : List Char} (hc : c ≠ ' ') (hd : d ≠ ' ')
    (h : List.replicate m ' ' ++ c :: cs = List.replicate n ' ' ++ d :: ds) :
    m = n ∧ c :: cs = d :: ds := by
  induction m generalizing n with
  | zero =>
    cases n with
    | zero => exact ⟨rfl, h⟩
    | succ n => exact absurd (List.cons.inj h).1 hc
  | succ m ih =>
    cases n with
    | zero => exact absurd (List.cons.inj h).1.symm hd
    | succ n =>
      obtain ⟨rfl, hrest⟩ := ih (List.cons.inj h).2
      exact ⟨rfl, hrest⟩

theorem line_injective {depth depth' : Nat} {label label' : Label}
    (h : line depth label = line depth' label') : depth = depth' ∧ label = label' := by
  obtain ⟨c, cs, hlabel, hc⟩ := label.exists_text
  obtain ⟨d, ds, hlabel', hd⟩ := label'.exists_text
  have hblank : ∀ {c : Char}, c.isAlpha = true → c ≠ ' ' := by
    rintro c hc rfl
    exact absurd hc (by decide)
  have hchars := congrArg String.toList h
  rw [toList_line, toList_line, hlabel, hlabel'] at hchars
  obtain ⟨hdepth, htext⟩ := replicate_unique (hblank hc) (hblank hd) hchars
  rw [← hlabel, ← hlabel'] at htext
  exact ⟨by omega, Label.text_injective (String.toList_inj.1 htext)⟩

theorem toList_joinLines_cons (line : String) (lines : List String) :
    (joinLines (line :: lines)).toList = line.toList ++ '\n' :: (joinLines lines).toList := by
  simp [joinLines, String.join_cons]

/-- **Lines are told from their join.** -/
theorem joinLines_injective {lines lines' : List String} (h : ∀ l ∈ lines, '\n' ∉ l.toList)
    (h' : ∀ l ∈ lines', '\n' ∉ l.toList) (heq : joinLines lines = joinLines lines') :
    lines = lines' := by
  have hne : ∀ l ls, joinLines (l :: ls) ≠ joinLines [] := by
    intro l ls heq
    have hchars := congrArg String.toList heq
    rw [toList_joinLines_cons] at hchars
    simp [joinLines] at hchars
  induction lines generalizing lines' with
  | nil =>
    cases lines' with
    | nil => rfl
    | cons l' ls' => exact (hne _ _ heq.symm).elim
  | cons l ls ih =>
    cases lines' with
    | nil => exact (hne _ _ heq).elim
    | cons l' ls' =>
      have hchars := congrArg String.toList heq
      rw [toList_joinLines_cons, toList_joinLines_cons] at hchars
      obtain ⟨hl, hls⟩ := Text.split_unique (h l (List.mem_cons_self ..))
        (h' l' (List.mem_cons_self ..)) hchars
      rw [String.toList_inj.1 hl, ih (fun l hl => h l (List.mem_cons_of_mem _ hl))
        (fun l hl => h' l (List.mem_cons_of_mem _ hl)) (String.toList_inj.1 hls)]

/-! ## Dumps -/

mutual

/-- A tree with the kinds and spellings of its tokens instead of places. -/
def shape (tokens : TokenStream) : Tree → Shape
  | .leaf i => .token (tokens.getClamped i).kind (tokens.getClamped i).text
  | .node r _ _ cs => .node r (shapeAll tokens cs)

/-- The same for some trees. -/
def shapeAll (tokens : TokenStream) : List Tree → List Shape
  | [] => []
  | t :: ts => shape tokens t :: shapeAll tokens ts

end

theorem nodeLine_whole (depth : Nat) (r : Rule) (s e : Nat) :
    nodeLine .whole depth r s e = line depth (.rule r) := by
  simp [nodeLine, DumpStyle.whole, line, Label.text, Palette.plain]

theorem tokenLine_whole (depth : Nat) (t : Token) :
    tokenLine .whole depth t = line depth (.token t.kind t.text) := by
  simp [tokenLine, DumpStyle.whole, line, Label.text, Palette.plain, String.append_assoc]

mutual

/-- **A dump has a line for each mark.** -/
theorem dumpLines_whole {tokens : TokenStream} (depth : Nat) : ∀ t : Tree,
    (∀ i ∈ t.leaves, i < tokens.length) →
    dumpLines tokens .whole depth t = ((t.shape tokens).marks depth).map fun mark => line mark.1 mark.2
  | .leaf i, h => by
    obtain ⟨u, hu⟩ := TokenStream.exists_get? (h i (List.mem_singleton_self i))
    have hshown : (u.isEof && !DumpStyle.whole.eof) = false := Bool.and_false _
    simp only [dumpLines, hu, hshown, shape, TokenStream.getClamped_eq hu, Shape.marks,
      tokenLine_whole, List.map_cons, List.map_nil, Bool.false_eq_true, if_false]
  | .node r s e cs, h => by
    rw [dumpLines, shape, Shape.marks, List.map_cons, nodeLine_whole, dumpLinesAll_whole _ cs h]

theorem dumpLinesAll_whole {tokens : TokenStream} (depth : Nat) : ∀ ts : List Tree,
    (∀ i ∈ leavesAll ts, i < tokens.length) →
    dumpLinesAll tokens .whole depth ts =
      (Shape.marksAll depth (shapeAll tokens ts)).map fun mark => line mark.1 mark.2
  | [], _ => rfl
  | t :: ts, h => by
    rw [dumpLinesAll, shapeAll, Shape.marksAll, List.map_append,
      dumpLines_whole depth t fun i hi => h i (List.mem_append_left _ hi),
      dumpLinesAll_whole depth ts fun i hi => h i (List.mem_append_right _ hi)]

end

/-- **A dump tells the shape of the tree.** -/
theorem shape_eq_of_dump_eq {tokens tokens' : TokenStream} {t t' : Tree}
    (ht : ∀ i ∈ t.leaves, i < tokens.length) (ht' : ∀ i ∈ t'.leaves, i < tokens'.length)
    (h : t.dump tokens .whole = t'.dump tokens' .whole) : t.shape tokens = t'.shape tokens' := by
  have hlines : ∀ marks : List (Nat × Label),
      ∀ l ∈ marks.map fun mark => line mark.1 mark.2, '\n' ∉ l.toList := by
    intro marks l hl
    obtain ⟨mark, -, rfl⟩ := List.mem_map.1 hl
    exact newline_notMem_line _ _
  have hinjective : Function.Injective fun mark : Nat × Label => line mark.1 mark.2 := by
    intro mark mark' hline
    obtain ⟨hdepth, hlabel⟩ := line_injective hline
    exact Prod.ext hdepth hlabel
  rw [dump, dump, dumpLines_whole 0 t ht, dumpLines_whole 0 t' ht'] at h
  have hmarks := joinLines_injective (hlines _) (hlines _) h
  exact Shape.marks_injective (List.map_injective_iff.2 hinjective hmarks)

end Tree

end PackratCpp
