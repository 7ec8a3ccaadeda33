/-
  The views of a tree describe the same tree.

  * `Layout.label`, `Layout.fields`, `Layout.ranged`: what a dump, an object and a concrete tree say of an
    element of a layout.
  * `Tree.paths`: the ways from the root to the elements in preorder.  `Tree.follow?_paths`: each leads
    to its element.  `Tree.marks_eq`: the labels in preorder, with the lengths of the ways.
  * `Json.objects`: the objects in a value in preorder.  `Tree.objects_toJson`: the fields of the elements.
  * `Builder`: puts a concrete tree together from calls.  `Tree.assemble_rootCalls`: the concrete tree of a
    parse is the one that its calls spell.
  * `ConcreteTree.visit`: its nodes and leaves in preorder, with their bytes.  `Tree.visit_build`: these
    are the bytes of the leaves before an element, and of those below it.
  * `Grammar.parse_views`: what the views of a finished parse have in common.
-/
import PackratCpp.Proofs.Compaction
import PackratCpp.Proofs.Forecast
import PackratCpp.Proofs.Indentation
import PackratCpp.Tree.Concrete
import PackratCpp.Tree.Object

namespace PackratCpp

/-! ## Elements in the views -/

namespace Layout

/-- The rule of a node, or kind and spelling of a token. -/
def label (l : Layout) (tokens : TokenStream) : Element → Label
  | .node id => .rule (l.nodes[id]?.getD default).rule
  | .token i => .token (tokens.getClamped i).kind (tokens.getClamped i).text

/-- What an object says of an element besides its children. -/
def fields (l : Layout) (tokens : TokenStream) : Element → List (String × Json)
  | .node id => [
      ("rule", .str (l.label tokens (.node id)).text),
      ("tokens", .obj [("end", .num (l.stop (.node id))), ("start", .num (l.start (.node id)))])]
  | .token i => [
      ("column", .num (tokens.getClamped i).column),
      ("kind", .str (tokens.getClamped i).kind.name),
      ("line", .num (tokens.getClamped i).line),
      ("text", .str (tokens.getClamped i).text)]

end Layout

/-- How many bytes the spellings of some tokens take. -/
def TokenStream.bytes (tokens : TokenStream) (leaves : List Nat) : Nat :=
  (leaves.map fun i => (tokens.getClamped i).text.utf8ByteSize).sum

theorem TokenStream.bytes_append (tokens : TokenStream) (is js : List Nat) :
    tokens.bytes (is ++ js) = tokens.bytes is + tokens.bytes js := by
  rw [bytes, List.map_append, List.sum_append, bytes, bytes]

/-- An element with the bytes that its leaves take when they start at some byte. -/
def Layout.ranged (l : Layout) (tokens : TokenStream) (start : Nat) (e : Element) :
    Label × Nat × Nat :=
  (l.label tokens e, start, start + tokens.bytes (l.leavesBelow e))

namespace Tree

/-! ## Ways down -/

mutual

/-- The ways from the root of a tree to everything in it, in preorder. -/
def paths : Tree → List (List Nat)
  | .leaf _ => [[]]
  | .node _ _ _ cs => [] :: pathsAll 0 cs

/-- The same for some siblings, of which the first has a number. -/
def pathsAll (number : Nat) : List Tree → List (List Nat)
  | [] => []
  | t :: ts => t.paths.map (number :: ·) ++ pathsAll (number + 1) ts

end

variable {l : Layout} {tokens : TokenStream}

mutual

theorem length_paths : ∀ (t : Tree) (n : Nat), t.paths.length = (t.walk n).length
  | .leaf _, _ => rfl
  | .node _ _ _ cs, n => by
    rw [paths, walk, List.length_cons, List.length_cons, length_pathsAll cs 0 (n + 1)]

theorem length_pathsAll : ∀ (ts : List Tree) (number n : Nat),
    (pathsAll number ts).length = (walkAll n ts).length
  | [], _, _ => rfl
  | t :: ts, number, n => by
    rw [pathsAll, walkAll, List.length_append, List.length_append, List.length_map, length_paths t n,
      length_pathsAll ts (number + 1) (n + t.size)]

end

mutual

/-- **Each way leads to its element.** -/
theorem follow?_paths : ∀ (t : Tree) (n : Nat), l.Shows n t →
    t.paths.map (l.follow? (t.element n)) = (t.walk n).map some
  | .leaf _, _, _ => rfl
  | .node r s e cs, n, h => by
    rw [paths, walk, List.map_cons, List.map_cons, element,
      follow?_pathsAll cs 0 (n + 1) (.node n) h.2.2 (by rw [h.2.1]; rfl)]
    rfl

theorem follow?_pathsAll : ∀ (ts : List Tree) (number n : Nat) (parent : Element), l.ShowsAll n ts →
    (l.children parent).drop number = elements n ts →
    (pathsAll number ts).map (l.follow? parent) = (walkAll n ts).map some
  | [], _, _, _, _, _ => rfl
  | t :: ts, number, n, parent, h, hchildren => by
    have hchild : l.child? parent number = some (t.element n) := by
      rw [Layout.child?, ← List.head?_drop, hchildren]
      rfl
    have hrest : (l.children parent).drop (number + 1) = elements (n + t.size) ts := by
      rw [← List.tail_drop, hchildren]
      rfl
    have hfirst : (t.paths.map (number :: ·)).map (l.follow? parent) = (t.walk n).map some := by
      rw [← follow?_paths t n h.1, List.map_map]
      refine List.map_congr_left fun path _ => ?_
      rw [Function.comp_apply, Layout.follow?, hchild, Option.bind_some]
    rw [pathsAll, walkAll, List.map_append, List.map_append, hfirst,
      follow?_pathsAll ts (number + 1) (n + t.size) parent h.2 hrest]

end

theorem label_node {n : Nat} {r : Rule} {s e : Nat} {cs : List Tree}
    (h : l.Shows n (.node r s e cs)) : l.label tokens (.node n) = .rule r := by
  obtain ⟨⟨first, hrecord⟩, -⟩ := h
  rw [Layout.label, hrecord, Option.getD_some]

mutual

/-- **The labels in preorder**, each with the length of the way to its element. -/
theorem marks_eq : ∀ (t : Tree) (n depth : Nat), l.Shows n t →
    (t.shape tokens).marks depth = List.zipWith
      (fun path e => (depth + path.length, l.label tokens e)) t.paths (t.walk n)
  | .leaf _, _, _, _ => rfl
  | .node r s e cs, n, depth, h => by
    rw [shape, Shape.marks, paths, walk, List.zipWith_cons_cons, label_node h,
      marksAll_eq cs 0 (n + 1) depth h.2.2]
    rfl

theorem marksAll_eq : ∀ (ts : List Tree) (number n depth : Nat), l.ShowsAll n ts →
    Shape.marksAll (depth + 1) (shapeAll tokens ts) = List.zipWith
      (fun path e => (depth + path.length, l.label tokens e)) (pathsAll number ts) (walkAll n ts)
  | [], _, _, _, _ => rfl
  | t :: ts, number, n, depth, h => by
    rw [shapeAll, Shape.marksAll, pathsAll, walkAll,
      List.zipWith_append (by rw [List.length_map, length_paths]), List.zipWith_map_left,
      marks_eq t n (depth + 1) h.1, marksAll_eq ts (number + 1) (n + t.size) depth h.2]
    simp only [List.length_cons, Nat.add_assoc, Nat.add_comm 1]

end

end Tree

/-! ## Objects -/

namespace Json

mutual

/-- The objects in a value, each before those among its children, without the children. -/
def objects : Json → List (List (String × Json))
  | .obj fields => fields.filter (fun field => field.1 != "children") :: objectsInside fields
  | .arr items => objectsAll items
  | _ => []

/-- The objects among the children. -/
def objectsInside : List (String × Json) → List (List (String × Json))
  | [] => []
  | (name, value) :: fields => (if name = "children" then objects value else []) ++ objectsInside fields

/-- The objects in some values. -/
def objectsAll : List Json → List (List (String × Json))
  | [] => []
  | value :: values => objects value ++ objectsAll values

end

end Json

namespace Tree

variable {l : Layout} {tokens : TokenStream}

mutual

/-- **The objects of a tree in preorder** have the fields of its elements. -/
theorem objects_toJson : ∀ (t : Tree) (n : Nat), l.Shows n t →
    (∀ i ∈ t.leaves, i < tokens.length) →
    (t.toJson tokens).objects = (t.walk n).map (l.fields tokens)
  | .leaf i, n, _, h => by
    obtain ⟨u, hu⟩ := TokenStream.exists_get? (h i (List.mem_singleton_self i))
    rw [toJson, hu, walk, List.map_singleton, Layout.fields, TokenStream.getClamped_eq hu]
    simp [Token.toJson, Json.objects, Json.objectsInside]
  | .node r s e cs, n, hshows, h => by
    have hstart := Layout.start_element hshows
    have hstop := Layout.stop_element hshows
    rw [element, start] at hstart
    rw [element, stop] at hstop
    rw [toJson, walk, List.map_cons, Layout.fields, hstart, hstop, label_node hshows,
      ← objectsAll_toJson cs (n + 1) hshows.2.2 h]
    simp [Json.objects, Json.objectsInside, Label.text]

theorem objectsAll_toJson : ∀ (ts : List Tree) (n : Nat), l.ShowsAll n ts →
    (∀ i ∈ leavesAll ts, i < tokens.length) →
    Json.objectsAll (toJsonAll tokens ts) = (walkAll n ts).map (l.fields tokens)
  | [], _, _, _ => rfl
  | t :: ts, n, hshows, h => by
    rw [toJsonAll, Json.objectsAll, walkAll, List.map_append,
      objects_toJson t n hshows.1 fun i hi => h i (List.mem_append_left _ hi),
      objectsAll_toJson ts (n + t.size) hshows.2 fun i hi => h i (List.mem_append_right _ hi)]

end

end Tree

/-! ## Concrete trees -/

/-- What a builder of concrete trees is told. -/
inductive BuilderCall where
  | start (rule : Rule)
  | token (kind : TokenKind) (text : String)
  | finish

/-- A builder of concrete trees. -/
structure Builder where
  /-- The nodes that are not finished from the inside out, each with its first byte and the children so
  far. -/
  opened : List (Rule × Nat × List ConcreteTree)
  /-- The trees outside of these. -/
  finished : List ConcreteTree
  /-- The byte behind what has been put in. -/
  offset : Nat

namespace Builder

/-- Puts in a tree as the next child. -/
def add (b : Builder) (t : ConcreteTree) : Builder :=
  match b.opened with
  | [] => { b with finished := b.finished ++ [t], offset := t.stop }
  | (r, s, cs) :: rest => { b with opened := (r, s, cs ++ [t]) :: rest, offset := t.stop }

/-- Answers a call.  There must be a node to finish. -/
def call (b : Builder) : BuilderCall → Option Builder
  | .start r => some { b with opened := (r, b.offset, []) :: b.opened }
  | .token kind text => some (b.add (.leaf kind text b.offset))
  | .finish =>
    match b.opened with
    | [] => none
    | (r, s, cs) :: rest => some ({ b with opened := rest }.add (.node r s b.offset cs))

/-- Answers some calls. -/
def run (b : Builder) (calls : List BuilderCall) : Option Builder :=
  calls.foldlM call b

/-- The only tree that some calls spell. -/
def assemble (calls : List BuilderCall) : Option ConcreteTree :=
  match run ⟨[], [], 0⟩ calls with
  | some ⟨[], [t], _⟩ => some t
  | _ => none

end Builder

namespace Tree

mutual

/-- The calls that spell a tree. -/
def calls (tokens : TokenStream) : Tree → List BuilderCall
  | .leaf i => [.token (tokens.getClamped i).kind (tokens.getClamped i).text]
  | .node r _ _ cs => .start r :: (callsAll tokens cs ++ [.finish])

/-- The calls that spell some trees. -/
def callsAll (tokens : TokenStream) : List Tree → List BuilderCall
  | [] => []
  | t :: ts => calls tokens t ++ callsAll tokens ts

end

/-- The calls that spell the tree of a parse from `root`.  A root that is a token is put into a node. -/
def rootCalls (tokens : TokenStream) (root : Rule) : Tree → List BuilderCall
  | .leaf i => .start root :: (calls tokens (.leaf i) ++ [.finish])
  | t => calls tokens t

variable {l : Layout} {tokens : TokenStream}

mutual

theorem run_calls (rest : List BuilderCall) : ∀ (t : Tree) (b : Builder),
    (∀ i ∈ t.leaves, i < tokens.length) →
    b.run (t.calls tokens ++ rest) = (b.add (.build tokens b.offset t)).run rest
  | .leaf i, b, h => by
    obtain ⟨u, hu⟩ := TokenStream.exists_get? (h i (List.mem_singleton_self i))
    rw [calls, ConcreteTree.build, hu, TokenStream.getClamped_eq hu]
    rfl
  | .node r _ _ cs, b, h => by
    have hinside := run_callsAll (.finish :: rest) cs r b.offset [] b.opened b.finished b.offset h
    rw [calls, ConcreteTree.build, List.cons_append, List.append_assoc]
    exact hinside

theorem run_callsAll (rest : List BuilderCall) : ∀ (ts : List Tree) (r : Rule) (s : Nat)
    (ds : List ConcreteTree) (opened : List (Rule × Nat × List ConcreteTree))
    (finished : List ConcreteTree) (offset : Nat), (∀ i ∈ leavesAll ts, i < tokens.length) →
    Builder.run ⟨(r, s, ds) :: opened, finished, offset⟩ (callsAll tokens ts ++ rest) =
      Builder.run ⟨(r, s, ds ++ (ConcreteTree.buildAll tokens offset ts).1) :: opened, finished,
        (ConcreteTree.buildAll tokens offset ts).2⟩ rest
  | [], _, _, _, _, _, _, _ => by
    rw [callsAll, ConcreteTree.buildAll, List.nil_append, List.append_nil]
  | t :: ts, r, s, ds, opened, finished, offset, h => by
    rw [callsAll, List.append_assoc, run_calls _ t _ fun i hi => h i (List.mem_append_left _ hi),
      Builder.add, run_callsAll rest ts r s _ opened finished _
        fun i hi => h i (List.mem_append_right _ hi)]
    rw [ConcreteTree.buildAll, List.append_assoc, List.singleton_append]

end

/-- **The concrete tree of a parse is the one that its calls spell.** -/
theorem assemble_rootCalls (root : Rule) (t : Tree) (h : ∀ i ∈ t.leaves, i < tokens.length) :
    Builder.assemble (t.rootCalls tokens root) = some (.ofTree tokens root t) := by
  cases t with
  | leaf i =>
    have hrun := run_callsAll [.finish] [.leaf i] root 0 [] [] [] 0 (by simpa [leavesAll] using h)
    simp only [callsAll, List.append_nil] at hrun
    have hstart : Builder.run ⟨[], [], 0⟩ (rootCalls tokens root (.leaf i)) =
        Builder.run ⟨[(root, 0, [])], [], 0⟩ (calls tokens (.leaf i) ++ [.finish]) := rfl
    rw [Builder.assemble, hstart, hrun]
    rfl
  | node r s e cs =>
    have hrun := run_calls [] (.node r s e cs) ⟨[], [], 0⟩ h
    rw [List.append_nil] at hrun
    have hcalls : rootCalls tokens root (.node r s e cs) = calls tokens (.node r s e cs) := rfl
    rw [Builder.assemble, hcalls, hrun]
    rfl

end Tree

namespace ConcreteTree

mutual

/-- The nodes and leaves of a tree in preorder, each with its first byte and the byte behind it. -/
def visit : ConcreteTree → List (Label × Nat × Nat)
  | .leaf kind text start => [(.token kind text, start, start + text.utf8ByteSize)]
  | .node r s e cs => (.rule r, s, e) :: visitAll cs

/-- The nodes and leaves of some trees. -/
def visitAll : List ConcreteTree → List (Label × Nat × Nat)
  | [] => []
  | t :: ts => visit t ++ visitAll ts

end

end ConcreteTree

namespace Layout

/-- Elements with their bytes, one after the other: a token moves on, a node does not. -/
def spread (l : Layout) (tokens : TokenStream) (start : Nat) : List Element → List (Label × Nat × Nat)
  | [] => []
  | e :: es => l.ranged tokens start e :: spread l tokens (start + tokens.bytes e.token?.toList) es

variable {l : Layout} {tokens : TokenStream}

theorem spread_append (start : Nat) (es fs : List Element) :
    l.spread tokens start (es ++ fs) = l.spread tokens start es ++
      l.spread tokens (start + tokens.bytes (es.filterMap Element.token?)) fs := by
  induction es generalizing start with
  | nil => rfl
  | cons e es ih =>
    have hbytes : tokens.bytes ((e :: es).filterMap Element.token?) =
        tokens.bytes e.token?.toList + tokens.bytes (es.filterMap Element.token?) := by
      rw [← TokenStream.bytes_append]
      cases e <;> rfl
    rw [List.cons_append, spread, spread, ih, hbytes, Nat.add_assoc, List.cons_append]

theorem spread_eq_mapIdx (start : Nat) (es : List Element) :
    l.spread tokens start es = es.mapIdx fun k e =>
      l.ranged tokens (start + tokens.bytes ((es.take k).filterMap Element.token?)) e := by
  induction es generalizing start with
  | nil => rfl
  | cons e es ih =>
    have hbytes : ∀ k, start + tokens.bytes (((e :: es).take (k + 1)).filterMap Element.token?) =
        start + tokens.bytes e.token?.toList + tokens.bytes ((es.take k).filterMap Element.token?) := by
      intro k
      rw [Nat.add_assoc, ← TokenStream.bytes_append]
      cases e <;> rfl
    rw [spread, List.mapIdx_cons, ih]
    simp only [hbytes]
    rfl

theorem leavesBelow_element {t : Tree} {n : Nat} (h : l.Shows n t) (hsize : t.inner ≤ l.slots.size) :
    l.leavesBelow (t.element n) = t.leaves := by
  rw [leavesBelow, below_eq h hsize, Tree.walk_tokens]

end Layout

namespace Tree

variable {l : Layout} {tokens : TokenStream}

mutual

/-- **A concrete tree in preorder** has the elements of the tree, each with the bytes of its leaves. -/
theorem visit_build : ∀ (t : Tree) (n start : Nat), l.Shows n t → t.inner ≤ l.slots.size →
    (∀ i ∈ t.leaves, i < tokens.length) →
    (ConcreteTree.build tokens start t).visit = l.spread tokens start (t.walk n) ∧
      (ConcreteTree.build tokens start t).stop = start + tokens.bytes t.leaves
  | .leaf i, n, start, hshows, hsize, h => by
    obtain ⟨u, hu⟩ := TokenStream.exists_get? (h i (List.mem_singleton_self i))
    have hleaves := Layout.leavesBelow_element hshows hsize
    rw [element, leaves] at hleaves
    have hbytes : tokens.bytes [i] = u.text.utf8ByteSize := by
      simp [TokenStream.bytes, TokenStream.getClamped_eq hu]
    rw [ConcreteTree.build, hu, walk, Layout.spread, Layout.ranged, hleaves, leaves, hbytes,
      Layout.label, TokenStream.getClamped_eq hu]
    exact ⟨rfl, rfl⟩
  | .node r s e cs, n, start, hshows, hsize, h => by
    have hleaves := Layout.leavesBelow_element hshows hsize
    rw [element, leaves] at hleaves
    obtain ⟨hvisit, hstop⟩ := visit_buildAll cs (n + 1) start hshows.2.2
      (Nat.le_trans (Nat.le_add_left ..) hsize) h
    rw [ConcreteTree.build, ConcreteTree.visit, ConcreteTree.stop, hvisit, hstop, walk, Layout.spread,
      Layout.ranged, hleaves, label_node hshows]
    exact ⟨rfl, rfl⟩

theorem visit_buildAll : ∀ (ts : List Tree) (n start : Nat), l.ShowsAll n ts →
    innerAll ts ≤ l.slots.size → (∀ i ∈ leavesAll ts, i < tokens.length) →
    ConcreteTree.visitAll (ConcreteTree.buildAll tokens start ts).1 =
        l.spread tokens start (walkAll n ts) ∧
      (ConcreteTree.buildAll tokens start ts).2 = start + tokens.bytes (leavesAll ts)
  | [], _, _, _, _, _ => ⟨rfl, rfl⟩
  | t :: ts, n, start, hshows, hsize, h => by
    obtain ⟨hvisit, hstop⟩ := visit_build t n start hshows.1
      (Nat.le_trans (Nat.le_add_right ..) hsize) fun i hi => h i (List.mem_append_left _ hi)
    obtain ⟨hvisits, hstops⟩ := visit_buildAll ts (n + t.size) (start + tokens.bytes t.leaves) hshows.2
      (Nat.le_trans (Nat.le_add_left ..) hsize) fun i hi => h i (List.mem_append_right _ hi)
    rw [ConcreteTree.buildAll, hstop, ConcreteTree.visitAll, hvisit, hvisits, hstops, walkAll,
      Layout.spread_append, walk_tokens, leavesAll, TokenStream.bytes_append, Nat.add_assoc]
    exact ⟨rfl, rfl⟩

end

end Tree

/-! ## Finished parses -/

/-- The views of a tree over some tokens that was parsed from `root` agree with its elements in
preorder. -/
structure Tree.Viewed (t : Tree) (tokens : TokenStream) (root : Rule) (l : Layout) : Prop where
  /-- A dump has a line for each element: the name of the rule, or kind and quoted spelling, behind two
  blanks for each step of the way to it. -/
  dump : ∃ paths, paths.map (l.follow? l.root) = l.descendants.map some ∧
    t.dump tokens .whole = Tree.joinLines (List.zipWith
      (fun path e => Tree.line path.length (l.label tokens e)) paths l.descendants)
  /-- None of these goes on over the end of its line. -/
  line : ∀ e depth, '\n' ∉ (Tree.line depth (l.label tokens e)).toList
  /-- The nested objects are those of the elements. -/
  objects : (t.toJson tokens).objects = l.descendants.map (l.fields tokens)
  /-- The concrete tree is what the calls for the tree spell, -/
  calls : Builder.assemble (t.rootCalls tokens root) = some (.ofTree tokens root t)
  /-- and it has the elements with the bytes of the leaves below them, which lie behind those of the
  leaves before them.  A node of the root rule is around a root that is a token. -/
  visit : (ConcreteTree.ofTree tokens root t).visit =
    (match l.root with
      | .node _ => []
      | .token i => [(.rule root, 0, tokens.bytes [i])]) ++
    l.descendants.mapIdx fun k e =>
      l.ranged tokens (tokens.bytes ((l.descendants.take k).filterMap Element.token?)) e

theorem Tree.viewed {t : Tree} {tokens : TokenStream} (root : Rule)
    (h : ∀ i ∈ t.leaves, i < tokens.length) : t.Viewed tokens root (.ofTree t) := by
  obtain ⟨hshows, hroot, -, hslots⟩ := Layout.shows_ofTree t
  constructor
  case dump =>
    refine ⟨t.paths, ?_, ?_⟩
    · rw [hroot, Layout.descendants_ofTree]
      exact follow?_paths t 0 hshows
    · rw [Tree.dump, dumpLines_whole 0 t h, marks_eq t 0 0 hshows, Layout.descendants_ofTree,
        List.map_zipWith]
      simp only [Nat.zero_add]
  case line => exact fun e depth => newline_notMem_line _ _
  case objects =>
    rw [Layout.descendants_ofTree]
    exact objects_toJson t 0 hshows h
  case calls => exact assemble_rootCalls root t h
  case visit =>
    obtain ⟨hvisit, hstop⟩ := visit_build t 0 0 hshows (Nat.le_of_eq hslots.symm) h
    have hspread : (Layout.ofTree t).spread tokens 0 (t.walk 0) = _ :=
      Layout.spread_eq_mapIdx 0 (t.walk 0)
    simp only [Nat.zero_add] at hspread hstop
    rw [Layout.descendants_ofTree, ← hspread, ← hvisit, hroot]
    cases t with
    | leaf i =>
      rw [ConcreteTree.ofTree, ConcreteTree.visit, hstop, ConcreteTree.visitAll,
        ConcreteTree.visitAll, List.append_nil]
      rfl
    | node => rfl

namespace Grammar

variable {g : Grammar} {tokens : TokenStream} {root : Rule} {maxDepth? : Option Nat} {r : Parse}

theorem inputs_of_parse (hr : g.parse tokens root maxDepth? = .ok r) :
    r.tokens = tokens ∧ r.rootRule = root := by
  unfold parse at hr
  rcases hroot : g.find? root with _ | production
  · simp only [hroot] at hr
    cases hr
  · rcases he : g.evaluateRoot tokens root production maxDepth? with ⟨_ | stop, st⟩
    · simp only [hroot, he] at hr
      split_ifs at hr
    · simp only [hroot, he] at hr
      split_ifs at hr
      cases hr
      exact ⟨rfl, rfl⟩

theorem leaves_of_parse (hr : g.parse tokens root maxDepth? = .ok r) :
    ∀ i ∈ r.tree.leaves, i < tokens.length := by
  obtain ⟨htiled, -, -, hstop⟩ := tiled_of_parse hr
  have hlength := tokens.length_eq
  intro i hi
  rw [htiled.leaves_eq.1, List.mem_range'_1] at hi
  omega

/-- **The views of a finished parse describe the same tree.**  For every grammar, stream, root rule and
limit on depth, the dump, the object and the concrete tree of the parse agree with its elements in
preorder, and any finished parse that is dumped the same way has a tree of the same shape, with the same
rules, kinds and spellings. -/
theorem parse_views (hr : g.parse tokens root maxDepth? = .ok r) :
    r.tokens = tokens ∧ r.rootRule = root ∧
      r.tree.Viewed r.tokens r.rootRule (Layout.ofTree r.tree) ∧
      ∀ (g' : Grammar) (tokens' : TokenStream) (root' : Rule) (maxDepth'? : Option Nat) (r' : Parse),
        g'.parse tokens' root' maxDepth'? = .ok r' →
        r.tree.dump r.tokens .whole = r'.tree.dump r'.tokens .whole →
        r.tree.shape r.tokens = r'.tree.shape r'.tokens := by
  obtain ⟨htokens, hroot⟩ := inputs_of_parse hr
  have hleaves := leaves_of_parse hr
  refine ⟨htokens, hroot, Tree.viewed _ (htokens ▸ hleaves), ?_⟩
  intro g' tokens' root' maxDepth'? r' hr' hdump
  have htokens' := (inputs_of_parse hr').1
  exact Tree.shape_eq_of_dump_eq (htokens ▸ hleaves) (htokens' ▸ leaves_of_parse hr') hdump

/-- `a + bc * 2`. -/
def sumOfProduct : TokenStream :=
  .terminated [⟨.identifier, "a", 1, 1, 0⟩, ⟨.punctuator, "+", 1, 3, 2⟩, ⟨.identifier, "bc", 1, 5, 4⟩,
    ⟨.punctuator, "*", 1, 8, 7⟩, ⟨.number, "2", 1, 10, 9⟩] ⟨.eof, "", 1, 11, 10⟩

/-- `this`. -/
def thisAlone : TokenStream :=
  .terminated [⟨.keyword, "this", 1, 1, 0⟩] ⟨.eof, "", 1, 5, 4⟩

/-- So do those of a sum, and those of `this`, where all rules give way to the token and the concrete tree
has a node of the root rule again. -/
theorem parse_sumOfProduct_views :
    ∃ g, standard? .standard [] = .ok g ∧
      (∃ r, g.parse sumOfProduct .expression none = .ok r ∧
        r.tree.Viewed r.tokens r.rootRule (Layout.ofTree r.tree) ∧
        (ConcreteTree.ofTree r.tokens r.rootRule r.tree).visit =
          [(.rule .expression, 0, 6), (.rule .additiveExpression, 0, 6), (.rule .idExpression, 0, 1),
            (.rule .unqualifiedId, 0, 1), (.token .identifier "a", 0, 1),
            (.token .punctuator "+", 1, 2), (.rule .multiplicativeExpression, 2, 6),
            (.rule .idExpression, 2, 4), (.rule .unqualifiedId, 2, 4),
            (.token .identifier "bc", 2, 4), (.token .punctuator "*", 4, 5), (.rule .literal, 5, 6),
            (.token .number "2", 5, 6)]) ∧
      ∃ r, g.parse thisAlone .conditionalExpression none = .ok r ∧
        r.tree.Viewed r.tokens r.rootRule (Layout.ofTree r.tree) ∧
        (ConcreteTree.ofTree r.tokens r.rootRule r.tree).visit =
          [(.rule .conditionalExpression, 0, 4), (.token .keyword "this", 0, 4)] := by
  have hsum : (Dialect.standard.forecast sumOfProduct .expression).map (·.map fun t =>
      (ConcreteTree.ofTree sumOfProduct .expression t).visit) = some (some
        [(.rule .expression, 0, 6), (.rule .additiveExpression, 0, 6), (.rule .idExpression, 0, 1),
          (.rule .unqualifiedId, 0, 1), (.token .identifier "a", 0, 1),
          (.token .punctuator "+", 1, 2), (.rule .multiplicativeExpression, 2, 6),
          (.rule .idExpression, 2, 4), (.rule .unqualifiedId, 2, 4),
          (.token .identifier "bc", 2, 4), (.token .punctuator "*", 4, 5), (.rule .literal, 5, 6),
          (.token .number "2", 5, 6)]) := by decide +kernel
  have hthis : (Dialect.standard.forecast thisAlone .conditionalExpression).map (·.map fun t =>
      (ConcreteTree.ofTree thisAlone .conditionalExpression t).visit) =
        some (some [(.rule .conditionalExpression, 0, 4), (.token .keyword "this", 0, 4)]) := by
    decide +kernel
  obtain ⟨r, hr, hvisit⟩ := Dialect.parse_of_forecast_map hsum
  obtain ⟨r', hr', hvisit'⟩ := Dialect.parse_of_forecast_map hthis
  obtain ⟨htokens, hroot, hviewed, -⟩ := parse_views hr
  obtain ⟨htokens', hroot', hviewed', -⟩ := parse_views hr'
  exact ⟨_, standard?_eq _ _, ⟨r, hr, hviewed, by rw [htokens, hroot, hvisit]⟩, r', hr', hviewed',
    by rw [htokens', hroot', hvisit']⟩

end Grammar

end PackratCpp
