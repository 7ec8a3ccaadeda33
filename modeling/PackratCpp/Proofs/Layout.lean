/-
  What a layout holds.

  * `Tree.records`, `Tree.childSlots`: the nodes of a tree in preorder, and the children of all of them,
    the children of a node before those inside them.  `Layout.place_eq`: this is what laying out a
    tree adds to the arrays.
  * `Layout.Shows l n t`: the layout `l` holds the tree `t` with its nodes numbered from `n` on.
    `Layout.shows_ofTree`: so does that of a tree, from zero on.
  * `Tree.walk`: the elements of a tree in preorder.  `Layout.descendants_ofTree`: they are what the
    walk with a stack meets, each node once, in the order of the numbers.
  * `Layout.exists_shown`: every node of a layout stands for a tree inside the one laid out.
-/
import Mathlib.Data.List.Basic
import PackratCpp.Tree.Layout

namespace PackratCpp

/-- The number of a node. -/
def Element.id? : Element → Option Nat
  | .node id => some id
  | .token _ => none

/-- The index of a token. -/
def Element.token? : Element → Option Nat
  | .node _ => none
  | .token i => some i

/-! ## A tree as it is laid out -/

namespace Tree

/-- What stands for a tree whose nodes are numbered from `n` on. -/
def element (n : Nat) : Tree → Element
  | .leaf i => .token i
  | .node .. => .node n

/-- What stands for some trees, one after the other. -/
def elements (n : Nat) : List Tree → List Element
  | [] => []
  | t :: ts => t.element n :: elements (n + t.size) ts

mutual

/-- Number of trees inside a tree. -/
def inner : Tree → Nat
  | .leaf _ => 0
  | .node _ _ _ cs => cs.length + innerAll cs

/-- Number of trees inside some trees. -/
def innerAll : List Tree → Nat
  | [] => 0
  | t :: ts => inner t + innerAll ts

end

mutual

/-- The nodes in preorder.  Children take the slots from `m` on. -/
def records (m : Nat) : Tree → List NodeRecord
  | .leaf _ => []
  | .node r s e cs => ⟨r, s, e, m, cs.length⟩ :: recordsAll (m + cs.length) cs

/-- The nodes of some trees. -/
def recordsAll (m : Nat) : List Tree → List NodeRecord
  | [] => []
  | t :: ts => records m t ++ recordsAll (m + t.inner) ts

end

mutual

/-- The children of all nodes, which are numbered from `n` on. -/
def childSlots (n : Nat) : Tree → List Element
  | .leaf _ => []
  | .node _ _ _ cs => elements (n + 1) cs ++ childSlotsAll (n + 1) cs

/-- The children of all nodes of some trees. -/
def childSlotsAll (n : Nat) : List Tree → List Element
  | [] => []
  | t :: ts => childSlots n t ++ childSlotsAll (n + t.size) ts

end

mutual

/-- A tree and all the trees inside it in preorder, as elements. -/
def walk (n : Nat) : Tree → List Element
  | .leaf i => [.token i]
  | .node _ _ _ cs => .node n :: walkAll (n + 1) cs

/-- Some trees and all the trees inside them. -/
def walkAll (n : Nat) : List Tree → List Element
  | [] => []
  | t :: ts => walk n t ++ walkAll (n + t.size) ts

end

theorem length_elements (n : Nat) (ts : List Tree) : (elements n ts).length = ts.length := by
  induction ts generalizing n with
  | nil => rfl
  | cons t ts ih => rw [elements, List.length_cons, List.length_cons, ih]

mutual

theorem length_records (m : Nat) : ∀ t : Tree, (records m t).length = t.size
  | .leaf _ => rfl
  | .node _ _ _ cs => by rw [records, List.length_cons, length_recordsAll, size]

theorem length_recordsAll (m : Nat) : ∀ ts : List Tree, (recordsAll m ts).length = sizeAll ts
  | [] => rfl
  | t :: ts => by rw [recordsAll, List.length_append, length_records, length_recordsAll, sizeAll]

end

mutual

theorem length_childSlots (n : Nat) : ∀ t : Tree, (childSlots n t).length = t.inner
  | .leaf _ => rfl
  | .node _ _ _ cs => by
    rw [childSlots, List.length_append, length_elements, length_childSlotsAll, inner]

theorem length_childSlotsAll (n : Nat) : ∀ ts : List Tree, (childSlotsAll n ts).length = innerAll ts
  | [] => rfl
  | t :: ts => by rw [childSlotsAll, List.length_append, length_childSlots, length_childSlotsAll, innerAll]

end

mutual

theorem length_walk (n : Nat) : ∀ t : Tree, (walk n t).length = t.inner + 1
  | .leaf _ => rfl
  | .node _ _ _ cs => by
    rw [walk, List.length_cons, length_walkAll, inner]

theorem length_walkAll (n : Nat) : ∀ ts : List Tree,
    (walkAll n ts).length = ts.length + innerAll ts
  | [] => rfl
  | t :: ts => by
    rw [walkAll, List.length_append, length_walk, length_walkAll, innerAll, List.length_cons]
    omega

end

mutual

theorem walk_ids (n : Nat) : ∀ t : Tree, (walk n t).filterMap Element.id? = List.range' n t.size
  | .leaf _ => rfl
  | .node _ _ _ cs => by
    simp only [walk, List.filterMap_cons, Element.id?, walkAll_ids, size, List.range'_succ]

theorem walkAll_ids (n : Nat) : ∀ ts : List Tree,
    (walkAll n ts).filterMap Element.id? = List.range' n (sizeAll ts)
  | [] => rfl
  | t :: ts => by
    rw [walkAll, List.filterMap_append, walk_ids, walkAll_ids, sizeAll, List.range'_append_1]

end

mutual

theorem walk_tokens (n : Nat) : ∀ t : Tree, (walk n t).filterMap Element.token? = t.leaves
  | .leaf _ => rfl
  | .node _ _ _ cs => by
    simp only [walk, List.filterMap_cons, Element.token?, walkAll_tokens, leaves]

theorem walkAll_tokens (n : Nat) : ∀ ts : List Tree,
    (walkAll n ts).filterMap Element.token? = leavesAll ts
  | [] => rfl
  | t :: ts => by rw [walkAll, List.filterMap_append, walk_tokens, walkAll_tokens, leavesAll]

end

theorem nodup_of_ids_of_tokens {es : List Element} (hids : (es.filterMap Element.id?).Nodup)
    (htokens : (es.filterMap Element.token?).Nodup) : es.Nodup := by
  induction es with
  | nil => exact List.nodup_nil
  | cons e es ih =>
    cases e with
    | node id =>
      simp only [List.filterMap_cons, Element.id?, Element.token?, List.nodup_cons] at hids htokens
      exact List.nodup_cons.2
        ⟨fun h => hids.1 (List.mem_filterMap.2 ⟨_, h, rfl⟩), ih hids.2 htokens⟩
    | token i =>
      simp only [List.filterMap_cons, Element.id?, Element.token?, List.nodup_cons] at hids htokens
      exact List.nodup_cons.2
        ⟨fun h => htokens.1 (List.mem_filterMap.2 ⟨_, h, rfl⟩), ih hids htokens.2⟩

theorem nodup_walk (n : Nat) {t : Tree} (h : t.leaves.Nodup) : (walk n t).Nodup :=
  nodup_of_ids_of_tokens (by rw [walk_ids]; exact List.nodup_range') (by rwa [walk_tokens])

end Tree

namespace Layout

open PackratCpp.Tree

/-! ## Laying out -/

mutual

/-- **Laying out a tree** adds its nodes to the one array and their children to the other. -/
theorem place_eq (a : Arena) : ∀ t : Tree, place a t = (t.element a.nodes.size,
    ⟨a.nodes ++ (t.records a.slots.size).toArray, a.slots ++ (t.childSlots a.nodes.size).toArray⟩)
  | .leaf i => by simp only [place, element, records, childSlots, Array.append_empty]
  | .node r s e cs => by
    have hcs := placeAll_eq
      ⟨a.nodes.push ⟨r, s, e, a.slots.size, cs.length⟩,
        a.slots ++ Array.replicate cs.length (.token 0)⟩
      cs a.slots.toList [] (by simp)
    have hlen : a.slots.toList.length = a.slots.size := Array.length_toList
    rw [hlen] at hcs
    simp only [place, element, records, childSlots, hcs, Prod.mk.injEq, true_and, Arena.mk.injEq]
    constructor <;> apply Array.toList_inj.1 <;> simp

/-- The slots of a row of children are there already, between `before` and `behind`, and are filled
in as the children are laid out. -/
theorem placeAll_eq (a : Arena) : ∀ (ts : List Tree) (before behind : List Element),
    a.slots.toList = before ++ List.replicate ts.length (.token 0) ++ behind →
    placeAll a before.length ts =
      ⟨a.nodes ++ (recordsAll a.slots.size ts).toArray,
        (before ++ elements a.nodes.size ts ++ behind ++ childSlotsAll a.nodes.size ts).toArray⟩
  | [], before, behind, h => by
    have hslots : a.slots = (before ++ behind).toArray := Array.toList_inj.1 (by simpa using h)
    simp [placeAll, recordsAll, elements, childSlotsAll, ← hslots]
  | t :: ts, before, behind, h => by
    have hsize : a.slots.size = before.length + (ts.length + 1) + behind.length := by
      rw [← Array.length_toList, h]
      simp [Nat.add_assoc]
    have hset : ((a.slots ++ (t.childSlots a.nodes.size).toArray).setIfInBounds before.length
          (t.element a.nodes.size)).toList =
        before ++ [t.element a.nodes.size] ++ List.replicate ts.length (.token 0) ++
          (behind ++ t.childSlots a.nodes.size) := by
      simp [h, List.replicate_succ]
    have hts := placeAll_eq
      ⟨a.nodes ++ (t.records a.slots.size).toArray,
        (a.slots ++ (t.childSlots a.nodes.size).toArray).setIfInBounds before.length
          (t.element a.nodes.size)⟩
      ts (before ++ [t.element a.nodes.size]) (behind ++ t.childSlots a.nodes.size) hset
    rw [List.length_append, List.length_singleton] at hts
    simp only [placeAll, place_eq a t, hts]
    simp [recordsAll, elements, childSlotsAll, length_records, length_childSlots]

end

/-! ## What a layout holds -/

mutual

/-- The layout holds a tree with its nodes numbered from `n` on. -/
def Shows (l : Layout) (n : Nat) : Tree → Prop
  | .leaf _ => True
  | .node r s e cs => (∃ first, l.nodes[n]? = some ⟨r, s, e, first, cs.length⟩) ∧
      l.children (.node n) = elements (n + 1) cs ∧ ShowsAll l (n + 1) cs

/-- The layout holds some trees, one after the other. -/
def ShowsAll (l : Layout) (n : Nat) : List Tree → Prop
  | [] => True
  | t :: ts => Shows l n t ∧ ShowsAll l (n + t.size) ts

end

variable {l : Layout} {n : Nat}

mutual

theorem shows_of_arrays : ∀ (t : Tree) {n m : Nat} {ns ns' : List NodeRecord}
    {es es' : List Element}, ns.length = n → es.length = m →
    l.nodes.toList = ns ++ (t.records m ++ ns') → l.slots.toList = es ++ (t.childSlots n ++ es') →
    l.Shows n t
  | .leaf _, _, _, _, _, _, _, _, _, _, _ => trivial
  | .node r s e cs, n, m, ns, ns', es, es', hn, hm, hnodes, hslots => by
    have hnode : l.nodes[n]? = some ⟨r, s, e, m, cs.length⟩ := by
      rw [← Array.getElem?_toList, hnodes, ← hn]
      simp [records]
    have hchildren : l.children (.node n) = elements (n + 1) cs := by
      simp only [children, hnode, Array.toList_extract, hslots, childSlots, ← hm,
        List.extract_eq_take_drop, List.append_assoc, List.drop_left]
      rw [Nat.add_sub_cancel_left, ← length_elements (n + 1) cs, List.take_left]
    have hnodes' : l.nodes.toList =
        (ns ++ [⟨r, s, e, m, cs.length⟩]) ++ (recordsAll (m + cs.length) cs ++ ns') := by
      simpa [records] using hnodes
    have hslots' : l.slots.toList =
        (es ++ elements (n + 1) cs) ++ (childSlotsAll (n + 1) cs ++ es') := by
      simpa [childSlots] using hslots
    exact ⟨⟨m, hnode⟩, hchildren, showsAll_of_arrays cs (by simp [hn])
      (by simp [hm, length_elements]) hnodes' hslots'⟩

theorem showsAll_of_arrays : ∀ (ts : List Tree) {n m : Nat} {ns ns' : List NodeRecord}
    {es es' : List Element}, ns.length = n → es.length = m →
    l.nodes.toList = ns ++ (recordsAll m ts ++ ns') →
    l.slots.toList = es ++ (childSlotsAll n ts ++ es') → l.ShowsAll n ts
  | [], _, _, _, _, _, _, _, _, _, _ => trivial
  | t :: ts, n, m, ns, ns', es, es', hn, hm, hnodes, hslots => by
    rw [recordsAll, List.append_assoc] at hnodes
    rw [childSlotsAll, List.append_assoc] at hslots
    refine ⟨shows_of_arrays t hn hm hnodes hslots, ?_⟩
    rw [← List.append_assoc] at hnodes hslots
    exact showsAll_of_arrays ts (by simp [hn, length_records]) (by simp [hm, length_childSlots])
      hnodes hslots

end

/-- **Laying out a tree** gives a layout that holds it, and nothing else. -/
theorem shows_ofTree (t : Tree) :
    (ofTree t).Shows 0 t ∧ (ofTree t).root = t.element 0 ∧ (ofTree t).nodes.size = t.size ∧
      (ofTree t).slots.size = t.inner := by
  have hplace := place_eq ⟨#[], #[]⟩ t
  have hof : ofTree t = ⟨(t.records 0).toArray, (t.childSlots 0).toArray, t.element 0⟩ := by
    simp [ofTree, hplace]
  rw [hof]
  refine ⟨?_, rfl, by simp [length_records], by simp [length_childSlots]⟩
  have hnodes : (t.records 0).toArray.toList = [] ++ (t.records 0 ++ []) := by simp
  have hslots : (t.childSlots 0).toArray.toList = [] ++ (t.childSlots 0 ++ []) := by simp
  exact shows_of_arrays t rfl rfl hnodes hslots

/-! ## Walking through a layout -/

mutual

theorem visit_element (k : Nat) (stack : List Element) : ∀ (t : Tree) (n : Nat), l.Shows n t →
    l.visit ((walk n t).length + k) (t.element n :: stack) = walk n t ++ l.visit k stack
  | .leaf i, n, _ => by
    rw [walk, List.length_singleton, Nat.add_comm, element, visit]
    rfl
  | .node r s e cs, n, h => by
    obtain ⟨-, hchildren, hcs⟩ := h
    rw [walk, List.length_cons, Nat.add_right_comm, element, visit, hchildren,
      visit_elements k stack cs (n + 1) hcs]
    rfl

theorem visit_elements (k : Nat) (stack : List Element) : ∀ (ts : List Tree) (n : Nat),
    l.ShowsAll n ts →
    l.visit ((walkAll n ts).length + k) (elements n ts ++ stack) = walkAll n ts ++ l.visit k stack
  | [], n, _ => by simp [walkAll, elements]
  | t :: ts, n, h => by
    rw [walkAll, List.length_append, Nat.add_assoc, elements, List.cons_append,
      visit_element _ _ t n h.1, visit_elements k stack ts _ h.2, List.append_assoc]

end

theorem visit_nil (l : Layout) (k : Nat) : l.visit k [] = [] := by
  cases k <;> rfl

/-- The elements below, and with, an element in preorder. -/
def below (l : Layout) (e : Element) : List Element :=
  l.visit (l.slots.size + 1) [e]

theorem below_eq {t : Tree} (h : l.Shows n t) (hsize : t.inner ≤ l.slots.size) :
    l.below (t.element n) = walk n t := by
  obtain ⟨k, hk⟩ := Nat.exists_eq_add_of_le (Nat.succ_le_succ hsize)
  have hvisit := visit_element k [] t n h
  rwa [length_walk, visit_nil, List.append_nil, ← Nat.succ_eq_add_one, ← hk] at hvisit

/-- **The walk through the layout of a tree** meets everything in it in preorder. -/
theorem descendants_ofTree (t : Tree) : (ofTree t).descendants = walk 0 t := by
  obtain ⟨hshows, hroot, -, hslots⟩ := shows_ofTree t
  rw [descendants, hroot]
  exact below_eq hshows (Nat.le_of_eq hslots.symm)

mutual

theorem exists_shown {e : Element} : ∀ (t : Tree) (n : Nat), l.Shows n t → e ∈ walk n t →
    ∃ u ∈ t.preorder, ∃ m, e = u.element m ∧ l.Shows m u ∧ u.inner ≤ t.inner
  | .leaf i, n, h, he => by
    rw [walk, List.mem_singleton] at he
    exact ⟨.leaf i, List.mem_singleton_self _, n, he, h, Nat.le_refl _⟩
  | .node r s stop cs, n, h, he => by
    rcases List.mem_cons.1 he with rfl | he
    · exact ⟨_, List.mem_cons_self .., n, rfl, h, Nat.le_refl _⟩
    · obtain ⟨u, hu, m, hm, hshows, hle⟩ := exists_shown_of_mem cs (n + 1) h.2.2 he
      exact ⟨u, List.mem_cons_of_mem _ hu, m, hm, hshows, Nat.le_trans hle (Nat.le_add_left ..)⟩

theorem exists_shown_of_mem {e : Element} : ∀ (ts : List Tree) (n : Nat), l.ShowsAll n ts →
    e ∈ walkAll n ts →
    ∃ u ∈ preorderAll ts, ∃ m, e = u.element m ∧ l.Shows m u ∧ u.inner ≤ innerAll ts
  | [], _, _, he => nomatch he
  | t :: ts, n, h, he => by
    rcases List.mem_append.1 he with he | he
    · obtain ⟨u, hu, m, hm, hshows, hle⟩ := exists_shown t n h.1 he
      exact ⟨u, List.mem_append_left _ hu, m, hm, hshows, Nat.le_trans hle (Nat.le_add_right ..)⟩
    · obtain ⟨u, hu, m, hm, hshows, hle⟩ := exists_shown_of_mem ts _ h.2 he
      exact ⟨u, List.mem_append_right _ hu, m, hm, hshows, Nat.le_trans hle (Nat.le_add_left ..)⟩

end

end Layout

end PackratCpp
