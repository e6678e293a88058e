import Mathlib
import Lamina.Network.Order
import Lamina.Proofs.Search

/-!
# Ordering nodes: success exactly without cycles

A node *feeds* another if it is the last one to declare a value that the other reads
(`NodeOrder.Feeds`). The order of nodes is read off a depth-first search along this relation.

**Theorem** (`topological_spec`): the order exists iff no node feeds itself through others. It lists
every position once, each node after those that feed it. Otherwise the fault names a node on a
cycle.

The finish order of the search is the only thing the proof knows about it (`sorted_spec`): an edge
against that order closes a cycle, and `misplaced?` reports a source of such an edge.
-/

namespace Lamina.NodeOrder

open Relation Search

/-- The last node to declare a value is at a position. The empty name declares none. -/
def LastDeclares (nodes : List Node) (name : String) (p : Nat) : Prop :=
  name ≠ "" ∧ (∃ n, nodes[p]? = some n ∧ name ∈ n.outputs) ∧
    ∀ q n, p < q → nodes[q]? = some n → name ∉ n.outputs

/-- One node feeds another: it is the last to declare one of the values that the other reads. -/
def Feeds (nodes : List Node) (p j : Nat) : Prop :=
  ∃ n name, nodes[j]? = some n ∧ name ∈ n.inputs ∧ LastDeclares nodes name p

/-- A node lies on a cycle if it feeds itself, directly or through others. -/
def OnCycle (nodes : List Node) (p : Nat) : Prop := TransGen (Feeds nodes) p p

/-! ### The sources and readers of a node -/

theorem producer?_concat (nodes : List Node) (n : Node) (name : String) :
    producer? (nodes ++ [n]) name =
      if name ≠ "" ∧ name ∈ n.outputs then some nodes.length else producer? nodes name := by
  have hrev : (nodes ++ [n]).zipIdx.reverse = (n, nodes.length) :: nodes.zipIdx.reverse := by
    simp [List.zipIdx_append]
  simp only [producer?, List.findRev?_eq_find?_reverse, hrev, List.find?_cons]
  by_cases h : name ≠ "" ∧ name ∈ n.outputs
  · simp [h.1, h.2]
  · have hb : (decide (name ≠ "") && n.outputs.contains name) = false := by
      simpa [not_and] using h
    rw [if_neg h, hb]

theorem lastDeclares_concat (nodes : List Node) (n : Node) (name : String) (p : Nat) :
    LastDeclares (nodes ++ [n]) name p ↔
      if name ≠ "" ∧ name ∈ n.outputs then p = nodes.length else LastDeclares nodes name p := by
  unfold LastDeclares
  have hnew : (nodes ++ [n])[nodes.length]? = some n := by simp
  have hold : ∀ q, q < nodes.length → (nodes ++ [n])[q]? = nodes[q]? := fun q hq =>
    List.getElem?_append_left hq
  have hbound : ∀ q m, (nodes ++ [n])[q]? = some m →
      q < nodes.length ∨ q = nodes.length ∧ m = n := by
    intro q m hq
    have hlt := (List.getElem?_eq_some_iff.1 hq).1
    grind
  split_ifs with h
  · grind
  · grind

/-- The producer that is looked up is the last one to declare the value. -/
theorem producer?_eq_some {nodes : List Node} {name : String} {p : Nat} :
    producer? nodes name = some p ↔ LastDeclares nodes name p := by
  induction nodes using List.reverseRecOn with
  | nil => simp [producer?, LastDeclares]
  | append_singleton nodes n ih =>
    rw [producer?_concat, lastDeclares_concat]
    split_ifs with h
    · exact ⟨fun h => (Option.some.inj h).symm, fun h => h ▸ rfl⟩
    · exact ih

theorem mem_foldl_dedup {l found : List Nat} {p : Nat} :
    p ∈ l.foldl (fun found p => if found.contains p then found else found ++ [p]) found ↔
      p ∈ found ∨ p ∈ l := by
  induction l generalizing found with
  | nil => simp
  | cons a l ih =>
    rw [List.foldl_cons, ih]
    split
    · rename_i h
      have ha : a ∈ found := by simpa using h
      simp only [List.mem_cons]
      constructor
      · exact fun h => h.imp_right .inr
      · rintro (h | rfl | h)
        exacts [.inl h, .inl ha, .inr h]
    · simp only [List.mem_append, List.mem_cons, List.not_mem_nil, or_false, or_assoc]

theorem mem_sources {nodes : List Node} {p j : Nat} : p ∈ sources nodes j ↔ Feeds nodes p j := by
  unfold sources Feeds
  cases hj : nodes[j]? with
  | none => simp
  | some n =>
    simp only [mem_foldl_dedup, List.not_mem_nil, false_or, List.mem_filterMap, producer?_eq_some]
    constructor
    · rintro ⟨name, hname, h⟩
      exact ⟨n, name, rfl, hname, h⟩
    · rintro ⟨m, name, hm, hname, h⟩
      obtain rfl := Option.some.inj hm
      exact ⟨name, hname, h⟩

theorem Feeds.lt_length {nodes : List Node} {p j : Nat} (h : Feeds nodes p j) :
    p < nodes.length ∧ j < nodes.length := by
  obtain ⟨n, name, hj, -, -, ⟨m, hp, -⟩, -⟩ := h
  exact ⟨(List.getElem?_eq_some_iff.1 hp).1, (List.getElem?_eq_some_iff.1 hj).1⟩

theorem mem_readers {nodes : List Node} {p j : Nat} : j ∈ readers nodes p ↔ Feeds nodes p j := by
  simp only [readers, List.mem_filter, List.mem_range, List.contains_iff_mem, mem_sources]
  exact ⟨And.right, fun h => ⟨h.lt_length.2, h⟩⟩

/-- The edges of the search are the relation between nodes. -/
theorem edge_readers (nodes : List Node) : Edge (readers nodes) = Feeds nodes := by
  funext p j
  exact propext mem_readers

/-! ### The check on the finish order -/

/-- The node that is reported feeds a node of the order and comes neither before it nor among those
already passed. -/
theorem misplaced?_eq_some {feeders : Nat → List Nat} {earlier order : List Nat} {j : Nat}
    (h : misplaced? feeders earlier order = some j) :
    ∃ front i back, order = front ++ i :: back ∧ j ∈ feeders i ∧ j ∉ earlier ∧
      j ∉ front ++ [i] := by
  induction order generalizing earlier with
  | nil => simp [misplaced?] at h
  | cons i rest ih =>
    rw [misplaced?] at h
    split at h
    · rename_i k hk
      obtain rfl := Option.some.inj h
      obtain ⟨hfeeds, hout⟩ := mem_without.1 (List.mem_of_getLast? hk)
      simp only [List.mem_cons, not_or] at hout
      exact ⟨[], i, rest, rfl, hfeeds, hout.2, by simpa using hout.1⟩
    · obtain ⟨front, i', back, rfl, hfeeds, hearlier, hfront⟩ := ih h
      simp only [List.mem_cons, not_or] at hearlier
      refine ⟨i :: front, i', back, rfl, hfeeds, hearlier.2, ?_⟩
      rw [List.cons_append, List.mem_cons, not_or]
      exact ⟨hearlier.1, hfront⟩

/-- If no node is reported, each node of the order comes after its feeders. -/
theorem misplaced?_eq_none {feeders : Nat → List Nat} {earlier front back : List Nat} {i j : Nat}
    (h : misplaced? feeders earlier (front ++ i :: back) = none) (hj : j ∈ feeders i) :
    j = i ∨ j ∈ earlier ∨ j ∈ front := by
  induction front generalizing earlier with
  | nil =>
    rw [List.nil_append, misplaced?] at h
    split at h
    · simp at h
    · rename_i hlast
      by_contra hout
      simp only [List.not_mem_nil, or_false, not_or] at hout
      have hmem : j ∈ without (feeders i) (i :: earlier) :=
        mem_without.2 ⟨hj, by simpa using hout⟩
      rw [List.getLast?_eq_none_iff] at hlast
      exact absurd (hlast ▸ hmem) List.not_mem_nil
  | cons x front ih =>
    rw [List.cons_append, misplaced?] at h
    split at h
    · simp at h
    · rcases ih h with hj' | hj' | hj'
      · exact .inl hj'
      · rcases List.mem_cons.1 hj' with rfl | hj'
        · exact .inr (.inr List.mem_cons_self)
        · exact .inr (.inl hj')
      · exact .inr (.inr (List.mem_cons_of_mem x hj'))

/-! ### The order of the nodes -/

/-- What the sorted positions are, and what a reported position is. -/
theorem sorted_spec (nodes : List Node) :
    match sorted nodes with
    | .ok order => order.Perm (List.range nodes.length) ∧
        ∀ p j, Feeds nodes p j → Before order p j
    | .error p => p < nodes.length ∧ OnCycle nodes p := by
  have closed : ∀ u ∈ List.range nodes.length, ∀ v ∈ readers nodes u,
      v ∈ List.range nodes.length := fun u _ v hv =>
    List.mem_range.2 (mem_readers.1 hv).lt_length.2
  have h := postorder_spec List.nodup_range closed
  cases hpost : postorder (readers nodes) (List.range nodes.length) []
      (List.range nodes.length) with
  | error v =>
    have hsorted : sorted nodes = .error v := by simp [sorted, hpost, bind, Except.bind]
    simp only [hpost, List.mem_range, mem_readers] at h
    rw [hsorted]
    exact ⟨h.1, TransGen.single h.2⟩
  | ok result =>
    obtain ⟨unseen, left⟩ := result
    simp only [hpost, List.mem_range, mem_readers, edge_readers] at h
    obtain ⟨hperm, hloop, hedges⟩ := h
    have hmem : ∀ v, v ∈ left ↔ v < nodes.length := fun v => by
      rw [hperm.mem_iff, List.mem_range]
    cases hmis : misplaced? (sources nodes) [] left.reverse with
    | some j =>
      -- `j` feeds `i` but is finished first, so the search came to `j` from `i`
      have hsorted : sorted nodes = .error j := by simp [sorted, hpost, hmis, bind, Except.bind]
      rw [hsorted]
      obtain ⟨front, i, back, horder, hfeeds, -, hfront⟩ := misplaced?_eq_some hmis
      rw [mem_sources] at hfeeds
      have hj : j ∈ back := by
        have hj : j ∈ left.reverse := List.mem_reverse.2 ((hmem j).2 hfeeds.lt_length.1)
        simp only [horder, List.mem_append, List.mem_cons, List.not_mem_nil, or_false,
          not_or] at hj hfront
        tauto
      have hlate : Before left j i :=
        before_reverse.1 (horder ▸ before_of_mem_right hj)
      have hnodup : left.Nodup := hperm.nodup_iff.2 List.nodup_range
      refine ⟨hfeeds.lt_length.1, ?_⟩
      rcases hedges j hfeeds.lt_length.1 i hfeeds with hearly | hreach
      · exact absurd (hearly.idxOf_lt hnodup) (hlate.idxOf_lt hnodup).asymm
      · exact TransGen.head' hfeeds hreach
    | none =>
      have hsorted : sorted nodes = .ok left.reverse := by
        simp [sorted, hpost, hmis, bind, Except.bind, pure, Except.pure]
      rw [hsorted]
      refine ⟨(List.reverse_perm left).trans hperm, fun p j hfeeds => ?_⟩
      have hj : j ∈ left.reverse := List.mem_reverse.2 ((hmem j).2 hfeeds.lt_length.2)
      obtain ⟨front, back, horder⟩ := List.append_of_mem hj
      rw [horder] at hmis ⊢
      rcases misplaced?_eq_none hmis (mem_sources.2 hfeeds) with rfl | hp | hp
      · exact absurd hfeeds (hloop p hfeeds.lt_length.1)
      · exact absurd hp List.not_mem_nil
      · exact before_of_mem_left hp

/-- An order in which every node comes after its feeders leaves no room for a cycle. -/
theorem not_onCycle_of_before {nodes : List Node} {order : List Nat} (hnodup : order.Nodup)
    (h : ∀ p j, Feeds nodes p j → Before order p j) (p : Nat) : ¬ OnCycle nodes p := by
  intro hcycle
  have hlt : TransGen (· < ·) (order.idxOf p) (order.idxOf p) :=
    hcycle.lift order.idxOf fun a b hab => (h a b hab).idxOf_lt hnodup
  rw [transGen_eq_self] at hlt
  exact lt_irrefl _ hlt

/-- **The order of the nodes exists iff no node feeds itself through others.** It lists every
position once and each node after those that feed it; otherwise the fault is one of the description
and names a node on a cycle. -/
theorem topological_spec (nodes : List Node) :
    ((∃ order, topological nodes = .ok order) ↔ ∀ p, ¬ OnCycle nodes p) ∧
    match topological nodes with
    | .ok order => order.Perm (List.range nodes.length) ∧
        ∀ p j, Feeds nodes p j → Before order p j
    | .error f => f.kind = .malformed ∧ f.cause = .network .cycle ∧
        ∃ p n, nodes[p]? = some n ∧ f.site = n.site ∧ OnCycle nodes p := by
  have h := sorted_spec nodes
  unfold topological
  cases hsorted : sorted nodes with
  | ok order =>
    rw [hsorted] at h
    have hnodup : order.Nodup := h.1.nodup_iff.2 List.nodup_range
    exact ⟨⟨fun _ => not_onCycle_of_before hnodup h.2, fun _ => ⟨order, rfl⟩⟩, h⟩
  | error p =>
    rw [hsorted] at h
    obtain ⟨hp, hcycle⟩ := h
    have hn : nodes[p]? = some nodes[p] := List.getElem?_eq_getElem hp
    refine ⟨⟨?_, fun hnone => absurd hcycle (hnone p)⟩, rfl, rfl, p, nodes[p], hn, ?_, hcycle⟩
    · rintro ⟨order, horder⟩
      simp [Site.fail] at horder
    · simp [hn]

end Lamina.NodeOrder
