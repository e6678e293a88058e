import Mathlib
import Lamina.Proofs.Solutions

/-!
# The order in which nodes are declared does not matter

**Theorem** (`Model.reordered_spec`): take the nodes of a model in another order. If nodes are
brought into order on linking, then either both models have a network or none has. Inference
succeeds on both networks or on none, and then every value that has a name has the same shape and
the same constant in both.

Whether the names fit together does not depend on the order (`Model.Linkable.perm`): a cycle of
nodes is one wherever the nodes stand. In the network of a model every name belongs to one wire
(`Model.Linked.wire_unique`), so that names tell which vertices and wires of the two networks
correspond (`Model.Linked.exists_alike`). Along this correspondence a solution of one network is
turned into one of the other (`Model.Linked.solves_perm`), and there is nothing to say about the
orders in which the two are visited.
-/

namespace Lamina

open Relation

/-! ### One wire per name -/

/-- The names that a vertex declares. -/
def Vertex.declared (v : Vertex) : List String :=
  v.outputs.filter fun name => v.kind.operator?.isSome → name ≠ ""

variable {vertices : List Vertex} {w w' : Wire} {name : String}

/-- If no name is declared twice, the wire of a name is the only one. -/
theorem Declares.unique (hnodup : (vertices.flatMap Vertex.declared).Nodup)
    (h : Declares vertices w name) (h' : Declares vertices w' name) : w = w' := by
  obtain ⟨u, hu, hname, hnonempty⟩ := h
  obtain ⟨u', hu', hname', hnonempty'⟩ := h'
  have hmem : name ∈ u.declared :=
    List.mem_filter.2 ⟨List.mem_of_getElem? hname, decide_eq_true hnonempty⟩
  have hmem' : name ∈ u'.declared :=
    List.mem_filter.2 ⟨List.mem_of_getElem? hname', decide_eq_true hnonempty'⟩
  have hnode : w.node = w'.node := index_unique_of_nodup hnodup hu hu' hmem hmem'
  obtain rfl : u = u' := by
    rw [hnode, hu'] at hu
    exact (Option.some.inj hu).symm
  have houtput : w.output = w'.output := by
    have heach := (List.nodup_flatMap.1 hnodup).1 u (List.mem_of_getElem? hu)
    have hpairs := List.pairwise_filter.1 heach
    refine index_unique (S := fun a b => a = b ∧ (u.kind.operator?.isSome → a ≠ "")) ?_ ?_ hname
      hname' ⟨rfl, hnonempty⟩
    · rintro a b ⟨rfl, ha⟩
      exact ⟨rfl, ha⟩
    · refine hpairs.imp ?_
      rintro a b hab ⟨rfl, ha⟩
      exact hab (decide_eq_true ha) (decide_eq_true ha) rfl
  cases w
  cases w'
  cases hnode
  cases houtput
  rfl

/-- Two wires of two networks carry the value of one name. -/
def SameName (vertices vertices' : List Vertex) (w w' : Wire) : Prop :=
  ∃ name, Declares vertices w name ∧ Declares vertices' w' name

namespace Model

variable {m : Model} {registry : Registry} {order order' : List Nat}

/-- Supplied inputs have names of their own. -/
theorem nodup_supplied (m : Model) : (m.supplied.map ModelInput.name).Nodup := by
  unfold supplied
  rw [List.map_map, List.Nodup, List.pairwise_map, List.pairwise_filter,
    List.pairwise_iff_getElem]
  intro i j hi hj hlt _ hfirst heq
  have hnew := (of_decide_eq_true hfirst).2
  simp only [Function.comp_apply, List.getElem_zipIdx, Nat.zero_add] at hnew heq
  apply hnew
  rw [← heq]
  refine List.mem_map_of_mem (List.mem_take_iff_getElem.2 ⟨i, ?_, rfl⟩)
  simp only [List.length_zipIdx] at hi hj
  omega

theorem mem_supplied {i : ModelInput} (hi : i ∈ m.supplied) :
    i ∈ m.inputs ∧ i.name ∉ m.constantNames := by
  obtain ⟨e, he, rfl⟩ := List.mem_map.1 hi
  obtain ⟨hmem, hnew⟩ := List.mem_filter.1 he
  exact ⟨List.fst_mem_of_mem_zipIdx hmem, (of_decide_eq_true hnew).1⟩

namespace Linked

/-- The names that the vertices of a model declare, in order. -/
theorem flatMap_declared (h : m.Linked registry order vertices) :
    vertices.flatMap Vertex.declared = m.constantNames ++ m.supplied.map ModelInput.name ++
      order.flatMap (Linking.declaredAt m.nodes) := by
  obtain ⟨nodes, outputs, hvertices, hnodes, houtputs⟩ := h
  have hconstants : (m.initializers.map m.constantVertex).flatMap Vertex.declared =
      m.constantNames := by
    rw [List.flatMap_map, constantNames, List.map_eq_flatMap]
    rfl
  have hinputs : (m.supplied.map m.inputVertex).flatMap Vertex.declared =
      m.supplied.map ModelInput.name := by
    rw [List.flatMap_map, List.map_eq_flatMap]
    rfl
  have hcomputed : nodes.flatMap Vertex.declared = order.flatMap (Linking.declaredAt m.nodes) := by
    have hmap : order.map (Linking.declaredAt m.nodes) =
        (nodes.zipIdx (m.initializers.length + m.supplied.length)).map
          fun e => e.1.declared := by
      rw [← List.forall₂_eq_eq_eq, List.forall₂_map_left_iff, List.forall₂_map_right_iff]
      refine hnodes.imp ?_
      rintro p ⟨v, i⟩ ⟨n, op, inputs, hn, -, hv, -⟩
      obtain rfl : v = _ := hv
      rw [Linking.declaredAt_of_some hn, Node.declared, Vertex.declared]
      simp [VertexKind.operator?]
    have hnames : nodes.map Vertex.declared =
        (nodes.zipIdx (m.initializers.length + m.supplied.length)).map
          fun e => e.1.declared := by
      conv_lhs => rw [← List.zipIdx_map_fst (m.initializers.length + m.supplied.length) nodes]
      rw [List.map_map]
      rfl
    rw [List.flatMap_def, List.flatMap_def, hnames, hmap]
  have hrest : outputs.flatMap Vertex.declared = [] := by
    rw [List.flatMap_eq_nil_iff]
    intro v hv
    rw [← List.zipIdx_map_fst (m.initializers.length + m.supplied.length + nodes.length)
      outputs] at hv
    obtain ⟨e, he, rfl⟩ := List.mem_map.1 hv
    obtain ⟨name, -, w, hv, -⟩ := forall₂_mem_left houtputs.flip he
    rw [hv]
    rfl
  rw [hvertices]
  simp only [List.flatMap_append, hconstants, hinputs, hcomputed, hrest, List.append_nil]

/-- **In the network of a model every name belongs to one wire.** -/
theorem wire_unique (h : m.Linked registry order vertices) {reorder : Bool}
    (hlinkable : m.Linkable reorder) (horder : order.Perm (List.range m.nodes.length))
    (hw : Declares vertices w name) (hw' : Declares vertices w' name) : w = w' := by
  refine Declares.unique ?_ hw hw'
  have hperm := flatMap_declaredAt_perm horder
  rw [h.flatMap_declared]
  refine List.Nodup.append (List.Nodup.append hlinkable.constants m.nodup_supplied ?_)
    (hperm.nodup_iff.2 hlinkable.computed) ?_
  · intro d hd hd'
    obtain ⟨i, hi, rfl⟩ := List.mem_map.1 hd'
    exact (mem_supplied hi).2 hd
  · intro d hd hd'
    apply hlinkable.fresh d (hperm.mem_iff.1 hd')
    rcases List.mem_append.1 hd with hd | hd
    · exact List.mem_append_left _ hd
    · obtain ⟨i, hi, rfl⟩ := List.mem_map.1 hd
      exact List.mem_append_right _ (List.mem_map_of_mem (mem_supplied hi).1)

end Linked

/-! ### Names fit together in any order -/

section Perm

variable {nodes : List Node} (hperm : m.nodes.Perm nodes)
include hperm

theorem computed_perm : m.computed.Perm { m with nodes }.computed := hperm.flatMap_right _

/-- Every node has a place in the other order. -/
theorem exists_place : ∃ place : Nat → Nat,
    ∀ p n, m.nodes[p]? = some n → nodes[place p]? = some n := by
  have hplace : ∀ p : Nat, ∃ q : Nat, ∀ n, m.nodes[p]? = some n → nodes[q]? = some n := by
    intro p
    cases hp : m.nodes[p]? with
    | none =>
      refine ⟨0, fun n hn => ?_⟩
      cases hn
    | some n =>
      obtain ⟨q, hq⟩ := List.mem_iff_getElem?.1 (hperm.subset (List.mem_of_getElem? hp))
      refine ⟨q, fun n' hn' => ?_⟩
      cases hn'
      exact hq
  choose place hplace using hplace
  exact ⟨place, hplace⟩

/-- A cycle of nodes is one wherever the nodes stand. -/
theorem transGen_produces {p : Nat} (h : TransGen m.Produces p p) :
    ∃ q, TransGen { m with nodes }.Produces q q := by
  obtain ⟨place, hplace⟩ := exists_place hperm
  refine ⟨place p, h.lift place ?_⟩
  rintro a b ⟨na, nb, name, ha, hb, hdecl, hname⟩
  exact ⟨na, nb, name, hplace a na ha, hplace b nb hb, hdecl, hname⟩

/-- **Whether names fit together does not depend on the order of the nodes.** -/
theorem Linkable.perm (h : m.Linkable true) : { m with nodes }.Linkable true where
  constants := h.constants
  computed := (computed_perm hperm).nodup_iff.1 h.computed
  fresh d hd := h.fresh d ((computed_perm hperm).mem_iff.2 hd)
  inputs n hn name hname hne :=
    (h.inputs n (hperm.mem_iff.2 hn) name hname hne).imp_right (computed_perm hperm).mem_iff.1
  outputs name hname := (h.outputs name hname).imp_right (computed_perm hperm).mem_iff.1
  order := by
    rw [if_pos rfl]
    intro p hp
    obtain ⟨q, hq⟩ := transGen_produces (m := { m with nodes }) hperm.symm hp
    exact h.order q hq

/-- **A model has a network iff it has one with its nodes in another order.** -/
theorem link_perm {net : Network} (hlink : m.link registry true = .ok net) :
    ∃ net', { m with nodes }.link registry true = .ok net' := by
  obtain ⟨hlinkable, order, horder, -, hlinked⟩ := (m.link_yields registry true).value hlink
  have hyields := { m with nodes }.link_yields registry true
  cases hlink' : { m with nodes }.link registry true with
  | ok net' => exact ⟨net', rfl⟩
  | error f =>
    exfalso
    rcases hyields.fault hlink' with ⟨n, hn, hfault⟩ | ⟨-, hbad⟩
    -- a node that cannot be read could not be read before
    · obtain ⟨p, hp⟩ := List.mem_iff_getElem?.1 (hperm.mem_iff.2 hn)
      have hlt : p < m.nodes.length := (List.getElem?_eq_some_iff.1 hp).1
      obtain ⟨i, v, -, n', op, inputs, hn', hop, -⟩ :=
        hlinked.exists_node (horder.mem_iff.2 (List.mem_range.2 hlt))
      rw [hp] at hn'
      cases hn'
      have hread : registry.create n m.opset = .error f := hfault
      rw [hop] at hread
      cases hread
    · exact hbad (hlinkable.perm hperm)

/-! ### Solutions in any order -/

/-- Every vertex of one network does the same as some vertex of the other. -/
theorem Linked.exists_alike {vertices' : List Vertex} {i' : Nat} {v' : Vertex}
    (h : m.Linked registry order vertices) (horder : order.Perm (List.range m.nodes.length))
    (h' : { m with nodes }.Linked registry order' vertices') (hv' : vertices'[i']? = some v') :
    ∃ (i : Nat) (v : Vertex),
      vertices[i]? = some v ∧ v.Alike (SameName vertices vertices') v' := by
  rcases h'.vertex_cases hv' with
    ⟨c, hc, rfl⟩ | ⟨c, hc, rfl⟩ | ⟨p', -, hnode⟩ | ⟨name, hname, houtput⟩
  -- constants and inputs stand in both and read nothing
  · obtain ⟨_, _, hvertices, -⟩ := h
    have hmem : m.constantVertex c ∈ vertices := by
      rw [hvertices]
      exact List.mem_append_left _ (List.mem_append_left _ (List.mem_append_left _
        (List.mem_map_of_mem hc)))
    obtain ⟨i, hi⟩ := List.mem_iff_getElem?.1 hmem
    exact ⟨i, _, hi, rfl, rfl, rfl, .nil⟩
  · obtain ⟨_, _, hvertices, -⟩ := h
    have hmem : m.inputVertex c ∈ vertices := by
      rw [hvertices]
      exact List.mem_append_left _ (List.mem_append_left _ (List.mem_append_right _
        (List.mem_map_of_mem hc)))
    obtain ⟨i, hi⟩ := List.mem_iff_getElem?.1 hmem
    exact ⟨i, _, hi, rfl, rfl, rfl, .nil⟩
  -- a node has been read the same way in both, and reads the same names
  · obtain ⟨n, op, inputs', hn, hop, hv', hreads'⟩ := hnode
    obtain rfl : v' = _ := hv'
    obtain ⟨p, hp⟩ := List.mem_iff_getElem?.1 (hperm.mem_iff.2 (List.mem_of_getElem? hn))
    have hlt : p < m.nodes.length := (List.getElem?_eq_some_iff.1 hp).1
    obtain ⟨i, v, hi, n', op', inputs, hn', hop', hv, hreads⟩ :=
      h.exists_node (horder.mem_iff.2 (List.mem_range.2 hlt))
    obtain rfl : v = _ := hv
    obtain rfl : n = n' := Option.some.inj (hp.symm.trans hn')
    obtain rfl : op = op' := Except.ok.inj (hop.symm.trans hop')
    refine ⟨i, _, hi, rfl, rfl, rfl, forall₂_comp ?_ hreads.flip hreads'⟩
    intro slot name slot' hslot hslot'
    cases slot with
    | none =>
      cases slot' with
      | none => exact .none
      | some w' => exact absurd hslot hslot'.1
    | some w =>
      cases slot' with
      | none => exact absurd hslot' hslot.1
      | some w' => exact .some ⟨name, hslot.2.2, hslot'.2.2⟩
  · obtain ⟨w', hv', -, hdeclares'⟩ := houtput
    obtain rfl : v' = _ := hv'
    obtain ⟨i, v, hi, w, hv, -, hdeclares⟩ := h.exists_output hname
    obtain rfl : v = _ := hv
    exact ⟨i, _, hi, rfl, rfl, rfl, .cons (.some ⟨name, hdeclares, hdeclares'⟩) .nil⟩

/-- **A solution of one network is one of the other**, with the same operand for every name. -/
theorem Linked.solves_perm {vertices' : List Vertex} {facts : Facts}
    (h : m.Linked registry order vertices) (horder : order.Perm (List.range m.nodes.length))
    (h' : { m with nodes }.Linked registry order' vertices') (hlinkable : m.Linkable true)
    (hsolves : facts.Solves vertices) :
    ∃ facts' : Facts, facts'.Solves vertices' ∧
      ∀ w w', SameName vertices vertices' w w' → facts'.find? w' = facts.find? w := by
  -- what is known about a vertex is what is known about the one that does the same
  have hvalues : ∀ i' : Nat, ∃ values : List Operand, ∀ v', vertices'[i']? = some v' →
      ∃ (i : Nat) (v : Vertex), vertices[i]? = some v ∧
        v.Alike (SameName vertices vertices') v' ∧ facts[i]? = some values := by
    intro i'
    cases hv' : vertices'[i']? with
    | none =>
      refine ⟨[], fun v' h => ?_⟩
      cases h
    | some v' =>
      obtain ⟨i, v, hv, halike⟩ := h.exists_alike hperm horder h' hv'
      obtain ⟨found, -, hfound⟩ := hsolves.vertex i v hv
      refine ⟨found.values, fun u hu => ?_⟩
      cases hu
      exact ⟨i, v, hv, halike, hfound⟩
  choose values hvalues using hvalues
  let facts' : Facts := ((List.range vertices'.length).map values).toArray
  have hfacts' : ∀ {i' : Nat} {v' : Vertex}, vertices'[i']? = some v' →
      facts'[i']? = some (values i') := by
    intro i' v' hv'
    have hlt := (List.getElem?_eq_some_iff.1 hv').1
    simp [facts', hlt]
  have hsame : ∀ w w', SameName vertices vertices' w w' → facts'.find? w' = facts.find? w := by
    rintro w w' ⟨name, hw, v', hv', hname, hnonempty⟩
    obtain ⟨i, v, hv, halike, hi⟩ := hvalues w'.node v' hv'
    have hdeclares : Declares vertices ⟨i, w'.output⟩ name := by
      refine ⟨v, hv, ?_, ?_⟩
      · rw [halike.outputs]
        exact hname
      · rw [halike.kind]
        exact hnonempty
    obtain rfl := h.wire_unique hlinkable horder hw hdeclares
    unfold Facts.find?
    rw [hfacts' hv', hi]
  refine ⟨facts', ⟨by simp [facts'], ?_⟩, hsame⟩
  intro i' v' hv'
  obtain ⟨i, v, hv, halike, hi⟩ := hvalues i' v' hv'
  obtain ⟨found, hfound, hi'⟩ := hsolves.vertex i v hv
  refine ⟨found, halike.infer ?_ hfound, ?_⟩
  · intro w w' hw op hop
    rw [hsame w w' hw, hop]
  · rw [hfacts' hv', ← hi, hi']

/-- If inference succeeds on one network, then it does on the other. -/
theorem infer_perm {net net' : Network} {r : Network × Facts}
    (hlink : m.link registry true = .ok net)
    (hlink' : { m with nodes }.link registry true = .ok net') (hinfer : net.infer = .ok r) :
    ∃ r', net'.infer = .ok r' ∧
      ∀ w w', SameName net.vertices.toList net'.vertices.toList w w' →
        r'.2.find? w' = r.2.find? w := by
  obtain ⟨hlinkable, order, horder, -, hlinked⟩ := (m.link_yields registry true).value hlink
  obtain ⟨-, order', -, -, hlinked'⟩ := ({ m with nodes }.link_yields registry true).value hlink'
  have hsolves : r.2.Solves net.vertices.toList :=
    (Network.infer_eq_ok_iff hlinked.ordered).1 ⟨r.1, hinfer⟩
  obtain ⟨facts', hsolves', hsame⟩ := hlinked.solves_perm hperm horder hlinked' hlinkable hsolves
  obtain ⟨marked', hinfer'⟩ := (Network.infer_eq_ok_iff hlinked'.ordered).2 hsolves'
  exact ⟨(marked', facts'), hinfer', hsame⟩

/-- The other network declares the same names. -/
theorem declares_perm {net net' : Network} (hlink : m.link registry true = .ok net)
    (hlink' : { m with nodes }.link registry true = .ok net') {w' : Wire} {name : String}
    (hw' : Declares net'.vertices.toList w' name) : ∃ w, Declares net.vertices.toList w name := by
  obtain ⟨-, order, horder, -, hlinked⟩ := (m.link_yields registry true).value hlink
  obtain ⟨-, order', -, -, hlinked'⟩ := ({ m with nodes }.link_yields registry true).value hlink'
  obtain ⟨v', hv', hname, hnonempty⟩ := hw'
  obtain ⟨i, v, hv, halike⟩ := hlinked.exists_alike hperm horder hlinked' hv'
  refine ⟨⟨i, w'.output⟩, v, hv, ?_, ?_⟩
  · rw [halike.outputs]
    exact hname
  · rw [halike.kind]
    exact hnonempty

end Perm

/-- **The order in which nodes are declared does not matter**, if they are brought into order on
linking. With the nodes in another order, a model has a network iff it has one now. The two networks
have values of the same names. Inference succeeds on one iff it does on the other, and then the
value of every name has the same shape and the same constant, or none, in both. -/
theorem reordered_spec (m : Model) (registry : Registry) (nodes : List Node)
    (hperm : m.nodes.Perm nodes) :
    ((∃ net, m.link registry true = .ok net) ↔
      ∃ net', { m with nodes }.link registry true = .ok net') ∧
    ∀ net net', m.link registry true = .ok net →
      { m with nodes }.link registry true = .ok net' →
      ((∃ r, net.infer = .ok r) ↔ ∃ r', net'.infer = .ok r') ∧
      (∀ name, (∃ w, Declares net.vertices.toList w name) ↔
        ∃ w', Declares net'.vertices.toList w' name) ∧
      ∀ r r', net.infer = .ok r → net'.infer = .ok r' →
        ∀ name w w', Declares net.vertices.toList w name → Declares net'.vertices.toList w' name →
          ∃ op, r.2.find? w = some op ∧ r'.2.find? w' = some op := by
  have hback : { m with nodes }.nodes.Perm m.nodes := hperm.symm
  refine ⟨⟨?_, ?_⟩, ?_⟩
  · rintro ⟨net, hlink⟩
    exact link_perm hperm hlink
  · rintro ⟨net', hlink'⟩
    exact link_perm (m := { m with nodes }) hback hlink'
  intro net net' hlink hlink'
  refine ⟨⟨?_, ?_⟩, ?_, ?_⟩
  · rintro ⟨r, hinfer⟩
    obtain ⟨r', hinfer', -⟩ := infer_perm hperm hlink hlink' hinfer
    exact ⟨r', hinfer'⟩
  · rintro ⟨r', hinfer'⟩
    obtain ⟨r, hinfer, -⟩ := infer_perm (m := { m with nodes }) hback hlink' hlink hinfer'
    exact ⟨r, hinfer⟩
  · intro name
    constructor
    · rintro ⟨w, hw⟩
      exact declares_perm (m := { m with nodes }) hback hlink' hlink hw
    · rintro ⟨w', hw'⟩
      exact declares_perm hperm hlink hlink' hw'
  · intro r r' hinfer hinfer' name w w' hw hw'
    obtain ⟨r'', hinfer'', hsame⟩ := infer_perm hperm hlink hlink' hinfer
    rw [hinfer'] at hinfer''
    cases hinfer''
    obtain ⟨-, order, -, -, hlinked⟩ := (m.link_yields registry true).value hlink
    obtain ⟨op, hop⟩ := ((Network.infer_yields hlinked.ordered).value hinfer).known w name hw
    exact ⟨op, hop, (hsame w w' ⟨name, hw, hw'⟩).trans hop⟩

/-- Whichever of the two nodes is declared first, there is a network. -/
theorem backwards_reordered :
    backwards.nodes.Perm backwards.nodes.reverse ∧
    (∃ net, backwards.link .builtins true = .ok net) ∧
    ∃ net', { backwards with nodes := backwards.nodes.reverse }.link .builtins true = .ok net' := by
  have hperm : backwards.nodes.Perm backwards.nodes.reverse := (List.reverse_perm _).symm
  have hok : (backwards.link .builtins true).isOk = true := by cbv
  have hlink : ∃ net, backwards.link .builtins true = .ok net := by
    cases hnet : backwards.link .builtins true with
    | ok net => exact ⟨net, rfl⟩
    | error f =>
      rw [hnet] at hok
      cases hok
  exact ⟨hperm, hlink, (reordered_spec backwards .builtins _ hperm).1.1 hlink⟩

end Model

end Lamina
