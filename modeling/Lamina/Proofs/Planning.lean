import Mathlib
import Lamina.Proofs.Linking
import Lamina.Proofs.Reading
import Lamina.Proofs.Wishes

/-!
# Planning: every value has a shape and a layout

A network that comes from linking is in order (`Network.Ordered`): every vertex reads values that
earlier vertices declare. From this alone it follows that the sweeps of planning agree with each
other (`Network.plan_yields`). Inference finds a shape for every value that is declared, and what a
vertex reads is known by the time it is reached (`Explained`). The role table describes all
of it, so that settling and committing never miss a row, and every value of a run-time tensor gets a
layout with one slot per axis. What can fail are the vertices themselves, each at its own site
(`Fault.At`).
-/

namespace Lamina

/-! ### Faults of a vertex -/

/-- Whether a cause is a guard of the compilation against its own mistakes. -/
def Cause.isGuard : Cause → Bool
  | .network cause => match cause with
    | .noShape _ | .notBound _ | .outputNotBound | .notFolded | .transition .. | .visitedTwice
    | .boundTwice .. | .noInput _ | .foldedCount .. | .loweredCount .. | .loweredShape .. => true
    | _ => false
  | _ => false

/-- A fault that a vertex may have: one of its own site or of the arithmetic, no guard and none of
the layer graph. -/
def Fault.At (site : Site) (f : Fault) : Prop :=
  f.cause.isGuard = false ∧ f.cause.isLayer = false ∧
    (f.site = site ∨ f.site.opType = "CpuBackend")

theorem Fault.Own.toAt {site : Site} {f : Fault} (h : f.Own site) : f.At site := by
  obtain ⟨hnetwork, hsite⟩ := h
  refine ⟨?_, ?_, hsite⟩
  · unfold Cause.isGuard
    split
    · rename_i hcause
      rw [hcause] at hnetwork
      cases hnetwork
    · rfl
  · unfold Cause.isLayer
    split
    · rename_i hcause
      rw [hcause] at hnetwork
      cases hnetwork
    · rfl

/-- A fault of some vertex of a network. -/
def Network.Blames (n : Network) (f : Fault) : Prop := ∃ v ∈ n.vertices, f.At v.header.site

/-! ### Networks in order -/

/-- A vertex that reads what the vertices before it declare, as linking leaves it. -/
structure Vertex.InPlace (before : List Vertex) (v : Vertex) : Prop where
  pending : v.state = .pending
  inputs : ∀ w, some w ∈ v.inputs → ∃ name, Declares before w name
  kind : match v.kind with
    | .constant _ | .input _ => v.outputs.length = 1
    | .operator op => v.header = op.header ∧ op.action.FillsOne
    | .output => v.outputs = [] ∧ ∃ w, v.inputs = [some w]

/-- Every vertex is in its place. -/
def Network.Ordered (n : Network) : Prop :=
  ∀ (i : Nat) (v : Vertex), n.vertices.toList[i]? = some v →
    v.InPlace (n.vertices.toList.take i)

theorem Declares.take {vertices : List Vertex} {w : Wire} {name : String} {i : Nat}
    (h : Declares vertices w name) (hlt : w.node < i) : Declares (vertices.take i) w name := by
  obtain ⟨u, hu, hname⟩ := h
  exact ⟨u, by rw [List.getElem?_take_of_lt hlt, hu], hname⟩

namespace Model.Linked

variable {m : Model} {registry : Registry} {order : List Nat} {vertices : List Vertex}

/-- Every vertex stands for a constant, a supplied input, a node or an output. -/
theorem vertex_cases (h : m.Linked registry order vertices) {i : Nat} {v : Vertex}
    (hv : vertices[i]? = some v) :
    (∃ c ∈ m.initializers, v = m.constantVertex c) ∨
    (∃ c ∈ m.supplied, v = m.inputVertex c) ∨
    (∃ p ∈ order, m.IsNode registry vertices p (v, i)) ∨
    ∃ name ∈ m.outputs, m.IsOutput vertices name (v, i) := by
  obtain ⟨nodes, outputs, hvertices, hnodes, houtputs⟩ := h
  have hgiven : (m.initializers.map m.constantVertex ++ m.supplied.map m.inputVertex).length =
      m.initializers.length + m.supplied.length := by simp
  have hentry := hv
  rw [hvertices, List.getElem?_append, List.length_append, hgiven] at hentry
  split at hentry
  · rw [List.getElem?_append, hgiven] at hentry
    split at hentry
    · rcases List.mem_append.1 (List.mem_of_getElem? hentry) with hmem | hmem
      · obtain ⟨c, hc, rfl⟩ := List.mem_map.1 hmem
        exact .inl ⟨c, hc, rfl⟩
      · obtain ⟨c, hc, rfl⟩ := List.mem_map.1 hmem
        exact .inr (.inl ⟨c, hc, rfl⟩)
    · rename_i hge
      have hzip : (v, i) ∈ nodes.zipIdx (m.initializers.length + m.supplied.length) :=
        List.mk_mem_zipIdx_iff_le_and_getElem?_sub.2 ⟨not_lt.1 hge, hentry⟩
      exact .inr (.inr (.inl (forall₂_mem_left hnodes.flip hzip)))
  · rename_i hge
    have hzip : (v, i) ∈
        outputs.zipIdx (m.initializers.length + m.supplied.length + nodes.length) :=
      List.mk_mem_zipIdx_iff_le_and_getElem?_sub.2 ⟨not_lt.1 hge, hentry⟩
    exact .inr (.inr (.inr (forall₂_mem_left houtputs.flip hzip)))

/-- Every node that is visited has a vertex. -/
theorem exists_node (h : m.Linked registry order vertices) {p : Nat} (hp : p ∈ order) :
    ∃ i v, vertices[i]? = some v ∧ m.IsNode registry vertices p (v, i) := by
  obtain ⟨nodes, outputs, hvertices, hnodes, -⟩ := h
  obtain ⟨⟨v, i⟩, hmem, hnode⟩ := forall₂_mem_left hnodes hp
  obtain ⟨hle, hv⟩ := List.mk_mem_zipIdx_iff_le_and_getElem?_sub.1 hmem
  have hlt := (List.getElem?_eq_some_iff.1 hv).1
  refine ⟨i, v, ?_, hnode⟩
  rw [hvertices, List.getElem?_append_left (by simp; omega),
    List.getElem?_append_right (by simp; omega)]
  simpa using hv

/-- Every output has a vertex. -/
theorem exists_output (h : m.Linked registry order vertices) {name : String}
    (hname : name ∈ m.outputs) :
    ∃ i v, vertices[i]? = some v ∧ m.IsOutput vertices name (v, i) := by
  obtain ⟨nodes, outputs, hvertices, -, houtputs⟩ := h
  obtain ⟨⟨v, i⟩, hmem, houtput⟩ := forall₂_mem_left houtputs hname
  obtain ⟨hle, hv⟩ := List.mk_mem_zipIdx_iff_le_and_getElem?_sub.1 hmem
  refine ⟨i, v, ?_, houtput⟩
  rw [hvertices, List.getElem?_append_right (by simp; omega)]
  simpa [Nat.add_assoc] using hv

end Model.Linked

/-- **Linking gives a network in order.** -/
theorem Model.Linked.ordered {m : Model} {registry : Registry} {order : List Nat} {n : Network}
    (h : m.Linked registry order n.vertices.toList) : n.Ordered := by
  intro i v hv
  rcases h.vertex_cases hv with ⟨c, -, rfl⟩ | ⟨c, -, rfl⟩ | ⟨p, -, hnode⟩ | ⟨name, -, houtput⟩
  -- constants and inputs read nothing
  · exact ⟨rfl, fun w hw => by simp [constantVertex, Vertex.fresh] at hw, rfl⟩
  · exact ⟨rfl, fun w hw => by simp [inputVertex, Vertex.fresh] at hw, rfl⟩
  -- nodes and outputs read what is declared before them
  · obtain ⟨node, op, inputs, -, hop, hv', hreads⟩ := hnode
    obtain rfl : v = _ := hv'
    have hread := (registry.create_yields node m.opset).value hop
    refine ⟨rfl, fun w hw => ?_, rfl, hread.2⟩
    obtain ⟨name, -, -, hlt, hdeclares⟩ := forall₂_mem_left hreads.flip hw
    exact ⟨name, hdeclares.take hlt⟩
  · obtain ⟨w, hv', hlt, hdeclares⟩ := houtput
    obtain rfl : v = _ := hv'
    refine ⟨rfl, fun w' hw' => ?_, rfl, w, rfl⟩
    obtain rfl : w' = w := by simpa using hw'
    exact ⟨name, hdeclares.take hlt⟩

/-! ### What inference finds -/

/-- What is known about the wires of a list of inputs. -/
def Facts.Operands (facts : Facts) (inputs : List (Option Wire)) (ops : Operands) : Prop :=
  List.Forall₂ (Option.Rel fun w op => facts.find? w = some op) inputs ops

/-- What is known about the values of a vertex, according to what is known about its inputs. -/
def Vertex.Explains (facts : Facts) (v : Vertex) (values : List Operand) : Prop :=
  match v.kind with
  | .input declared => v.state = .pending ∧ values = [⟨declared.shape, none⟩]
  | .constant c => v.state = .folded ∧ values = [⟨c.shape, some c⟩]
  | .output => v.state = .pending ∧ values = []
  | .operator op => ∃ ops s, facts.Operands v.inputs ops ∧ op.outputShape ops = .ok s ∧
      (v.state = .pending ∧ values = [⟨s, none⟩] ∨
        v.state = .folded ∧ ∃ c : Constant, c.shape = s ∧ values = [⟨s, some c⟩])

/-- The vertices of a network after inference, and what is known about their values. -/
structure Explained (vertices : List Vertex) (marked : Array Vertex) (facts : Facts) : Prop where
  size_marked : marked.size = vertices.length
  size_facts : facts.size = vertices.length
  vertex : ∀ (i : Nat) (v : Vertex), vertices[i]? = some v →
    ∃ (state : VertexState) (values : List Operand),
      marked[i]? = some { v with state } ∧ facts[i]? = some values ∧
        Vertex.Explains facts { v with state } values
  known : ∀ w name, Declares vertices w name → facts.Knows w

variable {facts : Facts} {vertices : List Vertex} {marked : Array Vertex}

theorem Facts.find?_eq (facts : Facts) (w : Wire) :
    facts.find? w = (facts.values w.node)[w.output]? := by
  unfold Facts.find? Facts.values
  rw [Array.getD_eq_getD_getElem?]
  cases facts[w.node]? with
  | none => rfl
  | some values => rfl

/-- What is known stays known. -/
theorem Facts.find?_push {w : Wire} {op : Operand} (h : facts.find? w = some op)
    (values : List Operand) : Facts.find? (facts.push values) w = some op := by
  obtain ⟨produced, hproduced, hop⟩ := Option.bind_eq_some_iff.1 h
  have hlt := (Array.getElem?_eq_some_iff.1 hproduced).1
  refine Option.bind_eq_some_iff.2 ⟨produced, ?_, hop⟩
  rw [Array.getElem?_push, if_neg hlt.ne, hproduced]

theorem Vertex.Explains.push {v : Vertex} {values : List Operand} (h : v.Explains facts values)
    (more : List Operand) : v.Explains (facts.push more) values := by
  unfold Vertex.Explains at h ⊢
  split at h
  · exact h
  · exact h
  · exact h
  · obtain ⟨ops, s, hops, hs, hvalues⟩ := h
    refine ⟨ops, s, hops.imp fun a b hab => ?_, hs, hvalues⟩
    cases hab with
    | none => exact .none
    | some hw => exact .some (Facts.find?_push hw more)

/-- The values that are known have the shapes that are known. -/
theorem Vertex.Explains.consistent {v : Vertex} {values : List Operand}
    (h : v.Explains facts values) {op : Operand} (hop : op ∈ values) : op.Consistent := by
  intro c hc
  unfold Vertex.Explains at h
  split at h
  · rw [h.2, List.mem_singleton] at hop
    subst hop
    cases hc
  · rw [h.2, List.mem_singleton] at hop
    subst hop
    rw [Option.some.inj hc]
  · rw [h.2] at hop
    cases hop
  · obtain ⟨ops, s, -, -, ⟨-, hvalues⟩ | ⟨-, c', hshape, hvalues⟩⟩ := h
    · rw [hvalues, List.mem_singleton] at hop
      subst hop
      cases hc
    · rw [hvalues, List.mem_singleton] at hop
      subst hop
      rw [← Option.some.inj hc, hshape]

theorem Explained.consistent (h : Explained vertices marked facts) {w : Wire} {op : Operand}
    (hw : facts.find? w = some op) : op.Consistent := by
  obtain ⟨produced, hproduced, hop⟩ := Option.bind_eq_some_iff.1 hw
  have hlt : w.node < vertices.length := h.size_facts ▸ (Array.getElem?_eq_some_iff.1 hproduced).1
  obtain ⟨state, values, -, hvalues, hexplains⟩ := h.vertex _ _ (List.getElem?_eq_getElem hlt)
  obtain rfl := Option.some.inj (hproduced.symm.trans hvalues)
  exact hexplains.consistent (List.mem_of_getElem? hop)

theorem explained_nil : Explained [] #[] #[] where
  size_marked := rfl
  size_facts := rfl
  vertex i v hv := by simp at hv
  known w name h := by
    obtain ⟨u, hu, -⟩ := h
    simp at hu

/-- One more vertex, whose named outputs are among its values. -/
theorem Explained.push {v : Vertex} {state : VertexState} {values : List Operand}
    (h : Explained vertices marked facts) (hvalues : Vertex.Explains facts { v with state } values)
    (hnamed : ∀ o name, v.outputs[o]? = some name → (v.kind.operator?.isSome → name ≠ "") →
      o < values.length) :
    Explained (vertices ++ [v]) (marked.push { v with state }) (facts.push values) where
  size_marked := by simp [h.size_marked]
  size_facts := by simp [h.size_facts]
  vertex i u hu := by
    rw [Array.getElem?_push, Array.getElem?_push, h.size_marked, h.size_facts]
    split
    · rename_i hi
      obtain rfl : v = u := by simpa [hi] using hu
      exact ⟨state, values, rfl, rfl, hvalues.push values⟩
    · rename_i hi
      have hlt : i < (vertices ++ [v]).length := (List.getElem?_eq_some_iff.1 hu).1
      rw [List.getElem?_append_left (by simp at hlt; omega)] at hu
      obtain ⟨state', values', hmarked, hfacts, hexplains⟩ := h.vertex i u hu
      exact ⟨state', values', hmarked, hfacts, hexplains.push values⟩
  known w name hw := by
    obtain ⟨u, hu, hname, hnonempty⟩ := hw
    by_cases hlt : w.node < vertices.length
    · rw [List.getElem?_append_left hlt] at hu
      obtain ⟨op, hop⟩ := h.known w name ⟨u, hu, hname, hnonempty⟩
      exact ⟨op, Facts.find?_push hop values⟩
    · have hnode : w.node = vertices.length := by
        have := (List.getElem?_eq_some_iff.1 hu).1
        simp at this
        omega
      obtain rfl : v = u := by simpa [hnode] using hu
      have houtput := hnamed w.output name hname hnonempty
      refine ⟨values[w.output], Option.bind_eq_some_iff.2 ⟨values, ?_, ?_⟩⟩
      · rw [Array.getElem?_push, h.size_facts, if_pos hnode]
      · exact List.getElem?_eq_getElem houtput

/-! ### Inferring one vertex -/

/-- A node that produces too few values for its names is refused. -/
theorem Vertex.checkOutputs_yields (v : Vertex) (produced : Nat) :
    Yields (Fault.At v.header.site) (v.checkOutputs produced) fun _ =>
      ∀ o name, v.outputs[o]? = some name → name ≠ "" → o < produced := by
  unfold checkOutputs
  split
  · exact ⟨rfl, rfl, .inl rfl⟩
  · rename_i hnone
    refine .ok fun o name hname hne => ?_
    have hmem : (name, o) ∈ v.outputs.zipIdx := List.mk_mem_zipIdx_iff_getElem?.2 hname
    have := List.find?_eq_none.1 hnone _ hmem
    simpa [hne] using this

/-- What a vertex reads is known. -/
theorem Explained.operands_yields {P : Fault → Prop} (h : Explained vertices marked facts)
    {v : Vertex} (hv : v.InPlace vertices) :
    Yields P (v.inputs.mapM (facts.operand v.header)) (facts.Operands v.inputs) := by
  refine Yields.mapM fun i hi => ?_
  cases i with
  | none => exact .ok .none
  | some w =>
    obtain ⟨name, hname⟩ := hv.inputs w hi
    obtain ⟨op, hop⟩ := h.known w name hname
    unfold Facts.operand
    dsimp only
    rw [hop]
    exact .ok (.some hop)

theorem Explained.operands_consistent (h : Explained vertices marked facts)
    {inputs : List (Option Wire)} {ops : Operands} (hops : facts.Operands inputs ops) :
    ops.Consistent := by
  intro i op hop
  obtain ⟨w, -, hrel⟩ := forall₂_mem_left (List.Forall₂.flip hops) (Operands.mem_of_bound? hop)
  cases hrel with
  | some hw => exact h.consistent hw

/-- A node has one value, which is computed if all inputs are constant. -/
theorem Vertex.inferOperator_yields {v : Vertex} {op : Operator} (hv : v.InPlace vertices)
    (hkind : v.kind = .operator op) (h : Explained vertices marked facts) :
    Yields (Fault.At v.header.site) (v.inferOperator op facts) fun found =>
      (∀ o name, v.outputs[o]? = some name → name ≠ "" → o < 1) ∧
      ∃ ops s, facts.Operands v.inputs ops ∧ op.outputShape ops = .ok s ∧
        (found = ⟨[⟨s, none⟩], false⟩ ∨
          ∃ c : Constant, c.shape = s ∧ found = ⟨[⟨s, some c⟩], true⟩) := by
  have hplace := hv.kind
  rw [hkind] at hplace
  obtain ⟨hheader, hfill⟩ := hplace
  unfold inferOperator
  refine (h.operands_yields hv).bind fun ops hops => ?_
  have hshape : Yields (Fault.At v.header.site) (op.outputShapes ops) fun shapes =>
      ∃ s, op.outputShape ops = .ok s ∧ shapes = [s] := by
    refine (Yields.of_faults fun f hf => ?_).bind fun s hs => .pure ⟨s, hs, rfl⟩
    rw [hheader]
    exact (((op.outputShape_yields ops).fault hf)).toAt
  refine hshape.bind ?_
  rintro _ ⟨s, hs, rfl⟩
  refine (v.checkOutputs_yields 1).bind fun _ hnamed => ?_
  split
  -- all inputs are constant, and the value has the shape that was inferred just now
  · have hfold : Yields (Fault.At v.header.site) (op.foldOutputs ops) fun constants =>
        ∃ c : Constant, c.shape = s ∧ constants = [c] := by
      rw [hheader]
      refine ((op.fold_yields hfill (h.operands_consistent hops) hs).mono (fun _ hf => hf.toAt)
        fun _ hc => hc).bind fun c hc => .pure ⟨c, hc, rfl⟩
    refine hfold.bind ?_
    rintro _ ⟨c, hc, rfl⟩
    rw [if_neg (by simp)]
    exact .pure ⟨hnamed, ops, s, hops, hs, .inr ⟨c, hc, rfl⟩⟩
  · exact .pure ⟨hnamed, ops, s, hops, hs, .inl rfl⟩

/-- How far a vertex is after inference. -/
def Inferred.state (found : Inferred) : VertexState := if found.folded then .folded else .pending

theorem Vertex.infer_yields {v : Vertex} (hv : v.InPlace vertices)
    (h : Explained vertices marked facts) :
    Yields (Fault.At v.header.site) (v.infer facts) fun found =>
      Vertex.Explains facts { v with state := found.state } found.values ∧
        ∀ o name, v.outputs[o]? = some name → (v.kind.operator?.isSome → name ≠ "") →
          o < found.values.length := by
  have hone : ∀ {o : Nat} {name : String}, v.outputs.length = 1 → v.outputs[o]? = some name →
      o < 1 := fun hlength ho => hlength ▸ (List.getElem?_eq_some_iff.1 ho).1
  have hplace := hv.kind
  unfold infer
  cases hkind : v.kind with
  | input declared =>
    rw [hkind] at hplace
    exact .ok ⟨⟨rfl, rfl⟩, fun o name ho _ => hone hplace ho⟩
  | constant c =>
    rw [hkind] at hplace
    exact .ok ⟨⟨rfl, rfl⟩, fun o name ho _ => hone hplace ho⟩
  | output =>
    rw [hkind] at hplace
    refine .ok ⟨⟨rfl, rfl⟩, fun o name ho _ => ?_⟩
    rw [hplace.1] at ho
    cases ho
  | operator op =>
    refine (inferOperator_yields hv hkind h).imp ?_
    rintro found ⟨hnamed, ops, s, hops, hs, rfl | ⟨c, hc, rfl⟩⟩
    · exact ⟨⟨ops, s, hops, hs, .inl ⟨rfl, rfl⟩⟩, fun o name ho hne => hnamed o name ho (hne rfl)⟩
    · exact ⟨⟨ops, s, hops, hs, .inr ⟨rfl, c, hc, rfl⟩⟩,
        fun o name ho hne => hnamed o name ho (hne rfl)⟩

/-! ### Inferring a network -/

theorem inferVertex_yields {v : Vertex} (hv : v.InPlace vertices)
    (h : Explained vertices marked facts) :
    Yields (Fault.At v.header.site) (Network.inferVertex (marked, facts) v) fun r =>
      Explained (vertices ++ [v]) r.1 r.2 := by
  unfold Network.inferVertex
  refine (v.infer_yields hv h).bind fun found ⟨hexplains, hnamed⟩ => ?_
  have hpush := h.push hexplains hnamed
  dsimp only
  split
  · rename_i hfolded
    have htransition : v.transition .folded = .ok { v with state := found.state } := by
      simp [Vertex.transition, hv.pending, Inferred.state, hfolded]
    exact (Yields.of_eq_ok htransition rfl).bind fun _ hv' => .pure (hv' ▸ hpush)
  · rename_i hpending
    have hsame : { v with state := found.state } = v := by
      rw [Inferred.state, if_neg hpending, ← hv.pending]
    rw [hsame] at hpush
    exact .pure hpush

/-- **Inference knows all values of a network in order.** -/
theorem Network.infer_yields {n : Network} (hn : n.Ordered) :
    Yields n.Blames n.infer fun r => Explained n.vertices.toList r.1.vertices r.2 := by
  unfold infer
  rw [← Array.foldlM_toList]
  refine (Yields.foldlM_passed (I := fun passed r => Explained passed r.1 r.2) ?_
    explained_nil).bind fun r hr => .pure hr
  rintro passed v rest hsplit ⟨marked, facts⟩ hexplained
  have hplace : v.InPlace passed := by
    have hv : n.vertices.toList[passed.length]? = some v := by simp [hsplit]
    have := hn _ v hv
    rwa [hsplit, List.take_left] at this
  refine (inferVertex_yields hplace hexplained).mono (fun f hf => ?_) fun _ h => h
  exact ⟨v, by rw [← Array.mem_toList_iff, hsplit]; simp, hf⟩

/-! ### Roles of all values -/

/-- The row of a value before any role is decided. -/
def Operand.openRow (op : Operand) : RoleRow :=
  ⟨op.shape, op.constant.isSome, List.replicate op.shape.rank none⟩

theorem rows_openTable (facts : Facts) :
    (Network.openTable facts).rows = facts.toList.map fun values => values.map Operand.openRow := by
  unfold Network.openTable
  rw [← Array.foldl_toList]
  suffices hrun : ∀ (l : List (List Operand)) (t : Roles),
      (l.foldl (fun t values =>
        t.addOutputs (values.map fun op => (op.shape, op.constant.isSome))) t).rows =
        t.rows ++ l.map fun values => values.map Operand.openRow from
    (hrun facts.toList .empty).trans (List.nil_append _)
  intro l
  induction l with
  | nil => exact fun t => (List.append_nil _).symm
  | cons values l ih =>
    intro t
    rw [List.foldl_cons, ih]
    simp [Roles.addOutputs, Operand.openRow]

/-- The table before any role is decided. -/
theorem openTable_describes (facts : Facts) : (Network.openTable facts).Describes facts := by
  intro v
  have hrow : (Network.openTable facts).row? v = (facts.find? v).map Operand.openRow := by
    simp only [Roles.row?, Facts.find?, rows_openTable, List.getElem?_map,
      Array.getElem?_toList]
    cases facts[v.node]? with
    | none => rfl
    | some values => simp
  rw [hrow]
  cases facts.find? v with
  | none => exact .none
  | some op => exact .some ⟨rfl, rfl, List.length_replicate, by simp [Operand.openRow]⟩

theorem Explained.of_marked (h : Explained vertices marked facts) {i : Nat} {v : Vertex}
    (hv : marked[i]? = some v) :
    ∃ (u : Vertex) (state : VertexState), vertices[i]? = some u ∧ v = { u with state } ∧
      v.Explains facts (facts.values i) := by
  have hlt : i < vertices.length := h.size_marked ▸ (Array.getElem?_eq_some_iff.1 hv).1
  have hu := List.getElem?_eq_getElem hlt
  obtain ⟨state, values, hmarked, hfacts, hexplains⟩ := h.vertex i _ hu
  obtain rfl := Option.some.inj (hv.symm.trans hmarked)
  have hvalues : facts.values i = values := by simp [Facts.values, hfacts]
  exact ⟨_, state, hu, rfl, hvalues ▸ hexplains⟩

theorem Network.mem_pending {n : Network} {i : Nat} {v : Vertex} {op : Operator}
    (h : (i, v, op) ∈ n.pending) :
    n.vertices[i]? = some v ∧ v.kind = .operator op ∧ v.state = .pending := by
  obtain ⟨⟨u, j⟩, hmem, hsome⟩ := List.mem_filterMap.1 h
  have hj : n.vertices[j]? = some u := by
    simpa [List.mk_mem_zipIdx_iff_getElem?] using hmem
  dsimp only at hsome
  split at hsome
  · rename_i op' hkind
    split at hsome
    · rename_i hstate
      cases hsome
      exact ⟨hj, hkind, hstate⟩
    · cases hsome
  · cases hsome

/-- The values that an operator reads and produces are known. -/
theorem Explained.wiring_known (h : Explained vertices marked facts) {i : Nat} {v : Vertex}
    {op : Operator} (hv : marked[i]? = some v) (hkind : v.kind = .operator op) :
    Wiring.Known facts
      ⟨v.inputs, (List.range (facts.values i).length).map fun o => ⟨i, o⟩⟩ := by
  obtain ⟨-, -, -, -, hexplains⟩ := h.of_marked hv
  simp only [Vertex.Explains, hkind] at hexplains
  obtain ⟨ops, s, hops, -, hstate⟩ := hexplains
  have hone : ∃ op, facts.values i = [op] := by
    obtain ⟨-, hvalues⟩ | ⟨-, c, -, hvalues⟩ := hstate
    · exact ⟨_, hvalues⟩
    · exact ⟨_, hvalues⟩
  obtain ⟨op', hvalues⟩ := hone
  refine ⟨fun w hw => ?_, ⟨i, 0⟩, by rw [hvalues]; rfl, op', by rw [Facts.find?_eq, hvalues]; rfl⟩
  obtain ⟨x, -, hrel⟩ := forall₂_mem_left hops hw
  cases hrel with
  | some hx => exact ⟨_, hx⟩

/-- All wishes of the nodes that are not folded. -/
theorem Network.settle_runs {n n' : Network} (hn : n.Ordered)
    (h : Explained n.vertices.toList n'.vertices facts) {t : Roles} (ht : t.Describes facts) :
    Runs (fun f _ => n.Blames f) t (n'.settle facts) fun _ t' => t'.Describes facts := by
  unfold settle
  refine Runs.forM (I := fun t => Roles.Describes t facts) ?_ ht
  rintro ⟨i, v, op⟩ hmem t ht
  have hpending : (i, v, op) ∈ n'.pending := by simpa using hmem
  obtain ⟨hv, hkind, -⟩ := mem_pending hpending
  obtain ⟨u, state, hu, rfl, -⟩ := h.of_marked hv
  have hplace := (hn i u hu).kind
  rw [show u.kind = .operator op from hkind] at hplace
  refine (op.propagate_keeps (h.wiring_known hv hkind) t ht).mono (fun f _ hf => ?_)
    fun _ _ hq => hq.1
  rw [← hplace.1] at hf
  exact ⟨u, Array.mem_toList_iff.1 (List.mem_of_getElem? hu), hf.toAt⟩

/-- Every value that is not constant gets a layout with one slot per axis. -/
theorem Network.commit_runs {n n' : Network}
    (h : Explained n.vertices.toList n'.vertices facts) {t : Roles} (ht : t.Describes facts) :
    Runs (fun f _ => n.Blames f) t (n'.commit facts) fun layouts _ =>
      ∀ i s, i < n.vertices.size → facts.values i = [⟨s, none⟩] →
        ∃ l, layouts.getD i [] = [l] ∧ l.rank = s.rank := by
  unfold commit
  refine (Runs.mapM (I := fun t => Roles.Describes t facts)
    (R := fun v ls => ∀ s, facts.values v.2 = [⟨s, none⟩] → ∃ l, ls = [l] ∧ l.rank = s.rank)
    ?_ ht).imp fun layouts _ ⟨_, hlayouts⟩ i s hi hvalues => ?_
  -- one vertex, whose values are committed one after another
  · rintro ⟨v, i⟩ hmem t ht
    have hv : n'.vertices[i]? = some v := by
      simpa [List.mk_mem_zipIdx_iff_getElem?] using hmem
    obtain ⟨u, state, hu, rfl, -⟩ := h.of_marked hv
    refine (Runs.mapM (I := fun t => Roles.Describes t facts) (R := fun o l => ∀ op : Operand,
      facts.find? ⟨i, o⟩ = some op → op.constant = none → l.rank = op.shape.rank)
      (fun o ho t ht => ?_) ht).imp fun ls t' ⟨ht', hls⟩ => ⟨ht', fun s hvalues => ?_⟩
    · have hlt : o < (facts.values i).length := List.mem_range.1 ho
      have hop : facts.find? ⟨i, o⟩ = some (facts.values i)[o] :=
        (facts.find?_eq _).trans (List.getElem?_eq_getElem hlt)
      refine (RoleM.commit_keeps hop t ht).mono (fun f _ hf => ?_) fun l _ hl => ⟨hl.1, ?_⟩
      · exact ⟨u, Array.mem_toList_iff.1 (List.mem_of_getElem? hu), hf.toAt⟩
      · intro op hop'
        obtain rfl := Option.some.inj (hop.symm.trans hop')
        exact hl.2
    · rw [hvalues] at hls
      match ls, hls with
      | [l], .cons hl .nil =>
        exact ⟨l, rfl, hl ⟨s, none⟩ (by rw [facts.find?_eq, hvalues]; rfl) rfl⟩
  · have hi : i < n'.vertices.toList.length := by simpa [h.size_marked] using hi
    have hentry : n'.vertices.toList.zipIdx[i]? = some (n'.vertices.toList[i], i) := by
      simp [List.getElem?_zipIdx]
    obtain ⟨ls, hls, hlayout⟩ := forall₂_getElem? hlayouts hentry
    obtain ⟨l, rfl, hrank⟩ := hlayout s hvalues
    exact ⟨l, by rw [List.getD_eq_getElem?_getD, hls]; rfl, hrank⟩

/-- A plan whose facts explain a network and whose layouts have one slot per axis. -/
structure Plan.Sound (n : Network) (plan : Plan) : Prop where
  explained : Explained n.vertices.toList plan.network.vertices plan.facts
  layout : ∀ i s, i < n.vertices.size → plan.facts.values i = [⟨s, none⟩] →
    ∃ l, plan.layouts.getD i [] = [l] ∧ l.rank = s.rank

/-- **Planning a network in order** fails at the vertices only. -/
theorem Network.plan_yields {n : Network} (hn : n.Ordered) :
    Yields n.Blames n.plan (Plan.Sound n) := by
  unfold plan
  refine (infer_yields hn).bind ?_
  rintro ⟨n', facts⟩ hexplained
  have hdecide : Runs (fun f _ => n.Blames f) (openTable facts) (do
      n'.settle facts
      n'.commit facts) fun layouts _ => _ :=
    (settle_runs hn hexplained (openTable_describes facts)).bind fun _ t ht =>
      commit_runs hexplained ht
  exact hdecide.result.bind fun layouts hlayouts => .pure ⟨hexplained, hlayouts⟩

end Lamina
