import Mathlib
import Lamina.Proofs.Progress

/-!
# Compilation

Two theorems about compilation as a whole, both read off one run (`Model.compileOnto_runs`).

* **Compilation does not contradict itself** (`Model.compile_no_breach`): whatever the model and the
  options, no part of it refuses what another part has made.
* **What a compiled model looks like** (`Model.compile_spec`): its inputs are the supplied inputs of
  the model and all sources, its outputs are the outputs of the model and all sinks, and its layers
  are named apart and read backwards.
-/

namespace Lamina

/-! ### Inputs and outputs of a network -/

/-- Inference changes nothing but the states. -/
theorem Explained.filterMap_marked {α : Type} {vertices : List Vertex} {marked : Array Vertex}
    {facts : Facts} (h : Explained vertices marked facts) {f : Vertex → Option α}
    (hf : ∀ (v : Vertex) (state : VertexState), f { v with state } = f v) :
    marked.toList.filterMap f = vertices.filterMap f := by
  have hmap : marked.toList.map f = vertices.map f := by
    refine List.ext_getElem? fun i => ?_
    rw [List.getElem?_map, List.getElem?_map, Array.getElem?_toList]
    cases hv : vertices[i]? with
    | none =>
      have hi : marked.size ≤ i := h.size_marked ▸ List.getElem?_eq_none_iff.1 hv
      rw [Array.getElem?_eq_none hi]
    | some v =>
      obtain ⟨state, -, hmarked, -⟩ := h.vertex i v hv
      rw [hmarked, Option.map_some, hf]
      rfl
  have hid : ∀ l : List Vertex, l.filterMap f = (l.map f).filterMap id := fun l => by
    rw [List.filterMap_map, Function.id_comp]
  rw [hid, hid, hmap]

/-- What a registry can read is registered. -/
theorem Registry.contains_of_create {registry : Registry} {n : Node} {opset : Int64}
    {op : Operator} (h : registry.create n opset = .ok op) : registry.contains n.opType = true := by
  unfold create at h
  unfold contains
  split at h
  · rename_i family hfamily
    rw [hfamily]
    rfl
  · exact absurd h Site.fail_ne_ok

namespace Model.Linked

variable {m : Model} {registry : Registry} {order : List Nat} {vertices : List Vertex}

/-- The vertices of a model without their positions. -/
theorem parts (h : m.Linked registry order vertices) :
    ∃ nodes outputs, vertices =
      m.initializers.map m.constantVertex ++ m.supplied.map m.inputVertex ++ nodes ++ outputs ∧
    (∀ v ∈ nodes, ∃ n op inputs, registry.create n m.opset = .ok op ∧
      v = ⟨op.header, .operator op, inputs, n.outputs, .pending⟩) ∧
    List.Forall₂ (fun name v => ∃ w, Declares vertices w name ∧
      v = ⟨⟨"GraphOutput", name, m.opset⟩, .output, [some w], [], .pending⟩) m.outputs outputs := by
  obtain ⟨nodes, outputs, hvertices, hnodes, houtputs⟩ := h
  refine ⟨nodes, outputs, hvertices, fun v hv => ?_, ?_⟩
  · rw [← List.zipIdx_map_fst (m.initializers.length + m.supplied.length) nodes] at hv
    obtain ⟨u, hu, rfl⟩ := List.mem_map.1 hv
    obtain ⟨p, -, n, op, inputs, -, hop, hv, -⟩ := forall₂_mem_left hnodes.flip hu
    exact ⟨n, op, inputs, hop, hv⟩
  · rw [← List.zipIdx_map_fst (m.initializers.length + m.supplied.length + nodes.length) outputs,
      List.forall₂_map_right_iff]
    refine houtputs.imp ?_
    rintro name v ⟨w, hv, -, hdeclares⟩
    exact ⟨w, hdeclares, hv⟩

/-- The inputs of a network are the supplied ones of the model. -/
theorem supplied (h : m.Linked registry order vertices) :
    vertices.filterMap Vertex.supplied? = m.supplied := by
  obtain ⟨nodes, outputs, hvertices, hnodes, houtputs⟩ := h.parts
  have hnode : nodes.filterMap Vertex.supplied? = [] := List.filterMap_eq_nil_iff.2 fun v hv => by
    obtain ⟨n, op, inputs, -, rfl⟩ := hnodes v hv
    rfl
  have houtput : outputs.filterMap Vertex.supplied? = [] :=
    List.filterMap_eq_nil_iff.2 fun v hv => by
      obtain ⟨name, -, w, -, rfl⟩ := forall₂_mem_left houtputs.flip hv
      rfl
  rw [hvertices]
  simp only [List.filterMap_append, List.filterMap_map, hnode, houtput, List.append_nil]
  have hconstant : (Vertex.supplied? ∘ m.constantVertex) = fun _ => none := rfl
  have hinput : (Vertex.supplied? ∘ m.inputVertex) = some := rfl
  rw [hconstant, hinput, List.filterMap_some]
  simp

/-- The outputs of a network are those of the model. -/
theorem putOut (h : m.Linked registry order vertices) :
    List.Forall₂ (fun name o => o.1 = name ∧ Declares vertices o.2 name) m.outputs
      (vertices.filterMap Vertex.putOut?) := by
  obtain ⟨nodes, outputs, hvertices, hnodes, houtputs⟩ := h.parts
  have hnode : nodes.filterMap Vertex.putOut? = [] := List.filterMap_eq_nil_iff.2 fun v hv => by
    obtain ⟨n, op, inputs, -, rfl⟩ := hnodes v hv
    rfl
  have hgiven : (m.initializers.map m.constantVertex ++
      m.supplied.map m.inputVertex).filterMap Vertex.putOut? = [] :=
    List.filterMap_eq_nil_iff.2 fun v hv => by
      rcases List.mem_append.1 hv with hv | hv
      · obtain ⟨c, -, rfl⟩ := List.mem_map.1 hv
        rfl
      · obtain ⟨i, -, rfl⟩ := List.mem_map.1 hv
        rfl
  have hlist : vertices.filterMap Vertex.putOut? = outputs.filterMap Vertex.putOut? := by
    rw [hvertices, List.filterMap_append, List.filterMap_append, hgiven, hnode]
    rfl
  rw [hlist, ← List.filterMap_some (l := m.outputs)]
  refine List.rel_filterMap ?_ houtputs
  rintro name v ⟨w, hdeclares, rfl⟩
  exact .some ⟨rfl, hdeclares⟩

/-- The vertices of a model are called after its nodes or have names of their own. -/
theorem opType (h : m.Linked registry order vertices) {v : Vertex} (hv : v ∈ vertices) :
    v.header.opType ∈ ["Initializer", "GraphInput", "GraphOutput"] ∨
      registry.contains v.header.opType = true := by
  obtain ⟨nodes, outputs, rfl, hnodes, houtputs⟩ := h.parts
  simp only [List.mem_append] at hv
  rcases hv with ((hv | hv) | hv) | hv
  · obtain ⟨c, -, rfl⟩ := List.mem_map.1 hv
    exact .inl (by simp [constantVertex, Vertex.fresh])
  · obtain ⟨i, -, rfl⟩ := List.mem_map.1 hv
    exact .inl (by simp [inputVertex, Vertex.fresh])
  · obtain ⟨n, op, inputs, hop, rfl⟩ := hnodes v hv
    refine .inr ?_
    rw [((registry.create_yields n m.opset).value hop).1]
    exact Registry.contains_of_create hop
  · obtain ⟨name, -, w, -, rfl⟩ := forall₂_mem_left houtputs.flip hv
    exact .inl (by simp)

end Model.Linked

/-! ### One run -/

namespace Model

variable (m : Model) (registry : Registry) (options : CompileOptions)

/-- Why a model is refused: for its description, for a node that cannot be read, or for a vertex of
its network. -/
inductive Refused (f : Fault) : Prop
  | described (h : f.kind ≠ .internal)
  | unread {n : Node} (hn : n ∈ m.nodes) (h : registry.create n m.opset = .error f)
  | blamed {order : List Nat} {net : Network} (hnet : m.Linked registry order net.vertices.toList)
      (h : net.Blames f)

/-- The network and the plan that a model is compiled by. -/
structure PlannedBy (net : Network) (plan : Plan) : Prop where
  network : m.link registry options.reorder = .ok net
  planned : net.plan = .ok plan
  linked : ∃ order, m.Linked registry order net.vertices.toList
  sound : plan.Sound net

/-- A wrong opset is no internal fault. -/
theorem checkOpset_yields :
    Yields (fun f => f.kind ≠ .internal) (m.checkOpset options) fun _ => True := by
  refine (Yields.ensure fun _ => ?_).bind fun _ _ => (Yields.ensure fun _ => ?_).imp fun _ _ => ?_
  · exact fun h => nomatch h
  · exact fun h => nomatch h
  · trivial

/-- Everything before lowering. -/
theorem plan_yields :
    Yields (m.Refused registry) (m.plan registry options) fun plan =>
      ∃ net, m.PlannedBy registry options net plan := by
  unfold plan
  refine ((m.checkOpset_yields options).mono (fun _ hf => .described hf) fun _ h => h).bind
    fun _ _ => ?_
  have hlink := m.link_yields registry options.reorder
  refine (Yields.of_faults fun f hf => ?_).bind fun net hnet => ?_
  -- linking fails for a node that cannot be read or for the names
  · rcases hlink.fault hf with ⟨n, hn, hcreate⟩ | ⟨hkind, -⟩
    · exact .unread hn hcreate
    · exact .described (by rw [hkind]; decide)
  · obtain ⟨-, order, -, -, hlinked⟩ := hlink.value hnet
    have hplan := Network.plan_yields hlinked.ordered
    refine (Yields.of_faults fun f hf => .blamed hlinked (hplan.fault hf)).imp fun plan hok => ?_
    exact ⟨net, hnet, hok, ⟨order, hlinked⟩, hplan.value hok⟩

/-- **A whole compilation.** -/
theorem compileOnto_runs :
    Runs (fun f _ => m.Refused registry f) .empty (m.compileOnto registry options) fun e g =>
      ∃ (net : Network) (plan : Plan) (p : Progress), m.PlannedBy registry options net plan ∧
        p.endpoints = e ∧ p.Sound plan.facts plan.network.vertices.toList g := by
  unfold compileOnto
  refine Runs.get_bind (Runs.lift_bind (Yields.ensure fun hsize => nomatch hsize) fun _ _ => ?_)
  refine Runs.lift_bind (m.plan_yields registry options) ?_
  rintro plan ⟨net, hnet⟩
  obtain ⟨order, hlinked⟩ := hnet.linked
  refine (Plan.lower_runs hnet.sound hlinked.ordered options.scope).mono
    (fun f _ hf => .blamed hlinked hf) ?_
  rintro e g ⟨p, hp, hsound⟩
  exact ⟨net, plan, p, hnet, hp, hsound⟩

end Model

/-! ### Compilation does not contradict itself -/

/-- The parts of the program that check what other parts hand to them. -/
def Site.parts : List String :=
  ["LayerGraph", "Compiler", "TensorLayout", "ConstantTensor", "RoleTable", "NodeIo"]

/-- A fault for which no model is to blame: a guard of the compilation, or an internal fault of one
of its parts. -/
def Fault.Breach (f : Fault) : Prop :=
  f.cause.isGuard = true ∨ f.kind = .internal ∧ f.site.opType ∈ Site.parts

instance (f : Fault) : Decidable f.Breach := inferInstanceAs (Decidable (_ ∨ _))

example : Fault.Breach ⟨⟨"GraphOutput", "y"⟩, .network .outputNotBound⟩ := by decide

example : ¬ Fault.Breach ⟨⟨"GraphOutput", "y"⟩, .network .constantOutput⟩ := by decide

theorem Cause.kind_of_isGuard {cause : Cause} (h : cause.isGuard = true) :
    cause.kind = .internal := by
  unfold isGuard at h
  split at h
  · split at h
    all_goals first | rfl | cases h
  · cases h

theorem Fault.not_breach_of_kind {f : Fault} (h : f.kind ≠ .internal) : ¬ f.Breach := by
  rintro (hguard | ⟨hkind, -⟩)
  · exact h (Cause.kind_of_isGuard hguard)
  · exact h hkind

/-- The faults of a site are no breach, unless the site has the name of a part. -/
theorem Fault.At.not_breach {f : Fault} {site : Site} (h : f.At site)
    (hsite : site.opType ∉ Site.parts) : ¬ f.Breach := by
  rintro (hguard | ⟨-, hpart⟩)
  · rw [h.1] at hguard
    cases hguard
  · rcases h.2.2 with rfl | hbackend
    · exact hsite hpart
    · rw [hbackend] at hpart
      revert hpart
      decide

/-- No builtin type has the name of a part. -/
theorem Registry.builtins_notMem_parts {opType : String}
    (h : Registry.builtins.contains opType = true) : opType ∉ Site.parts := by
  have hall : ∀ e ∈ Registry.builtins.entries, e.1 ∉ Site.parts := by decide
  unfold contains find? at h
  rw [Option.isSome_map, List.find?_isSome] at h
  obtain ⟨e, he, heq⟩ := h
  obtain rfl := eq_of_beq heq
  exact hall e he

/-- A node of an unknown type is not supported, and the others have types of their own. -/
theorem Registry.create_not_breach {n : Node} {opset : Int64} {f : Fault}
    (h : Registry.builtins.create n opset = .error f) : ¬ f.Breach := by
  by_cases hknown : Registry.builtins.contains n.opType = true
  · exact (((create_yields _ n opset).fault h).toAt).not_breach (builtins_notMem_parts hknown)
  · unfold create at h
    rw [contains, Option.not_isSome_iff_eq_none] at hknown
    rw [hknown] at h
    cases h
    exact Fault.not_breach_of_kind fun hkind => nomatch hkind

/-- **Compilation does not contradict itself.** With the builtin registry and an empty layer graph,
no model and no options lead to a guard of the compilation or to an internal fault of one of its
parts. -/
theorem Model.compile_no_breach (m : Model) (options : CompileOptions) (f : Fault)
    (g : LayerGraph) (h : m.compile .builtins options = (.error f, g)) : ¬ f.Breach := by
  cases (m.compileOnto_runs .builtins options).fault h with
  | described hkind => exact Fault.not_breach_of_kind hkind
  | unread _ hcreate => exact Registry.create_not_breach hcreate
  | blamed hlinked hblames =>
    obtain ⟨v, hv, hf⟩ := hblames
    refine hf.not_breach ?_
    rcases hlinked.opType (Array.mem_toList_iff.2 hv) with hgiven | hknown
    · have hall : ∀ t ∈ ["Initializer", "GraphInput", "GraphOutput"], t ∉ Site.parts := by decide
      exact hall _ hgiven
    · exact Registry.builtins_notMem_parts hknown

theorem Model.compile_backwards_no_breach :
    ∃ f g, backwards.compile .builtins {} = (.error f, g) ∧ ¬ f.Breach :=
  ⟨_, _, rfl, compile_no_breach backwards {} _ _ rfl⟩

/-! ### What a compiled model looks like -/

/-- The inputs, outputs and layers of a compiled model. -/
structure Model.Compiled (m : Model) (registry : Registry) (options : CompileOptions)
    (e : Endpoints) (g : LayerGraph) : Prop where
  /-- The inputs are the supplied ones, in the order of declaration and with the declared shapes. -/
  inputs : e.inputs.map (fun x => (x.name, x.shape)) = m.supplied.map fun i => (i.name, i.shape)
  /-- Every input has a source of its own. -/
  sources_nodup : (e.inputs.map Endpoint.layer).Nodup
  /-- The layers of the inputs are the sources. -/
  sources : ∀ i, i ∈ e.inputs.map Endpoint.layer ↔ ∃ l, g.layer? i = some l ∧ l.kind = .source
  /-- The outputs are those of the model, in order, with the shapes that planning has inferred. -/
  outputs : ∃ net plan, m.link registry options.reorder = .ok net ∧ net.plan = .ok plan ∧
    List.Forall₂ (fun name x => x.name = name ∧ ∃ w op, Declares net.vertices.toList w name ∧
      plan.facts.find? w = some op ∧ x.shape = op.shape) m.outputs e.outputs
  /-- Every output has a sink of its own. -/
  sinks_nodup : (e.outputs.map Endpoint.layer).Nodup
  /-- The layers of the outputs are the sinks. -/
  sinks : ∀ i, i ∈ e.outputs.map Endpoint.layer ↔ ∃ l, g.layer? i = some l ∧ l.kind = .sink
  /-- Every sink reads one outlet. -/
  reads : ∀ i l, g.layer? i = some l → l.kind = .sink → l.inputs.length = 1
  /-- Every layout gives each axis of the shape a slot of its own. -/
  layouts : ∀ x ∈ e.inputs ++ e.outputs, x.layout.slots.Nodup ∧ x.layout.rank = x.shape.rank
  /-- The names of the layers differ. -/
  names : (g.layers.toList.map Layer.name).Nodup
  /-- Layers read outlets of earlier layers, which are no sinks. -/
  wiring : ∀ i l, g.layer? i = some l → ∀ o ∈ l.inputs, o.layer < i ∧
    ∃ l', g.layer? o.layer = some l' ∧ o.index < l'.kind.outputCount ∧ l'.kind ≠ .sink

/-- A sink has no outlet, so that nothing reads it. -/
theorem LayerGraph.HasOutlet.not_sink {g : LayerGraph} {o : Outlet} (h : g.HasOutlet o)
    (hg : g.Sound) :
    ∃ l, g.layer? o.layer = some l ∧ o.index < l.kind.outputCount ∧ l.kind ≠ .sink := by
  obtain ⟨l, hl, hindex⟩ := h
  rw [hg.counts _ l hl] at hindex
  refine ⟨l, hl, hindex, fun hsink => ?_⟩
  rw [hsink] at hindex
  exact absurd hindex (Nat.not_lt_zero _)

/-- **What a compiled model looks like.** The inputs are the supplied inputs of the model and all
sources; the outputs are the outputs of the model, repetitions included, and all sinks. -/
theorem Model.compile_spec (m : Model) (registry : Registry) (options : CompileOptions)
    (e : Endpoints) (g : LayerGraph) (h : m.compile registry options = (.ok e, g)) :
    m.Compiled registry options e g := by
  obtain ⟨net, plan, p, hplan, rfl, hp⟩ := (m.compileOnto_runs registry options).value h
  obtain ⟨order, hlinked⟩ := hplan.linked
  have hexplained := hplan.sound.explained
  have hinputs := hp.inputs
  have houtputs := hp.outputs
  rw [hexplained.filterMap_marked fun _ _ => rfl, hlinked.supplied] at hinputs
  rw [hexplained.filterMap_marked fun _ _ => rfl] at houtputs
  exact
    { inputs := hinputs
      sources_nodup := by
        rw [hp.cover.sources]
        exact g.nodup_places _
      sources := fun i => by
        simp only [hp.cover.sources, LayerGraph.mem_places, LayerKind.isSource_iff]
      outputs := by
        refine ⟨net, plan, hplan.network, hplan.planned, forall₂_comp ?_ hlinked.putOut houtputs⟩
        rintro name ⟨_, w⟩ x ⟨rfl, hdeclares⟩ ⟨hname, op, hop, hshape⟩
        exact ⟨hname, w, op, hdeclares, hop, hshape⟩
      sinks_nodup := by
        rw [hp.cover.sinks]
        exact g.nodup_places _
      sinks := fun i => by
        simp only [hp.cover.sinks, LayerGraph.mem_places, LayerKind.isSink_iff]
      reads := hp.cover.reads
      layouts := fun x hx => ⟨x.layout.nodup, hp.cover.layouts x hx⟩
      names := hp.graph.names
      wiring := fun i l hl o ho =>
        ⟨(hp.graph.inputs i l hl o ho).1, (hp.graph.inputs i l hl o ho).2.not_sink hp.graph⟩ }

/-- Two nodes that have to change places. -/
theorem Model.compile_backwards_spec :
    ∃ e g, backwards.compile .builtins { reorder := true } = (.ok e, g) ∧
      backwards.Compiled .builtins { reorder := true } e g := by
  have hok : (backwards.compile .builtins { reorder := true }).1.toOption.isSome = true := by cbv
  rcases hrun : backwards.compile .builtins { reorder := true } with ⟨f | e, g⟩
  · rw [hrun] at hok
    cases hok
  · exact ⟨e, g, rfl, compile_spec backwards .builtins { reorder := true } e g hrun⟩

end Lamina
