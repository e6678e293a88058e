import Mathlib
import Lamina.Compile
import Lamina.Proofs.Lowering
import Lamina.Proofs.Planning

/-!
# Lowering a plan

Lowering goes over the vertices of a planned network once. What it keeps true is stated in
`Progress.Sound`: a tensor stands for every value so far, the layer graph is in order, and the
inputs and outputs so far are its sources and sinks. Every vertex keeps it true
(`Plan.lowerVertex_runs`), and so does the run over all of them (`Plan.lower_runs`).
-/

namespace Lamina

variable {facts : Facts} {g g' : LayerGraph}

/-! ### Sources and sinks -/

/-- Whether a layer is an input of the network. -/
def LayerKind.isSource : LayerKind → Bool
  | .source => true
  | _ => false

/-- Whether a layer is an output of the network. -/
def LayerKind.isSink : LayerKind → Bool
  | .sink => true
  | _ => false

theorem LayerKind.isSource_iff {k : LayerKind} : k.isSource = true ↔ k = .source := by
  cases k <;> simp [isSource]

theorem LayerKind.isSink_iff {k : LayerKind} : k.isSink = true ↔ k = .sink := by
  cases k <;> simp [isSink]

theorem LayerKind.Inner.isSource {k : LayerKind} (h : k.Inner) : k.isSource = false := by
  cases k with
  | source => exact h.elim
  | _ => rfl

theorem LayerKind.Inner.isSink {k : LayerKind} (h : k.Inner) : k.isSink = false := by
  cases k with
  | sink => exact h.elim
  | _ => rfl

namespace LayerGraph

/-- The positions of the layers of some kinds, in order. -/
def places (g : LayerGraph) (q : LayerKind → Bool) : List Nat :=
  (g.layers.toList.zipIdx.filter fun e => q e.1.kind).map Prod.snd

theorem mem_places {q : LayerKind → Bool} {i : Nat} :
    i ∈ g.places q ↔ ∃ l, g.layer? i = some l ∧ q l.kind = true := by
  unfold places layer?
  simp only [List.mem_map, List.mem_filter, Prod.exists, List.mk_mem_zipIdx_iff_getElem?,
    Array.getElem?_toList]
  constructor
  · rintro ⟨l, j, ⟨hl, hq⟩, rfl⟩
    exact ⟨l, hl, hq⟩
  · rintro ⟨l, hl, hq⟩
    exact ⟨l, i, ⟨hl, hq⟩, rfl⟩

theorem nodup_places (g : LayerGraph) (q : LayerKind → Bool) : (g.places q).Nodup := by
  have hsub : (g.places q).Sublist (g.layers.toList.zipIdx.map Prod.snd) :=
    List.filter_sublist.map Prod.snd
  rw [List.zipIdx_map_snd] at hsub
  exact (List.nodup_range' _).sublist hsub

/-- A new layer is at the end. -/
theorem places_push (g : LayerGraph) (s : LayerSpec) (q : LayerKind → Bool) :
    (g.push s).places q = g.places q ++ if q s.kind then [g.size] else [] := by
  simp only [places, push, Array.toList_push, List.zipIdx_append, List.filter_append,
    List.map_append]
  congr 1
  by_cases hq : q s.kind = true <;> simp [hq, size, LayerSpec.layer]

end LayerGraph

/-- The endpoints are the sources and sinks of a graph, each layout has one slot per axis, and every
sink reads one outlet. -/
structure Endpoints.Cover (e : Endpoints) (g : LayerGraph) : Prop where
  sources : e.inputs.map Endpoint.layer = g.places LayerKind.isSource
  sinks : e.outputs.map Endpoint.layer = g.places LayerKind.isSink
  layouts : ∀ x ∈ e.inputs ++ e.outputs, x.layout.rank = x.shape.rank
  reads : ∀ i l, g.layer? i = some l → l.kind = .sink → l.inputs.length = 1

theorem Endpoints.cover_empty : Endpoints.empty.Cover .empty := by
  refine ⟨rfl, rfl, fun x hx => absurd hx List.not_mem_nil, fun i l hl => ?_⟩
  simp at hl

namespace Endpoints.Cover

variable {e : Endpoints}

theorem reads_push (h : e.Cover g) {s : LayerSpec} (hs : s.kind = .sink → s.inputs.length = 1)
    (i : Nat) (l : Layer) (hl : (g.push s).layer? i = some l) (hsink : l.kind = .sink) :
    l.inputs.length = 1 := by
  rw [LayerGraph.layer?_push] at hl
  split at hl
  · cases hl
    exact hs hsink
  · exact h.reads i l hl hsink

/-- Inner layers are neither sources nor sinks. -/
theorem grows (h : e.Cover g) (hg : g.Grows g') : e.Cover g' := by
  induction hg with
  | refl => exact h
  | push _ hl ih =>
    refine ⟨?_, ?_, ih.layouts, ih.reads_push fun hsink => ?_⟩
    · rw [LayerGraph.places_push, hl.isSource, ih.sources]
      simp
    · rw [LayerGraph.places_push, hl.isSink, ih.sinks]
      simp
    · rw [hsink] at hl
      exact hl.elim

/-- A source with its endpoint. -/
theorem push_source (h : e.Cover g) (name : String) {x : Endpoint} (hx : x.layer = g.size)
    (hrank : x.layout.rank = x.shape.rank) :
    Cover { e with inputs := e.inputs ++ [x] } (g.push ⟨name, .source, []⟩) where
  sources := by rw [LayerGraph.places_push, List.map_append, h.sources, List.map_singleton, hx]; rfl
  sinks := by rw [LayerGraph.places_push, h.sinks]; simp [LayerKind.isSink]
  layouts y hy := by
    simp only [List.mem_append, List.mem_singleton] at hy
    rcases hy with (hy | rfl) | hy
    · exact h.layouts y (List.mem_append_left _ hy)
    · exact hrank
    · exact h.layouts y (List.mem_append_right _ hy)
  reads := h.reads_push fun hsink => nomatch hsink

/-- A sink with its endpoint. -/
theorem push_sink (h : e.Cover g) (name : String) (o : Outlet) {x : Endpoint}
    (hx : x.layer = g.size) (hrank : x.layout.rank = x.shape.rank) :
    Cover { e with outputs := e.outputs ++ [x] } (g.push ⟨name, .sink, [o]⟩) where
  sources := by rw [LayerGraph.places_push, h.sources]; simp [LayerKind.isSource]
  sinks := by rw [LayerGraph.places_push, List.map_append, h.sinks, List.map_singleton, hx]; rfl
  layouts y hy := by
    simp only [List.mem_append, List.mem_singleton] at hy
    rcases hy with hy | hy | rfl
    · exact h.layouts y (List.mem_append_left _ hy)
    · exact h.layouts y (List.mem_append_right _ hy)
    · exact hrank
  reads := h.reads_push fun _ => rfl

end Endpoints.Cover

/-! ### Tensors for the values so far -/

/-- A tensor stands for every value of the vertices that have been lowered. -/
def Binds (facts : Facts) (g : LayerGraph) (bound : Array (List Tensor)) : Prop :=
  ∀ w op, facts.find? w = some op → w.node < bound.size →
    ∃ t, ((bound[w.node]?).bind fun tensors => tensors[w.output]?) = some t ∧ t.StandsFor g op

/-- The tensors of one more vertex; those before stay valid as long as no outlet is lost. -/
theorem Binds.push {bound : Array (List Tensor)} {tensors : List Tensor} (h : Binds facts g bound)
    (hg : ∀ o, g.HasOutlet o → g'.HasOutlet o)
    (htensors : ∀ o op, facts.find? ⟨bound.size, o⟩ = some op →
      ∃ t, tensors[o]? = some t ∧ t.StandsFor g' op) :
    Binds facts g' (bound.push tensors) := by
  intro w op hop hlt
  rw [Array.size_push] at hlt
  rw [Array.getElem?_push]
  split
  · rename_i hnode
    obtain ⟨node, output⟩ := w
    obtain rfl : node = bound.size := hnode
    exact htensors output op hop
  · obtain ⟨t, ht, hstands⟩ := h w op hop (by omega)
    exact ⟨t, ht, hstands.mono hg⟩

theorem Binds.tensor_yields {P : Fault → Prop} {p : Progress} (h : Binds facts g p.bound)
    {w : Wire} {op : Operand} (hop : facts.find? w = some op) (hlt : w.node < p.bound.size)
    (header : Header) : Yields P (p.tensor header w) fun t => t.StandsFor g op := by
  obtain ⟨t, ht, hstands⟩ := h w op hop hlt
  unfold Progress.tensor
  rw [ht]
  exact .ok hstands

/-! ### What lowering keeps true -/

/-- The input that a vertex stands for. -/
def Vertex.supplied? (v : Vertex) : Option ModelInput :=
  match v.kind with
  | .input declared => some declared
  | _ => none

/-- The name of the output that a vertex stands for, and the value that is put out. -/
def Vertex.putOut? (v : Vertex) : Option (String × Wire) :=
  match v.kind with
  | .output => v.inputs.head?.join.map fun w => (v.header.name, w)
  | _ => none

/-- An endpoint with the name of an output and the shape of its value. -/
def Endpoint.PutsOut (facts : Facts) (output : String × Wire) (x : Endpoint) : Prop :=
  x.name = output.1 ∧ ∃ op, facts.find? output.2 = some op ∧ x.shape = op.shape

/-- How far lowering has come after some vertices. -/
structure Progress.Sound (facts : Facts) (passed : List Vertex) (p : Progress) (g : LayerGraph) :
    Prop where
  graph : g.Sound
  size : p.bound.size = passed.length
  bound : Binds facts g p.bound
  cover : p.endpoints.Cover g
  inputs : p.endpoints.inputs.map (fun x => (x.name, x.shape)) =
    (passed.filterMap Vertex.supplied?).map fun i => (i.name, i.shape)
  outputs : List.Forall₂ (Endpoint.PutsOut facts) (passed.filterMap Vertex.putOut?)
    p.endpoints.outputs

theorem Progress.sound_empty (facts : Facts) : Progress.empty.Sound facts [] .empty where
  graph := LayerGraph.sound_empty
  size := rfl
  bound _ _ _ hlt := absurd hlt (Nat.not_lt_zero _)
  cover := Endpoints.cover_empty
  inputs := rfl
  outputs := .nil

namespace Progress.Sound

variable {passed : List Vertex} {p : Progress} {v : Vertex}

/-- The tensors of a vertex that is neither an input nor an output. -/
theorem bind (h : p.Sound facts passed g) (hg : g'.Sound) (hgrows : g.Grows g')
    (hinput : v.supplied? = none) (houtput : v.putOut? = none) {tensors : List Tensor}
    (htensors : ∀ o op, facts.find? ⟨passed.length, o⟩ = some op →
      ∃ t, tensors[o]? = some t ∧ t.StandsFor g' op) :
    (p.bind tensors).Sound facts (passed ++ [v]) g' where
  graph := hg
  size := by simp [Progress.bind, h.size]
  bound := h.bound.push (fun _ ho => ho.grows hgrows) (by rwa [h.size])
  cover := h.cover.grows hgrows
  inputs := by simpa [hinput, Progress.bind] using h.inputs
  outputs := by simpa [houtput, Progress.bind] using h.outputs

end Progress.Sound

/-! ### Lowering inputs and outputs -/

section Steps

variable {plan : Plan} {passed : List Vertex} {p : Progress} {v : Vertex}
  {P : Fault → LayerGraph → Prop}

/-- An input becomes a source, and its value gets the handle on it. -/
theorem lowerInput_runs {declared : ModelInput} {layout : Layout} (h : p.Sound facts passed g)
    (hkind : v.kind = .input declared)
    (hvalues : facts.values passed.length = [⟨declared.shape, none⟩])
    (hrank : layout.rank = declared.shape.rank) (scope : String) :
    Runs P g (Plan.lowerInput scope p declared layout) fun p' g' =>
      p'.Sound facts (passed ++ [v]) g' := by
  unfold Plan.lowerInput
  refine (Lowering.add_runs (fun _ ho => absurd ho List.not_mem_nil) rfl
    (Layout.fits_of_rank hrank) _).bind ?_
  rintro _ _ ⟨rfl, rfl⟩
  have hinput : v.supplied? = some declared := by simp [Vertex.supplied?, hkind]
  have houtput : v.putOut? = none := by simp [Vertex.putOut?, hkind]
  refine Runs.pure
    { graph := h.graph.push (g.freshName_notMem _) fun _ ho => absurd ho List.not_mem_nil
      size := by simp [h.size]
      bound := h.bound.push (fun _ ho => ho.push _) fun o op hop => ?_
      cover := h.cover.push_source _ rfl hrank
      inputs := by simp [hinput, h.inputs]
      outputs := by simpa [houtput] using h.outputs }
  -- the vertex has one value, for which the handle stands
  rw [facts.find?_eq, h.size, hvalues] at hop
  match o, hop with
  | 0, hop =>
    obtain rfl := Option.some.inj hop
    exact ⟨_, rfl, ⟨hrank, g.hasOutlet_push_self rfl⟩, rfl, fun c hc => nomatch hc⟩

/-- An output becomes a sink that reads the tensor of its value. -/
theorem lowerOutput_runs {w : Wire} {op : Operand} (h : p.Sound facts passed g)
    (hkind : v.kind = .output) (hinputs : v.inputs = [some w])
    (hvalues : facts.values passed.length = []) (hop : facts.find? w = some op)
    (hlt : w.node < passed.length) (scope : String) :
    Runs (fun f _ => f.At v.header.site) g (Plan.lowerOutput scope p v.header w) fun p' g' =>
      p'.Sound facts (passed ++ [v]) g' := by
  unfold Plan.lowerOutput
  refine Runs.lift_bind (h.bound.tensor_yields hop (h.size ▸ hlt) v.header) fun t ht => ?_
  cases t with
  -- a constant cannot be put out, which is a fault of the model
  | constant c => exact Runs.lift ⟨rfl, rfl, .inl rfl⟩
  | handle x =>
    have hvalid : x.Valid g := ht.valid
    have houtlets : ∀ o ∈ [x.outlet], g.HasOutlet o := fun o ho =>
      List.mem_singleton.1 ho ▸ hvalid.outlet
    refine Runs.get_bind ((Lowering.append_runs houtlets _ _).bind ?_)
    rintro _ _ ⟨rfl, rfl⟩
    have hinput : v.supplied? = none := by simp [Vertex.supplied?, hkind]
    have houtput : v.putOut? = some (v.header.name, w) := by
      simp [Vertex.putOut?, hkind, hinputs]
    have hputs : Endpoint.PutsOut facts (v.header.name, w)
        ⟨v.header.name, g.size, x.shape, x.layout⟩ := ⟨rfl, op, hop, ht.shape⟩
    refine Runs.pure
      { graph := h.graph.push (g.freshName_notMem _) houtlets
        size := by simp [h.size]
        bound := h.bound.push (fun _ ho => ho.push _) fun o op hop => ?_
        cover := h.cover.push_sink _ _ rfl hvalid.rank
        inputs := by simpa [hinput] using h.inputs
        outputs := ?_ }
    · rw [facts.find?_eq, h.size, hvalues] at hop
      cases hop
    · simp only [List.filterMap_append, List.filterMap_cons, houtput, List.filterMap_nil]
      exact List.rel_append h.outputs (.cons hputs .nil)

/-! ### Lowering nodes -/

/-- The tensors that a node reads stand for its operands. -/
theorem Binds.tensors_runs (h : Binds facts g p.bound) {inputs : List (Option Wire)}
    {ops : Operands} (hops : facts.Operands inputs ops)
    (hlt : ∀ w, some w ∈ inputs → w.node < p.bound.size) (header : Header) :
    Runs P g (inputs.mapM fun i => i.mapM fun r => (p.tensor header r : Lowering Tensor))
      fun ts g' =>
        g' = g ∧ List.Forall₂ (Option.Rel fun op t => Tensor.StandsFor g t op) ops ts := by
  induction hops with
  | nil => exact Runs.pure ⟨rfl, .nil⟩
  | @cons i op _ _ hop _ ih =>
    have hone : Runs P g (i.mapM fun r => (p.tensor header r : Lowering Tensor)) fun t g' =>
        g' = g ∧ Option.Rel (fun op t => Tensor.StandsFor g t op) op t := by
      cases hop with
      | none => exact Runs.pure ⟨rfl, .none⟩
      | some hw =>
        have hwire := h.tensor_yields (P := fun f => P f g) hw (hlt _ List.mem_cons_self) header
        exact (Runs.lift_bind hwire fun t ht => Runs.pure ⟨rfl, .some ht⟩)
    rw [List.mapM_cons]
    refine hone.bind ?_
    rintro t _ ⟨rfl, ht⟩
    refine (ih fun w hw => hlt w (List.mem_cons_of_mem _ hw)).bind ?_
    rintro ts _ ⟨rfl, hts⟩
    exact Runs.pure ⟨rfl, .cons ht hts⟩

theorem Operator.lowerOutputs_lowers {op : Operator} {ops : Operands} {s : Shape} {q : Placement}
    (hq : q.Ready g ops s) (hheader : q.header = op.header) (hs : op.outputShape ops = .ok s) :
    Lowers op.header.site g (op.lowerOutputs q) fun ts g' =>
      ∃ t, ts = [t] ∧ Tensor.HasShape s t g' :=
  (op.lower_lowers hq hheader hs).bind fun t _ _ ht => .pure ⟨t, rfl, ht⟩

/-- A node that is not folded becomes layers, whose result has the shape that was inferred. -/
theorem lowerOperator_runs {op : Operator} {ops : Operands} {s : Shape} {layouts : List Layout}
    (h : p.Sound facts passed g) (hkind : v.kind = .operator op) (hheader : v.header = op.header)
    (hops : facts.Operands v.inputs ops) (hs : op.outputShape ops = .ok s)
    (hvalues : facts.values passed.length = [⟨s, none⟩])
    (hlt : ∀ w, some w ∈ v.inputs → w.node < passed.length)
    (hlayouts : ∃ l, layouts = [l] ∧ l.rank = s.rank) (scope : String) :
    Runs (fun f _ => f.At v.header.site) g (Plan.lowerOperator scope p v op [s] layouts)
      fun p' g' => p'.Sound facts (passed ++ [v]) g' := by
  unfold Plan.lowerOperator
  refine (h.bound.tensors_runs hops (h.size ▸ hlt) v.header).bind ?_
  rintro ts g ⟨rfl, hts⟩
  have hlowers := op.lowerOutputs_lowers
    (q := ⟨v.header, ts, [s], layouts, scope ++ v.header.layerName⟩) ⟨hts, rfl, hlayouts⟩ hheader hs
  refine ((hlowers h.graph).mono (fun _ _ hf => (hheader ▸ hf.toAt :)) fun _ _ hq => hq).bind ?_
  rintro _ g' ⟨hsound, hgrows, t, rfl, hvalid, hshape⟩
  -- the number and the shape of what was lowered are checked and found right
  have hagree : ([t].zip [s]).zipIdx.find? (fun e => e.1.1.shape ≠ e.1.2) = none := by
    simp [hshape]
  rw [if_neg (by simp), hagree]
  refine Runs.pure (h.bind hsound hgrows (by simp [Vertex.supplied?, hkind])
    (by simp [Vertex.putOut?, hkind]) fun o op hop => ?_)
  rw [facts.find?_eq, hvalues] at hop
  match o, hop with
  | 0, hop =>
    obtain rfl := Option.some.inj hop
    exact ⟨t, rfl, hvalid, hshape, fun c hc => nomatch hc⟩

/-- Constants and folded nodes need no layer. -/
theorem Progress.Sound.bind_constant {s : Shape} {c : Constant} (h : p.Sound facts passed g)
    (hinput : v.supplied? = none) (houtput : v.putOut? = none) (hshape : c.shape = s)
    (hvalues : facts.values passed.length = [⟨s, some c⟩]) :
    (p.bind ((facts.values passed.length).filterMap fun op =>
      op.constant.map Tensor.constant)).Sound facts (passed ++ [v]) g := by
  refine h.bind h.graph .refl hinput houtput fun o op hop => ?_
  rw [facts.find?_eq, hvalues] at hop
  rw [hvalues]
  match o, hop with
  | 0, hop =>
    obtain rfl := Option.some.inj hop
    exact ⟨.constant c, rfl, trivial, hshape, fun c' hc => congrArg _ (Option.some.inj hc)⟩

end Steps

/-! ### Lowering a plan -/

/-- What planning has found out about the vertex at a position. -/
structure Vertex.Planned (n : Network) (plan : Plan) (i : Nat) (v : Vertex) : Prop where
  header : ∃ u ∈ n.vertices, u.header = v.header
  explains : v.Explains plan.facts (plan.facts.values i)
  inputs : ∀ w, some w ∈ v.inputs → w.node < i ∧ plan.facts.Knows w
  layout : ∀ s, plan.facts.values i = [⟨s, none⟩] →
    ∃ l, plan.layouts.getD i [] = [l] ∧ l.rank = s.rank
  kind : match v.kind with
    | .operator op => v.header = op.header
    | .output => ∃ w, v.inputs = [some w]
    | _ => True

/-- Planning has found it out about every vertex. -/
theorem Plan.Sound.planned {n : Network} {plan : Plan} (h : plan.Sound n) (hn : n.Ordered) {i : Nat}
    {v : Vertex} (hv : plan.network.vertices[i]? = some v) : v.Planned n plan i := by
  obtain ⟨u, state, hu, rfl, hexplains⟩ := h.explained.of_marked hv
  have hplace := hn i u hu
  refine ⟨⟨u, Array.mem_toList_iff.1 (List.mem_of_getElem? hu), rfl⟩, hexplains, fun w hw => ?_,
    fun s => h.layout i s (List.getElem?_eq_some_iff.1 hu).1, ?_⟩
  · obtain ⟨name, u', hu', hname⟩ := hplace.inputs w hw
    have hlt : w.node < i := by
      have := (List.getElem?_eq_some_iff.1 hu').1
      rw [List.length_take] at this
      omega
    rw [List.getElem?_take_of_lt hlt] at hu'
    exact ⟨hlt, h.explained.known w name ⟨u', hu', hname⟩⟩
  · have hkind := hplace.kind
    dsimp only
    split
    · rename_i op hop
      rw [hop] at hkind
      exact hkind.1
    · rename_i hout
      rw [hout] at hkind
      exact hkind.2
    · trivial

namespace Vertex.Explains

variable {v : Vertex} {values : List Operand}

theorem pending (h : v.Explains facts values) (hstate : v.state ≠ .folded) :
    v.state = .pending := by
  unfold Vertex.Explains at h
  split at h
  · exact h.1
  · exact absurd h.1 hstate
  · exact h.1
  · obtain ⟨-, -, -, -, ⟨hpending, -⟩ | ⟨hfolded, -⟩⟩ := h
    · exact hpending
    · exact absurd hfolded hstate

/-- Only constants and nodes are folded. -/
theorem folded (h : v.Explains facts values) (hstate : v.state = .folded) :
    v.supplied? = none ∧ v.putOut? = none ∧
      ∃ (s : Shape) (c : Constant), c.shape = s ∧ values = [⟨s, some c⟩] := by
  unfold Vertex.Explains at h
  split at h
  · rw [hstate] at h
    exact nomatch h.1
  · rename_i c hkind
    exact ⟨by simp [Vertex.supplied?, hkind], by simp [Vertex.putOut?, hkind], _, c, rfl, h.2⟩
  · rw [hstate] at h
    exact nomatch h.1
  · rename_i op hkind
    refine ⟨by simp [Vertex.supplied?, hkind], by simp [Vertex.putOut?, hkind], ?_⟩
    obtain ⟨-, s, -, -, ⟨hpending, -⟩ | ⟨-, c, hshape, hvalues⟩⟩ := h
    · exact absurd (hstate.symm.trans hpending) (by decide)
    · exact ⟨s, c, hshape, hvalues⟩

end Vertex.Explains

namespace Plan

variable {n : Network} {plan : Plan} {passed : List Vertex} {p : Progress} {v : Vertex}

/-- A vertex that is not folded. -/
theorem lowerPending_runs (hv : v.Planned n plan passed.length) (h : p.Sound plan.facts passed g)
    (hstate : v.state ≠ .folded) (scope : String) :
    Runs (fun f _ => f.At v.header.site) g (plan.lowerPending scope p v passed.length)
      fun p' g' => p'.Sound plan.facts (passed ++ [v]) g' := by
  have hexplains := hv.explains
  have hkinds := hv.kind
  unfold lowerPending
  unfold Vertex.Explains at hexplains
  cases hkind : v.kind with
  | input declared =>
    rw [hkind] at hexplains
    obtain ⟨l, hl, hrank⟩ := hv.layout _ hexplains.2
    rw [hl]
    exact lowerInput_runs h hkind hexplains.2 hrank scope
  | constant c =>
    rw [hkind] at hexplains
    exact absurd hexplains.1 hstate
  | output =>
    rw [hkind] at hexplains hkinds
    obtain ⟨w, hinputs⟩ := hkinds
    obtain ⟨hlt, op, hop⟩ := hv.inputs w (by rw [hinputs]; exact List.mem_singleton_self _)
    rw [hinputs]
    exact lowerOutput_runs h hkind hinputs hexplains.2 hop hlt scope
  | operator op =>
    rw [hkind] at hexplains hkinds
    obtain ⟨ops, s, hops, hs, ⟨-, hvalues⟩ | ⟨hfolded, -⟩⟩ := hexplains
    · rw [hvalues]
      exact lowerOperator_runs h hkind hkinds hops hs hvalues (fun w hw => (hv.inputs w hw).1)
        (hv.layout s hvalues) scope
    · exact absurd hfolded hstate

/-- One vertex. -/
theorem lowerVertex_runs (hv : v.Planned n plan passed.length) (h : p.Sound plan.facts passed g)
    (scope : String) :
    Runs (fun f _ => f.At v.header.site) g (plan.lowerVertex scope p (v, passed.length))
      fun p' g' => p'.Sound plan.facts (passed ++ [v]) g' := by
  unfold lowerVertex
  dsimp only
  split
  · rename_i hfolded
    obtain ⟨hinput, houtput, s, c, hshape, hvalues⟩ := hv.explains.folded hfolded
    exact Runs.pure (h.bind_constant hinput houtput hshape hvalues)
  · rename_i hstate
    refine (lowerPending_runs hv h hstate scope).bind fun p' g' hp' => ?_
    have hmove : v.transition .materialized = .ok { v with state := .materialized } := by
      simp [Vertex.transition, hv.explains.pending hstate]
    rw [hmove]
    exact Runs.pure hp'

/-- **All vertices.** Lowering the plan of a network in order fails at the vertices only. -/
theorem lower_runs (h : plan.Sound n) (hn : n.Ordered) (scope : String) :
    Runs (fun f _ => n.Blames f) .empty (plan.lower scope) fun e g =>
      ∃ p : Progress, p.endpoints = e ∧ p.Sound plan.facts plan.network.vertices.toList g := by
  unfold lower
  refine (Runs.foldlM_passed (I := fun passed p g => Progress.Sound plan.facts passed p g) ?_
    (Progress.sound_empty _)).bind fun p g hp => Runs.pure ⟨p, rfl, hp⟩
  intro passed v rest hsplit p g hp
  have hv : plan.network.vertices[passed.length]? = some v := by
    rw [← Array.getElem?_toList, hsplit]
    simp
  have hplanned := h.planned hn hv
  obtain ⟨u, hu, hheader⟩ := hplanned.header
  refine (lowerVertex_runs hplanned hp scope).mono (fun f _ hf => ?_) fun _ _ hq => hq
  exact ⟨u, hu, hheader ▸ hf⟩

end Plan

end Lamina
