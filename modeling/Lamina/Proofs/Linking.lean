import Mathlib
import Lamina.Network
import Lamina.Proofs.Order
import Lamina.Proofs.Outcome

/-!
# Linking: which models have a network, and which network

**Theorem** (`Model.link_spec`): a model whose nodes can all be read has a network iff its names fit
together (`Model.Linkable`). The network is then made of the constants, the supplied inputs, every
node once and the outputs, and each wire leads back to the value of the name that it stands for
(`Model.Linked`). Every failure is one of the description.

Linking adds vertices one at a time to a growing list, so each stage is described by what it appends
and by when it fails. The condition for the nodes is first stated along the order in which they are
visited (`Fits`), as the code checks it, and then turned into the one on the whole model
(`fits_iff_of_perm`). In between, every name known leads to a vertex that declares it
(`Linking.Grounded`).
-/

namespace Lamina

open Relation NodeOrder Search

/-! ### Names -/

/-- The values that a node declares: its outputs that have a name. -/
def Node.declared (n : Node) : List String := n.outputs.filter (· ≠ "")

namespace Model

/-- The names of the constants. -/
def constantNames (m : Model) : List String := m.initializers.map Initializer.name

/-- The names that have a value before any node is visited. -/
def given (m : Model) : List String := m.constantNames ++ m.inputs.map ModelInput.name

/-- The names of the values that nodes declare. -/
def computed (m : Model) : List String := m.nodes.flatMap Node.declared

/-- One node declares a value that another reads. -/
def Produces (m : Model) (p j : Nat) : Prop :=
  ∃ a b name, m.nodes[p]? = some a ∧ m.nodes[j]? = some b ∧ name ∈ a.declared ∧ name ∈ b.inputs

/-- What the names of a model have to satisfy for the model to have a network. -/
structure Linkable (m : Model) (reorder : Bool) : Prop where
  /-- Every constant has its own name. -/
  constants : m.constantNames.Nodup
  /-- Every value is declared once. -/
  computed : m.computed.Nodup
  /-- No node declares a value that is given. -/
  fresh : ∀ name ∈ m.computed, name ∉ m.given
  /-- Nodes read values that exist. -/
  inputs : ∀ n ∈ m.nodes, ∀ name ∈ n.inputs, name ≠ "" → name ∈ m.given ∨ name ∈ m.computed
  /-- The outputs of the model are values that exist. -/
  outputs : ∀ name ∈ m.outputs, name ∈ m.given ∨ name ∈ m.computed
  /-- Nodes come after the nodes that they read from, or can be brought into such an order. -/
  order : if reorder then ∀ p, ¬ TransGen m.Produces p p else ∀ p j, m.Produces p j → p < j

/-- The inputs that are supplied at run time: the first of each name that no constant has. -/
def supplied (m : Model) : List ModelInput :=
  (m.inputs.zipIdx.filter fun e => e.1.name ∉ m.constantNames ∧
    e.1.name ∉ (m.inputs.take e.2).map ModelInput.name).map Prod.fst

end Model

/-! ### Vertices and wires -/

/-- A wire leads to a vertex that declares a name at the output in question. An output of a node
that has no name declares nothing. -/
def Declares (vertices : List Vertex) (w : Wire) (name : String) : Prop :=
  ∃ u, vertices[w.node]? = some u ∧ u.outputs[w.output]? = some name ∧
    (u.kind.operator?.isSome → name ≠ "")

/-- What an input of the vertex at position `i` is wired to: nothing if its name is empty, otherwise
the value of its name, at an earlier vertex. -/
def Reads (vertices : List Vertex) (i : Nat) (name : String) : Option Wire → Prop
  | none => name = ""
  | some w => name ≠ "" ∧ w.node < i ∧ Declares vertices w name

namespace Model

/-- The vertex of a constant. -/
def constantVertex (m : Model) (c : Initializer) : Vertex :=
  .fresh ⟨"Initializer", c.name, m.opset⟩ (.constant c.tensor) 0 [c.name]

/-- The vertex of a supplied input. -/
def inputVertex (m : Model) (i : ModelInput) : Vertex :=
  .fresh ⟨"GraphInput", i.name, m.opset⟩ (.input i) 0 [i.name]

/-- The vertex `v.1` at position `v.2` stands for the node at position `p` of the model. -/
def IsNode (m : Model) (registry : Registry) (vertices : List Vertex) (p : Nat)
    (v : Vertex × Nat) : Prop :=
  ∃ n op inputs, m.nodes[p]? = some n ∧ registry.create n m.opset = .ok op ∧
    v.1 = ⟨op.header, .operator op, inputs, n.outputs, .pending⟩ ∧
    List.Forall₂ (Reads vertices v.2) n.inputs inputs

/-- The vertex `v.1` at position `v.2` stands for an output of the model. -/
def IsOutput (m : Model) (vertices : List Vertex) (name : String) (v : Vertex × Nat) : Prop :=
  ∃ w, v.1 = ⟨⟨"GraphOutput", name, m.opset⟩, .output, [some w], [], .pending⟩ ∧
    w.node < v.2 ∧ Declares vertices w name

/-- The vertices of a model whose nodes are visited in an order: constants, supplied inputs, nodes,
outputs. -/
def Linked (m : Model) (registry : Registry) (order : List Nat) (vertices : List Vertex) : Prop :=
  ∃ nodes outputs,
    vertices =
      m.initializers.map m.constantVertex ++ m.supplied.map m.inputVertex ++ nodes ++ outputs ∧
    List.Forall₂ (m.IsNode registry vertices) order
      (nodes.zipIdx (m.initializers.length + m.supplied.length)) ∧
    List.Forall₂ (m.IsOutput vertices) m.outputs
      (outputs.zipIdx (m.initializers.length + m.supplied.length + nodes.length))

end Model

theorem Declares.append {vertices : List Vertex} {w : Wire} {name : String}
    (h : Declares vertices w name) (more : List Vertex) : Declares (vertices ++ more) w name := by
  obtain ⟨u, hu, hname⟩ := h
  exact ⟨u, by rw [List.getElem?_append_left (List.getElem?_eq_some_iff.1 hu).1, hu], hname⟩

theorem Declares.lt {vertices : List Vertex} {w : Wire} {name : String}
    (h : Declares vertices w name) : w.node < vertices.length := by
  obtain ⟨u, hu, -⟩ := h
  exact (List.getElem?_eq_some_iff.1 hu).1

theorem Reads.append {vertices : List Vertex} {i : Nat} {name : String} {slot : Option Wire}
    (h : Reads vertices i name slot) (more : List Vertex) :
    Reads (vertices ++ more) i name slot := by
  cases slot with
  | none => exact h
  | some w => exact ⟨h.1, h.2.1, h.2.2.append more⟩

theorem Model.IsNode.append {m : Model} {registry : Registry} {vertices : List Vertex} {p : Nat}
    {v : Vertex × Nat} (h : m.IsNode registry vertices p v) (more : List Vertex) :
    m.IsNode registry (vertices ++ more) p v := by
  obtain ⟨n, op, inputs, hn, hop, hv, hreads⟩ := h
  exact ⟨n, op, inputs, hn, hop, hv, hreads.imp fun _ _ h => h.append more⟩

/-- Wiring the first input that is not wired yet. -/
theorem Vertex.bindInput_next (header : Header) (kind : VertexKind)
    (bound rest : List (Option Wire)) (outputs : List String) (state : VertexState) (w : Wire) :
    bindInput ⟨header, kind, bound ++ none :: rest, outputs, state⟩ bound.length w =
      .ok ⟨header, kind, bound ++ some w :: rest, outputs, state⟩ := by
  simp [bindInput]

/-! ### Growing a network -/

namespace Linking

/-- The names that have a value so far. -/
def names (l : Linking) : List String := l.producers.map Prod.fst

/-- Every value so far is declared by the vertex it is said to come from. -/
def Grounded (l : Linking) : Prop :=
  ∀ name w, l.find? name = some w → Declares l.vertices.toList w name

theorem find?_eq_none {l : Linking} {name : String} : l.find? name = none ↔ name ∉ l.names := by
  simp only [find?, names, List.lookup_eq_none_iff, List.mem_map, bne_iff_ne, ne_eq, not_exists,
    not_and]
  exact ⟨fun h p hp heq => h p hp heq.symm, fun h p hp heq => h p hp heq.symm⟩

theorem mem_names_of_find? {l : Linking} {name : String} {w : Wire} (h : l.find? name = some w) :
    name ∈ l.names := by
  by_contra hout
  rw [find?_eq_none.2 hout] at h
  cases h

theorem find?_cons {vertices : Array Vertex} {producers : List (String × Wire)}
    {name name' : String} {v w : Wire}
    (h : find? ⟨vertices, (name, v) :: producers⟩ name' = some w) :
    (name' = name ∧ w = v) ∨ find? ⟨vertices, producers⟩ name' = some w := by
  unfold find? at h ⊢
  rw [List.lookup_cons] at h
  split at h
  · rename_i heq
    exact .inl ⟨eq_of_beq heq, (Option.some.inj h).symm⟩
  · exact .inr h

theorem grounded_empty : empty.Grounded := by
  intro name w h
  simp [empty, find?] at h

/-- A vertex that declares one value leads from its name to itself. -/
theorem Grounded.declare {l : Linking} (h : l.Grounded) (header : Header) {kind : VertexKind}
    (hkind : kind.operator? = none) : (l.declare header kind).Grounded := by
  intro name w hw
  rcases find?_cons hw with ⟨rfl, rfl⟩ | hw
  · refine ⟨.fresh header kind 0 [header.name], by simp [Linking.declare], rfl, ?_⟩
    simp [Vertex.fresh, hkind]
  · have := (h name w hw).append [.fresh header kind 0 [header.name]]
    simpa [Linking.declare] using this

@[simp] theorem names_declare (l : Linking) (header : Header) (kind : VertexKind) :
    (l.declare header kind).names = header.name :: l.names := rfl

/-- New names one after another: each differs from those known before it. -/
theorem fresh_cons_iff {name : String} {names known : List String} (hnew : name ∉ known) :
    ((name :: names).Nodup ∧ ∀ d ∈ name :: names, d ∉ known) ↔
      names.Nodup ∧ ∀ d ∈ names, d ∉ name :: known := by
  rw [List.forall_mem_cons, List.nodup_cons]
  simp only [List.mem_cons, not_or]
  constructor
  · rintro ⟨⟨hout, hnodup⟩, -, hrest⟩
    exact ⟨hnodup, fun d hd => ⟨fun heq => hout (heq ▸ hd), hrest d hd⟩⟩
  · rintro ⟨hnodup, hrest⟩
    exact ⟨⟨fun hin => (hrest name hin).1 rfl, hnodup⟩, hnew, fun d hd => (hrest d hd).2⟩

/-! ### Constants and inputs -/

/-- Constants are added one by one as long as their names are new. -/
theorem addConstant_foldlM (m : Model) (l : Linking) (cs : List Initializer) (hl : l.Grounded) :
    Yields (fun f => f.kind = .malformed ∧
        ¬ ((cs.map Initializer.name).Nodup ∧ ∀ name ∈ cs.map Initializer.name, name ∉ l.names))
      (cs.foldlM (addConstant m.opset) l)
      fun l' => ((cs.map Initializer.name).Nodup ∧
          ∀ name ∈ cs.map Initializer.name, name ∉ l.names) ∧ l'.Grounded ∧
        l'.vertices.toList = l.vertices.toList ++ cs.map m.constantVertex ∧
        ∀ name, name ∈ l'.names ↔ name ∈ cs.map Initializer.name ∨ name ∈ l.names := by
  induction cs generalizing l with
  | nil => exact .pure (by simpa using hl)
  | cons c cs ih =>
    rw [List.foldlM_cons]
    cases hfind : l.find? c.name with
    | some w =>
      have hadd : addConstant m.opset l c =
          .error ⟨⟨"Initializer", c.name⟩, .network .initializerTwice⟩ := by
        simp only [addConstant, hfind]
        rfl
      rw [hadd]
      refine ⟨rfl, fun h => ?_⟩
      exact h.2 c.name List.mem_cons_self (mem_names_of_find? hfind)
    | none =>
      have hadd : addConstant m.opset l c =
          .ok (l.declare ⟨"Initializer", c.name, m.opset⟩ (.constant c.tensor)) := by
        simp only [addConstant, hfind]
      rw [hadd, List.map_cons, fresh_cons_iff (find?_eq_none.1 hfind)]
      refine (ih _ (hl.declare _ rfl)).imp fun l' ⟨hok, hground, hvertices, hnames⟩ => ?_
      refine ⟨hok, hground, ?_, fun name => ?_⟩
      · rw [hvertices]
        simp [Linking.declare, Model.constantVertex]
      · rw [hnames]
        simp only [names_declare, List.mem_cons]
        tauto

/-- Inputs are added unless their name is known already. -/
theorem addInput_foldl (m : Model) (l : Linking) (rest passed : List ModelInput)
    (hinputs : m.inputs = passed ++ rest) (hl : l.Grounded)
    (hnames : ∀ name, name ∈ l.names ↔
      name ∈ m.constantNames ∨ name ∈ passed.map ModelInput.name) :
    let l' := rest.foldl (addInput m.opset) l
    l'.Grounded ∧ (∀ name, name ∈ l'.names ↔ name ∈ m.given) ∧
      l'.vertices.toList = l.vertices.toList ++
        (((rest.zipIdx passed.length).filter fun e => e.1.name ∉ m.constantNames ∧
          e.1.name ∉ (m.inputs.take e.2).map ModelInput.name).map Prod.fst).map m.inputVertex := by
  induction rest generalizing l passed with
  | nil =>
    refine ⟨hl, fun name => ?_, by simp⟩
    rw [List.foldl_nil, hnames, Model.given, List.mem_append, hinputs, List.append_nil]
  | cons i rest ih =>
    have htake : m.inputs.take passed.length = passed := by rw [hinputs, List.take_left]
    have hnext : m.inputs = (passed ++ [i]) ++ rest := by rw [hinputs, List.append_assoc]; rfl
    have hlength : (passed ++ [i]).length = passed.length + 1 := by simp
    simp only [List.foldl_cons, List.zipIdx_cons, List.filter_cons, htake]
    cases hfind : l.find? i.name with
    | some w =>
      have hadd : addInput m.opset l i = l := by simp only [addInput, hfind]
      have hknown := (hnames _).1 (mem_names_of_find? hfind)
      rw [hadd, if_neg (by simpa [-List.mem_map, imp_iff_not_or, or_comm] using hknown),
        ← hlength]
      refine ih l (passed ++ [i]) hnext hl fun name => ?_
      rw [hnames, List.map_append, List.mem_append, List.map_singleton, List.mem_singleton]
      constructor
      · tauto
      · rintro (h | h | rfl)
        exacts [.inl h, .inr h, hknown]
    | none =>
      have hadd : addInput m.opset l i = l.declare ⟨"GraphInput", i.name, m.opset⟩ (.input i) := by
        simp only [addInput, hfind]
      have hnew := mt (hnames i.name).2 (find?_eq_none.1 hfind)
      rw [hadd, if_pos (by simpa [-List.mem_map, not_or] using hnew), ← hlength]
      obtain ⟨hground, hnames', hvertices⟩ :=
        ih _ (passed ++ [i]) hnext
          (hl.declare ⟨"GraphInput", i.name, m.opset⟩ (rfl : (VertexKind.input i).operator? = none))
          fun name => by
            rw [names_declare, List.mem_cons, hnames, List.map_append, List.mem_append,
              List.map_singleton, List.mem_singleton]
            tauto
      refine ⟨hground, hnames', hvertices.trans ?_⟩
      simp [Linking.declare, Model.inputVertex]

/-! ### Nodes -/

/-- What an input is wired to according to the values known so far. -/
def Resolves (l : Linking) (name : String) : Option Wire → Prop
  | none => name = ""
  | some w => name ≠ "" ∧ l.find? name = some w

theorem resolve_yields (l : Linking) (declared : String → Bool) (n : Node) (name : String) :
    Yields (fun f => f.kind = .malformed ∧ name ≠ "" ∧ name ∉ l.names)
      (l.resolve declared n name) (l.Resolves name) := by
  unfold resolve
  by_cases hname : name = ""
  · rw [if_pos hname]
    exact hname
  · rw [if_neg hname]
    cases hfind : l.find? name with
    | some w => exact ⟨hname, hfind⟩
    | none =>
      have hnew := find?_eq_none.1 hfind
      dsimp only
      split
      · exact ⟨rfl, hname, hnew⟩
      · exact ⟨rfl, hname, hnew⟩

/-- Wiring the inputs of a node fills its inputs one after another. `bound` are those already
wired. -/
theorem bindName_foldlM (l : Linking) (declared : String → Bool) (n : Node) (header : Header)
    (kind : VertexKind) (outputs names : List String) (bound : List (Option Wire)) :
    Yields (fun f => f.kind = .malformed ∧ ∃ name ∈ names, name ≠ "" ∧ name ∉ l.names)
      ((names.zipIdx bound.length).foldlM (l.bindName declared n)
        ⟨header, kind, bound ++ List.replicate names.length none, outputs, .pending⟩)
      fun v => ∃ inputs, v = ⟨header, kind, bound ++ inputs, outputs, .pending⟩ ∧
        List.Forall₂ l.Resolves names inputs := by
  induction names generalizing bound with
  | nil => exact .pure ⟨[], rfl, .nil⟩
  | cons name names ih =>
    rw [List.zipIdx_cons, List.foldlM_cons, List.length_cons, List.replicate_succ]
    -- the vertex after this input is wired
    have hstep : Yields (fun f => f.kind = .malformed ∧ name ≠ "" ∧ name ∉ l.names)
        (l.bindName declared n
          ⟨header, kind, bound ++ none :: List.replicate names.length none, outputs, .pending⟩
          (name, bound.length))
        fun v => ∃ slot, l.Resolves name slot ∧
          v = ⟨header, kind, (bound ++ [slot]) ++ List.replicate names.length none, outputs,
            .pending⟩ := by
      unfold bindName
      refine (l.resolve_yields declared n name).bind fun slot hslot => ?_
      cases slot with
      | none => exact .pure ⟨none, hslot, by simp⟩
      | some w => exact .of_eq_ok (Vertex.bindInput_next ..) ⟨some w, hslot, by simp⟩
    refine (hstep.mono (fun f hf => ⟨hf.1, name, List.mem_cons_self, hf.2⟩)
      fun _ h => h).bind fun v ⟨slot, hslot, hv⟩ => ?_
    have hlength : bound.length + 1 = (bound ++ [slot]).length := by simp
    rw [hv, hlength]
    refine (ih (bound ++ [slot])).mono ?_ ?_
    · rintro f ⟨hkind, name', hmem, hname'⟩
      exact ⟨hkind, name', List.mem_cons_of_mem _ hmem, hname'⟩
    · rintro v ⟨inputs, rfl, hinputs⟩
      exact ⟨slot :: inputs, by simp, .cons hslot hinputs⟩

/-- Declaring the outputs of a node adds their names, which have to be new. -/
theorem addOutput_foldlM (n : Node) (vertex : Nat) (l : Linking) (outputs : List String) (k : Nat) :
    Yields (fun f => f.kind = .malformed ∧ ¬ ((outputs.filter (· ≠ "")).Nodup ∧
        ∀ name ∈ outputs.filter (· ≠ ""), name ∉ l.names))
      ((outputs.zipIdx k).foldlM (addOutput n vertex) l)
      fun l' => ((outputs.filter (· ≠ "")).Nodup ∧
          ∀ name ∈ outputs.filter (· ≠ ""), name ∉ l.names) ∧
        l'.vertices = l.vertices ∧
        (∀ name, name ∈ l'.names ↔ name ∈ outputs.filter (· ≠ "") ∨ name ∈ l.names) ∧
        ∀ name w, l'.find? name = some w → l.find? name = some w ∨
          ∃ j, w = ⟨vertex, k + j⟩ ∧ outputs[j]? = some name ∧ name ≠ "" := by
  induction outputs generalizing l k with
  | nil => exact .pure (by simp)
  | cons name outputs ih =>
    rw [List.zipIdx_cons, List.foldlM_cons]
    -- an output of the rest is one of the whole
    have hshift : ∀ {w : Wire} {name' : String},
        (∃ j, w = ⟨vertex, k + 1 + j⟩ ∧ outputs[j]? = some name' ∧ name' ≠ "") →
        ∃ j, w = ⟨vertex, k + j⟩ ∧ (name :: outputs)[j]? = some name' ∧ name' ≠ "" := by
      rintro w name' ⟨j, rfl, hj, hne⟩
      exact ⟨j + 1, by rw [Nat.add_right_comm, Nat.add_assoc], by simpa using hj, hne⟩
    by_cases hname : name = ""
    · have hadd : addOutput n vertex l (name, k) = .ok l := by simp [addOutput, hname]
      have hfilter : (name :: outputs).filter (· ≠ "") = outputs.filter (· ≠ "") := by
        simp [hname]
      rw [hadd, hfilter]
      refine (ih l (k + 1)).imp fun l' ⟨hok, hvertices, hnames, hfind⟩ => ?_
      exact ⟨hok, hvertices, hnames, fun name' w hw => (hfind name' w hw).imp_right hshift⟩
    · have hfilter : (name :: outputs).filter (· ≠ "") = name :: outputs.filter (· ≠ "") := by
        simp [hname]
      rw [hfilter]
      cases hfind : l.find? name with
      | some w =>
        have hadd : addOutput n vertex l (name, k) =
            .error ⟨n.site, .network (.definedTwice name)⟩ := by
          simp only [addOutput, if_neg hname, hfind]
          rfl
        rw [hadd]
        exact ⟨rfl, fun h => h.2 name List.mem_cons_self (mem_names_of_find? hfind)⟩
      | none =>
        have hadd : addOutput n vertex l (name, k) =
            .ok ⟨l.vertices, (name, ⟨vertex, k⟩) :: l.producers⟩ := by
          simp only [addOutput, if_neg hname, hfind]
        rw [hadd, fresh_cons_iff (find?_eq_none.1 hfind)]
        refine (ih _ (k + 1)).imp fun l' ⟨hok, hvertices, hnames, hfind'⟩ => ?_
        refine ⟨hok, hvertices, fun d => ?_, fun d w hw => ?_⟩
        · rw [hnames, List.mem_cons]
          change _ ∨ d ∈ name :: l.names ↔ _
          rw [List.mem_cons]
          tauto
        · rcases hfind' d w hw with hw | hw
          · rcases find?_cons hw with ⟨rfl, rfl⟩ | hw
            · exact .inr ⟨0, rfl, rfl, hname⟩
            · exact .inl hw
          · exact .inr (hshift hw)

/-- What the names of a node have to satisfy where it is visited: the values it reads are known,
those it declares are new. -/
structure NodeFits (known : List String) (n : Node) : Prop where
  /-- It reads what is known. -/
  inputs : ∀ name ∈ n.inputs, name ≠ "" → name ∈ known
  /-- It declares no value twice. -/
  nodup : n.declared.Nodup
  /-- It declares what is not known. -/
  fresh : ∀ name ∈ n.declared, name ∉ known

/-- Adding a node appends its vertex, wired to the values known so far. -/
theorem addNode_yields (l : Linking) (declared : String → Bool) (n : Node) (op : Operator)
    (hl : l.Grounded) :
    Yields (fun f => f.kind = .malformed ∧ ¬ NodeFits l.names n) (l.addNode declared n op)
      fun l' => NodeFits l.names n ∧ l'.Grounded ∧
        (∀ name, name ∈ l'.names ↔ name ∈ n.declared ∨ name ∈ l.names) ∧
        ∃ inputs, l'.vertices.toList =
            l.vertices.toList ++ [⟨op.header, .operator op, inputs, n.outputs, .pending⟩] ∧
          List.Forall₂ (Reads l.vertices.toList l.vertices.size) n.inputs inputs := by
  unfold addNode
  refine ((l.bindName_foldlM declared n op.header (.operator op) n.outputs n.inputs []).mono
    (fun f ⟨hkind, name, hmem, hname, hout⟩ =>
      ⟨hkind, fun h => hout (h.inputs name hmem hname)⟩) fun _ h => h).bind ?_
  rintro v ⟨inputs, rfl, hinputs⟩
  have hknown : ∀ name ∈ n.inputs, name ≠ "" → name ∈ l.names := by
    intro name hmem hname
    obtain ⟨slot, -, hslot⟩ := forall₂_mem_left hinputs hmem
    cases slot with
    | none => exact absurd hslot hname
    | some w => exact mem_names_of_find? hslot.2
  refine (addOutput_foldlM n l.vertices.size _ n.outputs 0).mono
    (fun f ⟨hkind, hbad⟩ => ⟨hkind, fun h => hbad ⟨h.nodup, h.fresh⟩⟩) ?_
  rintro l' ⟨⟨hnodup, hfresh⟩, hvertices, hnames, hfind⟩
  have hlist : l'.vertices.toList = l.vertices.toList ++
      [⟨op.header, .operator op, inputs, n.outputs, .pending⟩] := by
    rw [hvertices]
    simp [push]
  refine ⟨⟨hknown, hnodup, hfresh⟩, fun name w hw => ?_, hnames, inputs, hlist, ?_⟩
  · rw [hlist]
    rcases hfind name w hw with hw | ⟨j, rfl, hj, hne⟩
    · exact (hl name w hw).append _
    · refine ⟨⟨op.header, .operator op, inputs, n.outputs, .pending⟩, by simp, ?_, fun _ => hne⟩
      simpa using hj
  · refine hinputs.imp fun name slot hslot => ?_
    cases slot with
    | none => exact hslot
    | some w =>
      have hw := hl name w hslot.2
      exact ⟨hslot.1, by simpa using hw.lt, hw⟩

/-- The values that the node at a position declares. -/
def declaredAt (nodes : List Node) (p : Nat) : List String := (nodes[p]?).elim [] Node.declared

theorem declaredAt_of_some {nodes : List Node} {p : Nat} {n : Node} (h : nodes[p]? = some n) :
    declaredAt nodes p = n.declared := by
  rw [declaredAt, h]
  rfl

/-- The condition on the nodes along the order in which they are visited. -/
def Fits (nodes : List Node) (known : List String) : List Nat → Prop
  | [] => True
  | p :: order =>
    ∃ n, nodes[p]? = some n ∧ NodeFits known n ∧ Fits nodes (n.declared ++ known) order

/-- Visiting nodes appends their vertices. No node is met twice, so each finds its operator. -/
theorem visit_foldlM (m : Model) (registry : Registry) (order : List Nat) (hnodup : order.Nodup)
    (l : Linking) (operators : List (Option Operator)) (known : List String)
    (hops : ∀ p ∈ order, ∃ n op, m.nodes[p]? = some n ∧ operators[p]? = some (some op) ∧
      registry.create n m.opset = .ok op)
    (hl : l.Grounded) (hknown : ∀ name, name ∈ l.names ↔ name ∈ known) :
    Yields (fun f => f.kind = .malformed ∧ ¬ Fits m.nodes known order)
      (order.foldlM (visit m.declares m.nodes) (l, operators))
      fun s => Fits m.nodes known order ∧ s.1.Grounded ∧
        (∀ name, name ∈ s.1.names ↔ name ∈ order.flatMap (declaredAt m.nodes) ∨ name ∈ known) ∧
        ∃ added, s.1.vertices.toList = l.vertices.toList ++ added ∧
          List.Forall₂ (m.IsNode registry s.1.vertices.toList) order
            (added.zipIdx l.vertices.size) := by
  induction order generalizing l operators known with
  | nil =>
    refine .pure ⟨trivial, hl, fun name => ?_, [], by simp, .nil⟩
    simp [hknown]
  | cons p order ih =>
    obtain ⟨hp, hnodup⟩ := List.nodup_cons.1 hnodup
    obtain ⟨n, op, hn, hop, hcreate⟩ := hops p List.mem_cons_self
    have hfits : NodeFits l.names n ↔ NodeFits known n := by
      constructor
      · exact fun h => ⟨fun name hm hne => (hknown name).1 (h.inputs name hm hne), h.nodup,
          fun name hm hin => h.fresh name hm ((hknown name).2 hin)⟩
      · exact fun h => ⟨fun name hm hne => (hknown name).2 (h.inputs name hm hne), h.nodup,
          fun name hm hin => h.fresh name hm ((hknown name).1 hin)⟩
    have hvisit : visit m.declares m.nodes (l, operators) p =
        (do return (← l.addNode m.declares n op, operators.set p none)) := by
      simp only [visit, hn, hop, Option.join_some]
    have hcons : Fits m.nodes known (p :: order) ↔
        NodeFits known n ∧ Fits m.nodes (n.declared ++ known) order := by
      simp [Fits, hn]
    rw [List.foldlM_cons, hvisit, bind_assoc, hcons]
    refine ((l.addNode_yields m.declares n op hl).mono
      (fun f ⟨hkind, hbad⟩ => ⟨hkind, fun h => hbad (hfits.2 h.1)⟩) fun _ h => h).bind ?_
    rintro l₁ ⟨hnode, hl₁, hnames₁, inputs, hlist₁, hreads⟩
    have hsize : l₁.vertices.size = l.vertices.size + 1 := by
      rw [← Array.length_toList, hlist₁]
      simp
    refine ((ih hnodup l₁ (operators.set p none) (n.declared ++ known) ?_ hl₁ ?_).mono
      (fun f ⟨hkind, hbad⟩ => ⟨hkind, fun h => hbad h.2⟩) ?_)
    · intro q hq
      obtain ⟨n', op', hn', hop', hcreate'⟩ := hops q (List.mem_cons_of_mem _ hq)
      refine ⟨n', op', hn', ?_, hcreate'⟩
      rw [List.getElem?_set_ne (fun (heq : p = q) => hp (heq ▸ hq)), hop']
    · intro name
      rw [hnames₁, hknown, List.mem_append]
    · rintro s ⟨hrest, hs, hnames, added, hlist, hnodes⟩
      let v : Vertex := ⟨op.header, .operator op, inputs, n.outputs, .pending⟩
      refine ⟨⟨hfits.1 hnode, hrest⟩, hs, fun name => ?_, v :: added, ?_, .cons ?_ ?_⟩
      · rw [hnames, List.mem_append, List.flatMap_cons, List.mem_append, declaredAt_of_some hn]
        tauto
      · rw [hlist, hlist₁]
        simp [v]
      · rw [hlist, hlist₁]
        refine ⟨n, op, inputs, hn, hcreate, rfl, hreads.imp fun _ _ h => ?_⟩
        exact (h.append _).append _
      · rw [← hsize]
        exact hnodes

/-! ### Outputs -/

/-- Adding the outputs of the model appends their vertices, provided that each has a value. -/
theorem addModelOutput_foldlM (m : Model) (l : Linking) (outputs : List String) (hl : l.Grounded) :
    Yields (fun f => f.kind = .malformed ∧ ¬ ∀ name ∈ outputs, name ∈ l.names)
      (outputs.foldlM (addModelOutput m.opset) l)
      fun l' => (∀ name ∈ outputs, name ∈ l.names) ∧
        ∃ added, l'.vertices.toList = l.vertices.toList ++ added ∧
          List.Forall₂ (m.IsOutput l'.vertices.toList) outputs
            (added.zipIdx l.vertices.size) := by
  induction outputs generalizing l with
  | nil => exact .pure ⟨by simp, [], by simp, .nil⟩
  | cons name outputs ih =>
    rw [List.foldlM_cons, List.forall_mem_cons]
    cases hfind : l.find? name with
    | none =>
      have hadd : addModelOutput m.opset l name =
          .error ⟨⟨"GraphOutput", name⟩, .network (.outputNotDefined name)⟩ := by
        simp only [addModelOutput, hfind]
        rfl
      rw [hadd]
      exact ⟨rfl, fun h => find?_eq_none.1 hfind h.1⟩
    | some w =>
      let v : Vertex := ⟨⟨"GraphOutput", name, m.opset⟩, .output, [some w], [], .pending⟩
      have hadd : addModelOutput m.opset l name = .ok (l.push v) := by
        simp only [addModelOutput, hfind]
        rfl
      have hw := hl name w hfind
      have hlist : (l.push v).vertices.toList = l.vertices.toList ++ [v] := by simp [push]
      have hsize : (l.push v).vertices.size = l.vertices.size + 1 := by simp [push]
      have hground : (l.push v).Grounded := by
        intro name' w' hw'
        rw [hlist]
        exact (hl name' w' hw').append [v]
      rw [hadd]
      refine (ih (l.push v) hground).mono (fun f ⟨hkind, hbad⟩ => ⟨hkind, fun h => hbad h.2⟩) ?_
      rintro l' ⟨hrest, added, hlist', houtputs⟩
      rw [hsize] at houtputs
      refine ⟨⟨mem_names_of_find? hfind, hrest⟩, v :: added, ?_, .cons ⟨w, rfl, ?_, ?_⟩ houtputs⟩
      · rw [hlist', hlist]
        simp
      · simpa using hw.lt
      · rw [hlist', hlist]
        exact (hw.append _).append _

end Linking

/-! ### The condition on the nodes, without the order of visits -/

open Linking

/-- The condition along an order: every value is new where it is declared, and every value that is
read is known or declared in front. -/
theorem fits_iff {nodes : List Node} {known : List String} {order : List Nat}
    (horder : ∀ p ∈ order, p < nodes.length) :
    Fits nodes known order ↔
      (order.flatMap (declaredAt nodes)).Nodup ∧
      (∀ name ∈ order.flatMap (declaredAt nodes), name ∉ known) ∧
      ∀ front j back n, order = front ++ j :: back → nodes[j]? = some n →
        ∀ name ∈ n.inputs, name ≠ "" → name ∈ known ∨ name ∈ front.flatMap (declaredAt nodes) := by
  induction order generalizing known with
  | nil => simp [Fits]
  | cons p order ih =>
    obtain ⟨n, hn⟩ : ∃ n, nodes[p]? = some n :=
      ⟨_, List.getElem?_eq_getElem (horder p List.mem_cons_self)⟩
    have hcons : Fits nodes known (p :: order) ↔
        NodeFits known n ∧ Fits nodes (n.declared ++ known) order := by
      simp [Fits, hn]
    rw [hcons, ih fun q hq => horder q (List.mem_cons_of_mem _ hq), List.flatMap_cons,
      declaredAt_of_some hn, List.nodup_append']
    constructor
    · rintro ⟨hfits, hnodup, hfresh, hreads⟩
      refine ⟨⟨hfits.nodup, hnodup, fun name hname hname' => ?_⟩, fun name hname => ?_, ?_⟩
      · exact hfresh name hname' (List.mem_append_left _ hname)
      · rcases List.mem_append.1 hname with hname | hname
        · exact hfits.fresh name hname
        · exact fun hin => hfresh name hname (List.mem_append_right _ hin)
      · intro front j back n' hsplit hn' name hname hne
        cases front with
        | nil =>
          obtain ⟨rfl, rfl⟩ := List.cons.inj hsplit
          obtain rfl := Option.some.inj (hn.symm.trans hn')
          exact .inl (hfits.inputs name hname hne)
        | cons q front =>
          obtain ⟨rfl, rfl⟩ := List.cons.inj hsplit
          rw [List.flatMap_cons, declaredAt_of_some hn, List.mem_append]
          have := hreads front j back n' rfl hn' name hname hne
          rw [List.mem_append] at this
          tauto
    · rintro ⟨⟨hnodup, hnodup', hdisjoint⟩, hfresh, hreads⟩
      refine ⟨⟨fun name hname hne => ?_, hnodup, fun name hname => ?_⟩, hnodup', ?_, ?_⟩
      · have := hreads [] p order n rfl hn name hname hne
        simpa using this
      · exact hfresh name (List.mem_append_left _ hname)
      · intro name hname hin
        rcases List.mem_append.1 hin with hin | hin
        · exact hdisjoint hin hname
        · exact hfresh name (List.mem_append_right _ hname) hin
      · intro front j back n' hsplit hn' name hname hne
        have := hreads (p :: front) j back n' (by rw [hsplit]; rfl) hn' name hname hne
        rw [List.flatMap_cons, declaredAt_of_some hn, List.mem_append] at this
        rw [List.mem_append]
        tauto

theorem flatMap_declaredAt_range (nodes : List Node) :
    (List.range nodes.length).flatMap (declaredAt nodes) = nodes.flatMap Node.declared := by
  induction nodes using List.reverseRecOn with
  | nil => rfl
  | append_singleton nodes n ih =>
    have hlast : declaredAt (nodes ++ [n]) nodes.length = n.declared :=
      declaredAt_of_some (by simp)
    have hfront : (List.range nodes.length).flatMap (declaredAt (nodes ++ [n])) =
        (List.range nodes.length).flatMap (declaredAt nodes) := by
      refine List.flatMap_congr fun p hp => ?_
      rw [declaredAt, declaredAt, List.getElem?_append_left (List.mem_range.1 hp)]
    rw [List.length_append, List.length_singleton, List.range_succ, List.flatMap_append, hfront, ih,
      List.flatMap_append]
    simp [hlast]

theorem flatMap_declaredAt_perm {nodes : List Node} {order : List Nat}
    (horder : order.Perm (List.range nodes.length)) :
    (order.flatMap (declaredAt nodes)).Perm (nodes.flatMap Node.declared) := by
  rw [← flatMap_declaredAt_range]
  exact horder.flatMap_right _

theorem before_range {n p j : Nat} : Before (List.range n) p j ↔ p < j ∧ j < n := by
  constructor
  · intro h
    have hlt : [p, j].Pairwise (· < ·) := List.pairwise_lt_range.sublist h
    have hj : j ∈ List.range n := h.subset (by simp)
    exact ⟨by simpa using hlt, List.mem_range.1 hj⟩
  · rintro ⟨hp, hj⟩
    obtain ⟨k, rfl⟩ := Nat.exists_eq_add_of_le (Nat.succ_le_of_lt hj)
    rw [List.range_add, Nat.succ_eq_add_one, List.range_succ]
    exact (before_of_mem_left (List.mem_range.2 hp)).append

theorem mem_of_before {order front back : List Nat} {p j : Nat} (hnodup : order.Nodup)
    (hsplit : order = front ++ j :: back) (h : Before order p j) : p ∈ front := by
  have hlt := h.idxOf_lt hnodup
  rw [hsplit] at hnodup hlt
  have hj : j ∉ front := fun hj =>
    (List.nodup_append'.1 hnodup).2.2 hj List.mem_cons_self
  by_contra hp
  rw [List.idxOf_append_of_notMem hp, List.idxOf_append_of_notMem hj, List.idxOf_cons_self] at hlt
  omega

/-- Entries of a list that no two of its entries stand in relation are at one position if they
do. -/
theorem index_unique {α : Type} {S : α → α → Prop} (hsymm : ∀ a b, S a b → S b a) {l : List α}
    (h : l.Pairwise fun a b => ¬ S a b) {i j : Nat} {a b : α} (hi : l[i]? = some a)
    (hj : l[j]? = some b) (hab : S a b) : i = j := by
  rw [List.pairwise_iff_getElem] at h
  obtain ⟨hi', rfl⟩ := List.getElem?_eq_some_iff.1 hi
  obtain ⟨hj', rfl⟩ := List.getElem?_eq_some_iff.1 hj
  rcases lt_trichotomy i j with hlt | heq | hlt
  · exact absurd hab (h i j hi' hj' hlt)
  · exact heq
  · exact absurd (hsymm _ _ hab) (h j i hj' hi' hlt)

/-- If no two entries have something in common, what an entry has tells its position. -/
theorem index_unique_of_nodup {α β : Type} {f : α → List β} {l : List α} (h : (l.flatMap f).Nodup)
    {i j : Nat} {a b : α} {x : β} (hi : l[i]? = some a) (hj : l[j]? = some b) (ha : x ∈ f a)
    (hb : x ∈ f b) : i = j := by
  have hdisjoint := (List.nodup_flatMap.1 h).2
  apply index_unique (S := fun a b => ∃ x, x ∈ f a ∧ x ∈ f b) _ _ hi hj ⟨x, ha, hb⟩
  · rintro a b ⟨x, ha, hb⟩
    exact ⟨x, hb, ha⟩
  · apply hdisjoint.imp
    rintro a b hab ⟨x, ha, hb⟩
    exact hab ha hb

namespace Model

/-- Where every value is declared once, its name tells the node. -/
theorem position_unique {m : Model} (hnodup : m.computed.Nodup) {p q : Nat} {a b : Node}
    {name : String} (hp : m.nodes[p]? = some a) (hq : m.nodes[q]? = some b)
    (ha : name ∈ a.declared) (hb : name ∈ b.declared) : p = q :=
  index_unique_of_nodup hnodup hp hq ha hb

theorem mem_declared {n : Node} {name : String} :
    name ∈ n.declared ↔ name ∈ n.outputs ∧ name ≠ "" := by
  simp [Node.declared]

/-- Where every value is declared once, being its last declaration is being its declaration. -/
theorem feeds_eq_produces {m : Model} (hnodup : m.computed.Nodup) :
    Feeds m.nodes = m.Produces := by
  funext p j
  refine propext ⟨?_, ?_⟩
  · rintro ⟨b, name, hb, hname, hne, ⟨a, ha, hdecl⟩, -⟩
    exact ⟨a, b, name, ha, hb, mem_declared.2 ⟨hdecl, hne⟩, hname⟩
  · rintro ⟨a, b, name, ha, hb, hdecl, hname⟩
    obtain ⟨hdecl', hne⟩ := mem_declared.1 hdecl
    refine ⟨b, name, hb, hname, hne, ⟨a, ha, hdecl'⟩, fun q c hlt hc hout => ?_⟩
    have := position_unique hnodup ha hc hdecl (mem_declared.2 ⟨hout, hne⟩)
    omega

/-- **The condition on the nodes does not depend on how it is checked**: along an order of all nodes
it says that the values fit together and that producers come before their consumers. -/
theorem fits_iff_of_perm {m : Model} {order : List Nat}
    (horder : order.Perm (List.range m.nodes.length)) :
    Fits m.nodes m.given order ↔
      m.computed.Nodup ∧ (∀ name ∈ m.computed, name ∉ m.given) ∧
      (∀ n ∈ m.nodes, ∀ name ∈ n.inputs, name ≠ "" → name ∈ m.given ∨ name ∈ m.computed) ∧
      ∀ p j, m.Produces p j → Before order p j := by
  have hperm : (order.flatMap (declaredAt m.nodes)).Perm m.computed :=
    flatMap_declaredAt_perm horder
  have hnodup : order.Nodup := horder.nodup_iff.2 List.nodup_range
  have hmem : ∀ p, p ∈ order ↔ p < m.nodes.length := fun p => by
    rw [horder.mem_iff, List.mem_range]
  rw [fits_iff fun p hp => (hmem p).1 hp, hperm.nodup_iff]
  simp only [hperm.mem_iff]
  refine and_congr_right fun hcomputed => and_congr_right fun hfresh => ⟨fun hreads => ⟨?_, ?_⟩, ?_⟩
  · intro n hn name hname hne
    obtain ⟨j, hj, rfl⟩ := List.mem_iff_getElem.1 hn
    obtain ⟨front, back, hsplit⟩ := List.append_of_mem ((hmem j).2 hj)
    refine (hreads front j back _ hsplit (List.getElem?_eq_getElem hj) name hname hne).imp_right
      fun hin => hperm.subset ?_
    rw [hsplit, List.flatMap_append]
    exact List.mem_append_left _ hin
  · rintro p j ⟨a, b, name, ha, hb, hdecl, hname⟩
    have hj := (hmem j).2 (List.getElem?_eq_some_iff.1 hb).1
    obtain ⟨front, back, hsplit⟩ := List.append_of_mem hj
    have hcomp : name ∈ m.computed :=
      List.mem_flatMap.2 ⟨a, List.mem_of_getElem? ha, hdecl⟩
    rcases hreads front j back b hsplit hb name hname (mem_declared.1 hdecl).2 with hin | hin
    · exact absurd hin (hfresh name hcomp)
    · obtain ⟨q, hq, hdecl'⟩ := List.mem_flatMap.1 hin
      have hq' : q < m.nodes.length := (hmem q).1 (hsplit ▸ List.mem_append_left _ hq)
      rw [declaredAt_of_some (List.getElem?_eq_getElem hq')] at hdecl'
      obtain rfl :=
        position_unique hcomputed ha (List.getElem?_eq_getElem hq') hdecl hdecl'
      exact hsplit ▸ before_of_mem_left hq
  · rintro ⟨hinputs, hbefore⟩ front j back n hsplit hn name hname hne
    refine (hinputs n (List.mem_of_getElem? hn) name hname hne).imp_right fun hcomp => ?_
    obtain ⟨a, ha, hdecl⟩ := List.mem_flatMap.1 hcomp
    obtain ⟨p, hp, rfl⟩ := List.mem_iff_getElem.1 ha
    have hp := List.getElem?_eq_getElem hp
    have hin := mem_of_before hnodup hsplit (hbefore p j ⟨_, n, name, hp, hn, hdecl, hname⟩)
    refine List.mem_flatMap.2 ⟨p, hin, ?_⟩
    rw [declaredAt_of_some hp]
    exact hdecl

/-! ### Linking as a whole -/

theorem visitOrder_yields (m : Model) (reorder : Bool) :
    Yields (fun f => f.kind = .malformed ∧ reorder = true ∧ ∃ p, OnCycle m.nodes p)
      (m.visitOrder reorder)
      fun order => order.Perm (List.range m.nodes.length) ∧
        if reorder then ∀ p j, Feeds m.nodes p j → Before order p j
        else order = List.range m.nodes.length := by
  cases reorder with
  | false => exact .ok ⟨List.Perm.refl _, rfl⟩
  | true =>
    have h := sorted_spec m.nodes
    unfold visitOrder topological
    rw [if_pos rfl]
    cases hsorted : sorted m.nodes with
    | ok order =>
      rw [hsorted] at h
      exact h
    | error p =>
      rw [hsorted] at h
      exact ⟨rfl, rfl, p, h.2⟩

/-- The order of visits puts producers first exactly if there is such an order. -/
theorem order_iff {m : Model} {reorder : Bool} {order : List Nat} (hnodup : m.computed.Nodup)
    (hperm : order.Perm (List.range m.nodes.length))
    (horder : if reorder then ∀ p j, Feeds m.nodes p j → Before order p j
      else order = List.range m.nodes.length) :
    (∀ p j, m.Produces p j → Before order p j) ↔
      if reorder then ∀ p, ¬ TransGen m.Produces p p else ∀ p j, m.Produces p j → p < j := by
  cases reorder with
  | false =>
    obtain rfl : order = List.range m.nodes.length := horder
    simp only [Bool.false_eq_true, if_false, before_range]
    refine ⟨fun h p j hp => (h p j hp).1, fun h p j hp => ⟨h p j hp, ?_⟩⟩
    obtain ⟨-, b, -, -, hb, -⟩ := hp
    exact (List.getElem?_eq_some_iff.1 hb).1
  | true =>
    simp only [if_true] at horder ⊢
    have hcycle := not_onCycle_of_before (hperm.nodup_iff.2 List.nodup_range) horder
    rw [← feeds_eq_produces hnodup]
    exact ⟨fun _ => hcycle, fun _ => horder⟩

/-- What is known before any node is visited. -/
theorem given_yields (m : Model) :
    Yields (fun f => f.kind = .malformed ∧ ¬ m.constantNames.Nodup)
      (m.initializers.foldlM (addConstant m.opset) .empty)
      fun l => m.constantNames.Nodup ∧ (m.inputs.foldl (addInput m.opset) l).Grounded ∧
        (∀ name, name ∈ (m.inputs.foldl (addInput m.opset) l).names ↔ name ∈ m.given) ∧
        (m.inputs.foldl (addInput m.opset) l).vertices.toList =
          m.initializers.map m.constantVertex ++ m.supplied.map m.inputVertex := by
  refine (addConstant_foldlM m .empty m.initializers grounded_empty).mono ?_ ?_
  · rintro f ⟨hkind, hbad⟩
    exact ⟨hkind, fun hnodup => hbad ⟨hnodup, fun c _ => List.not_mem_nil⟩⟩
  · rintro l ⟨⟨hnodup, -⟩, hground, hlist, hnames⟩
    obtain ⟨hground', hnames', hlist'⟩ := addInput_foldl m l m.inputs [] rfl hground fun name => by
      rw [hnames]
      rfl
    refine ⟨hnodup, hground', hnames', ?_⟩
    rw [hlist', hlist]
    rfl

theorem create_yields (m : Model) (registry : Registry) :
    Yields (fun f => ∃ n ∈ m.nodes, registry.create n m.opset = .error f)
      (m.nodes.mapM fun n => registry.create n m.opset)
      (List.Forall₂ (fun n op => registry.create n m.opset = .ok op) m.nodes) := by
  refine Yields.mapM fun n hn => ?_
  cases hcreate : registry.create n m.opset with
  | ok op => rfl
  | error f => exact ⟨n, hn, hcreate⟩

/-- What linking gives, and when it fails. -/
theorem link_yields (m : Model) (registry : Registry) (reorder : Bool) :
    Yields (fun f => (∃ n ∈ m.nodes, registry.create n m.opset = .error f) ∨
        f.kind = .malformed ∧ ¬ m.Linkable reorder)
      (m.link registry reorder)
      fun net => m.Linkable reorder ∧ ∃ order : List Nat,
        order.Perm (List.range m.nodes.length) ∧
        (reorder = false → order = List.range m.nodes.length) ∧
        m.Linked registry order net.vertices.toList := by
  unfold link
  refine ((m.create_yields registry).mono ?_ fun _ h => h).bind fun operators hoperators => ?_
  · exact fun f hf => .inl hf
  refine ((m.visitOrder_yields reorder).mono ?_ fun _ h => h).bind ?_
  · rintro f ⟨hkind, rfl, p, hcycle⟩
    refine .inr ⟨hkind, fun hlink => hlink.order p ?_⟩
    rw [← feeds_eq_produces hlink.computed]
    exact hcycle
  rintro order ⟨hperm, horder⟩
  refine (m.given_yields.mono ?_ fun _ h => h).bind ?_
  · exact fun f hf => .inr ⟨hf.1, fun hlink => hf.2 hlink.constants⟩
  rintro l ⟨hconstants, hground, hnames, hlist⟩
  generalize m.inputs.foldl (addInput m.opset) l = l₀ at hground hnames hlist ⊢
  have hsize : l₀.vertices.size = m.initializers.length + m.supplied.length := by
    rw [← Array.length_toList, hlist, List.length_append, List.length_map, List.length_map]
  have hops : ∀ p ∈ order, ∃ n op, m.nodes[p]? = some n ∧
      (operators.map some)[p]? = some (some op) ∧ registry.create n m.opset = .ok op := by
    intro p hp
    have hp : p < m.nodes.length := List.mem_range.1 (hperm.subset hp)
    have hp' : p < operators.length := hoperators.length_eq ▸ hp
    refine ⟨m.nodes[p], operators[p], List.getElem?_eq_getElem hp, ?_, hoperators.get hp hp'⟩
    rw [List.getElem?_map, List.getElem?_eq_getElem hp']
    rfl
  -- the condition that the visits check, in terms of the model
  have hfits := fits_iff_of_perm hperm
  refine ((visit_foldlM m registry order (hperm.nodup_iff.2 List.nodup_range) l₀ _ m.given hops
    hground hnames).mono ?_ fun _ h => h).bind ?_
  · rintro f ⟨hkind, hbad⟩
    refine .inr ⟨hkind, fun hlink => hbad (hfits.2 ⟨hlink.computed, hlink.fresh, hlink.inputs, ?_⟩)⟩
    exact (order_iff hlink.computed hperm horder).2 hlink.order
  rintro ⟨l₁, left⟩ ⟨hfit, hground₁, hnames₁, nodes, hlist₁, hnodes⟩
  obtain ⟨hcomputed, hfresh, hinputs, hbefore⟩ := hfits.1 hfit
  have hknown : ∀ name, name ∈ l₁.names ↔ name ∈ m.given ∨ name ∈ m.computed := by
    intro name
    rw [hnames₁, (flatMap_declaredAt_perm hperm).mem_iff, or_comm]
    rfl
  refine ((addModelOutput_foldlM m l₁ m.outputs hground₁).mono ?_ fun _ h => h).bind ?_
  · rintro f ⟨hkind, hbad⟩
    refine .inr ⟨hkind, fun hlink => hbad fun name hname => ?_⟩
    exact (hknown name).2 (hlink.outputs name hname)
  rintro l₂ ⟨houtputs, outputs, hlist₂, hresults⟩
  have hlinkable : m.Linkable reorder :=
    { constants := hconstants
      computed := hcomputed
      fresh := hfresh
      inputs := hinputs
      outputs := fun name hname => (hknown name).1 (houtputs name hname)
      order := (order_iff hcomputed hperm horder).1 hbefore }
  have hsize₁ : l₁.vertices.size = m.initializers.length + m.supplied.length + nodes.length := by
    rw [← Array.length_toList, hlist₁, List.length_append, Array.length_toList, hsize]
  refine .pure ⟨hlinkable, order, hperm, ?_, nodes, outputs, ?_, ?_, ?_⟩
  · rintro rfl
    exact horder
  · rw [hlist₂, hlist₁, hlist]
  · rw [← hsize, hlist₂]
    exact hnodes.imp fun _ _ h => h.append _
  · rw [← hsize₁]
    exact hresults

/-- **Which models have a network, and which network.** Provided that all nodes can be read, linking
succeeds iff the names of the model fit together. The network then consists of the constants, the
supplied inputs, every node once and the outputs, each wire leading back to the value of its name.
Every failure is one of the description. -/
theorem link_spec (m : Model) (registry : Registry) (reorder : Bool)
    (hread : ∀ n ∈ m.nodes, ∃ op, registry.create n m.opset = .ok op) :
    ((∃ net, m.link registry reorder = .ok net) ↔ m.Linkable reorder) ∧
    match m.link registry reorder with
    | .ok net => ∃ order : List Nat, order.Perm (List.range m.nodes.length) ∧
        (reorder = false → order = List.range m.nodes.length) ∧
        m.Linked registry order net.vertices.toList
    | .error f => f.kind = .malformed := by
  have h := m.link_yields registry reorder
  cases hlink : m.link registry reorder with
  | ok net =>
    obtain ⟨hlinkable, hnet⟩ := h.value hlink
    exact ⟨⟨fun _ => hlinkable, fun _ => ⟨net, rfl⟩⟩, hnet⟩
  | error f =>
    rcases h.fault hlink with ⟨n, hn, hfault⟩ | ⟨hkind, hbad⟩
    · obtain ⟨op, hop⟩ := hread n hn
      rw [hop] at hfault
      cases hfault
    · exact ⟨⟨fun ⟨_, hok⟩ => (nomatch hok), fun hlinkable => absurd hlinkable hbad⟩, hkind⟩

/-- Two nodes, the second of which feeds the first. -/
def backwards : Model where
  opset := 9
  inputs := [⟨"x", ⟨[2, 3]⟩, .float⟩]
  initializers := []
  nodes := [⟨"Relu", "second", ["t"], ["y"], []⟩, ⟨"Tanh", "first", ["x"], ["t"], []⟩]
  outputs := ["y", "x"]

theorem backwards_produces {p j : Nat} (h : backwards.Produces p j) : j < p := by
  obtain ⟨a, b, name, ha, hb, hdecl, hname⟩ := h
  have hp : p < 2 := (List.getElem?_eq_some_iff.1 ha).1
  have hj : j < 2 := (List.getElem?_eq_some_iff.1 hb).1
  have hall : ∀ p < 2, ∀ j < 2, ∀ name ∈ declaredAt backwards.nodes p,
      name ∈ (backwards.nodes[j]?).elim [] Node.inputs → j < p := by decide
  refine hall p hp j hj name ?_ ?_
  · rwa [declaredAt_of_some ha]
  · rwa [hb]

theorem link_backwards :
    (∀ n ∈ backwards.nodes, ∃ op, Registry.builtins.create n backwards.opset = .ok op) ∧
    ∃ net, backwards.link .builtins true = .ok net := by
  have hread : ∀ n ∈ backwards.nodes,
      ∃ op, Registry.builtins.create n backwards.opset = .ok op := by
    intro n hn
    rcases List.mem_pair.1 hn with rfl | rfl
    · exact ⟨_, rfl⟩
    · exact ⟨_, rfl⟩
  refine ⟨hread, (link_spec backwards .builtins true hread).1.2 ?_⟩
  exact
    { constants := by decide
      computed := by decide
      fresh := by decide
      inputs := by decide
      outputs := by decide
      order := fun p hp => by
        have hlt : ∀ j, TransGen backwards.Produces p j → j < p := fun j h => by
          induction h with
          | single hab => exact backwards_produces hab
          | tail _ hab ih => exact (backwards_produces hab).trans ih
        exact lt_irrefl p (hlt p hp) }

end Model

end Lamina
