import Lamina.Network.Plan
import Lamina.Operator.Lower
import Lamina.Text.Lowercase

/-!
# Compiling models

A model is linked into a network, the network is planned, and its vertices are lowered to layers one
after another. Inputs become sources, outputs become sinks, constants and folded nodes need no
layer.

Compiling extends an empty layer graph. On failure, the layers appended so far stay in it.
-/

namespace Lamina

/-- Choices for a compilation. -/
structure CompileOptions where
  /-- The newest opset that is accepted. -/
  maxOpset : Int64 := 12
  /-- Whether nodes are brought into order first. -/
  reorder : Bool := false
  /-- What the name of every layer starts with. -/
  scope : String := ""

/-- An input or output of a model with the layer that stands for it. -/
structure Endpoint where
  /-- The name of the value. -/
  name : String
  /-- The position of the source or sink. -/
  layer : Nat
  /-- The extents. -/
  shape : Shape
  /-- The slot of each axis. -/
  layout : Layout

/-- The inputs and outputs of a compiled model. -/
structure Endpoints where
  /-- The inputs, in the order of declaration. -/
  inputs : List Endpoint
  /-- The outputs, in the order of declaration. -/
  outputs : List Endpoint

namespace Endpoints

/-- No inputs or outputs. -/
def empty : Endpoints := ⟨[], []⟩

/-- The input of a name. -/
def input? (e : Endpoints) (name : String) : Option Endpoint :=
  e.inputs.find? fun v => v.name == name

/-- The output of a name. -/
def output? (e : Endpoints) (name : String) : Option Endpoint :=
  e.outputs.find? fun v => v.name == name

end Endpoints

/-! ### Lowering a plan -/

/-- How far lowering has come. -/
structure Progress where
  /-- For each vertex so far, the tensors its values are bound to. -/
  bound : Array (List Tensor)
  /-- The inputs and outputs so far. -/
  endpoints : Endpoints

namespace Progress

/-- Nothing lowered yet. -/
def empty : Progress := ⟨#[], .empty⟩

/-- The tensor that a value is bound to. -/
def tensor (p : Progress) (h : Header) (v : Wire) : Except Fault Tensor :=
  match (p.bound[v.node]?).bind fun tensors => tensors[v.output]? with
  | some t => .ok t
  | none => h.fail (.network (.notBound v))

/-- The tensors of one more vertex. -/
def bind (p : Progress) (tensors : List Tensor) : Progress :=
  { p with bound := p.bound.push tensors }

end Progress

/-- The name that the layers of a vertex are named after: its own or, if it has none, its type in
small letters. -/
def Header.layerName (h : Header) : String :=
  if h.name = "" then Text.lowercase h.opType else h.name

/-- Appends the layers of an operator and gives all its outputs. -/
def Operator.lowerOutputs (op : Operator) (p : Placement) : Lowering (List Tensor) := do
  return [← op.lower p]

namespace Plan

/-- Lowers an input of the model to a source. -/
def lowerInput (scope : String) (p : Progress) (i : ModelInput) (layout : Layout) :
    Lowering Progress := do
  let h ← Lowering.add (scope ++ i.name) .source [] i.shape layout
  let endpoint : Endpoint := ⟨i.name, h.outlet.layer, h.shape, h.layout⟩
  let e := p.endpoints
  return ⟨p.bound.push [.handle h], { e with inputs := e.inputs ++ [endpoint] }⟩

/-- Lowers an output of the model to a sink. -/
def lowerOutput (scope : String) (p : Progress) (header : Header) (v : Wire) :
    Lowering Progress := do
  match ← p.tensor header v with
  | .constant _ => header.fail (.network .constantOutput)
  | .handle h =>
    let name := (← get).freshName (scope ++ header.name)
    let layer ← Lowering.append name .sink [h.outlet]
    let endpoint : Endpoint := ⟨header.name, layer, h.shape, h.layout⟩
    let e := p.endpoints
    return ⟨p.bound.push [], { e with outputs := e.outputs ++ [endpoint] }⟩

/-- Lowers a node to its layers, and checks the number and the shapes of its outputs. -/
def lowerOperator (scope : String) (p : Progress) (v : Vertex) (op : Operator)
    (shapes : List Shape) (layouts : List Layout) : Lowering Progress := do
  let inputs ← v.inputs.mapM fun i => i.mapM fun r => (p.tensor v.header r : Lowering Tensor)
  let tensors ← op.lowerOutputs ⟨v.header, inputs, shapes, layouts, scope ++ v.header.layerName⟩
  if tensors.length ≠ shapes.length then
    v.header.fail (.network (.loweredCount tensors.length shapes.length))
  else match (tensors.zip shapes).zipIdx.find? fun e => e.1.1.shape ≠ e.1.2 with
    | some ((t, s), slot) => v.header.fail (.network (.loweredShape slot t.shape s))
    | none => return p.bind tensors

/-- Lowers a vertex that is not folded. -/
def lowerPending (plan : Plan) (scope : String) (p : Progress) (v : Vertex) (i : Nat) :
    Lowering Progress := do
  let shapes := (plan.facts.values i).map Operand.shape
  let layouts := plan.layouts.getD i []
  match v.kind with
  | .input declared => lowerInput scope p declared (layouts.getD 0 .uncommitted)
  | .output => match v.inputs.head?.join with
    | some r => lowerOutput scope p v.header r
    | none => v.header.fail (.network .outputNotBound)
  | .operator op => lowerOperator scope p v op shapes layouts
  | .constant _ => v.header.fail (.network .notFolded)

/-- Lowers one vertex. The values of a folded one are constants already. -/
def lowerVertex (plan : Plan) (scope : String) (p : Progress) (vertex : Vertex × Nat) :
    Lowering Progress := do
  let (v, i) := vertex
  if v.state = .folded then
    return p.bind ((plan.facts.values i).filterMap fun op => op.constant.map Tensor.constant)
  else
    let p ← lowerPending plan scope p v i
    discard (v.transition .materialized : Lowering Vertex)
    return p

/-- Lowers all vertices in order. -/
def lower (plan : Plan) (scope : String) : Lowering Endpoints := do
  let p ← plan.network.vertices.toList.zipIdx.foldlM (plan.lowerVertex scope) Progress.empty
  return p.endpoints

end Plan

/-! ### Compiling -/

namespace Model

/-- Checks that the opset is positive and not newer than the options allow. -/
def checkOpset (m : Model) (options : CompileOptions) : Except Fault Unit := do
  let site : Site := ⟨"Graph", ""⟩
  site.ensure (0 < m.opset) (.network (.invalidOpset m.opset))
  site.ensure (m.opset ≤ options.maxOpset) (.network (.opsetTooNew m.opset options.maxOpset))

/-- The plan of a model. -/
def plan (m : Model) (registry : Registry) (options : CompileOptions) : Except Fault Plan := do
  m.checkOpset options
  let network ← m.link registry options.reorder
  network.plan

/-- Appends the layers of a model to a layer graph that has to be empty. -/
def compileOnto (m : Model) (registry : Registry) (options : CompileOptions) :
    Lowering Endpoints := do
  let size := (← get).size
  Site.ensure ⟨"Compiler", ""⟩ (size = 0) (.network (.targetInUse size))
  (← m.plan registry options).lower options.scope

/-- Compiles a model into a fresh layer graph, which holds the layers made so far if that fails. -/
def compile (m : Model) (registry : Registry) (options : CompileOptions) :
    Except Fault Endpoints × LayerGraph :=
  (m.compileOnto registry options).run.run .empty

end Model

end Lamina
