import Lamina.Network.Order
import Lamina.Registry

/-!
# Networks

A network is a model with its names resolved: one vertex for each constant, input, node and output
of the model, each input of a vertex pointing at the value it reads.

* Constants come first, then inputs, then the nodes, then the outputs.
* An input that has the name of a constant or of an earlier input is left out.
* Every vertex reads values of earlier vertices only. Nodes are taken as declared or, on request,
  with producers brought before their consumers.
-/

namespace Lamina

/-- What a vertex of a network stands for. -/
inductive VertexKind where
  /-- A value supplied at run time. -/
  | input (declared : ModelInput)
  /-- A named constant. -/
  | constant (value : Constant)
  /-- A node. -/
  | operator (op : Operator)
  /-- A value that is put out. -/
  | output

/-- A constant, an input, a node or an output of a model, with its names resolved. -/
structure Vertex where
  /-- What identifies the vertex. -/
  header : Header
  /-- What it stands for. -/
  kind : VertexKind
  /-- The values it reads; an input that is left out is unbound. -/
  inputs : List (Option Wire)
  /-- The names of the values it declares. -/
  outputs : List String
  /-- How far it has come. -/
  state : VertexState

namespace Vertex

/-- A vertex none of whose inputs is wired yet. -/
def fresh (header : Header) (kind : VertexKind) (inputs : Nat) (outputs : List String) : Vertex :=
  ⟨header, kind, List.replicate inputs none, outputs, .pending⟩

/-- Wires an input. Every input is wired at most once. -/
def bindInput (v : Vertex) (index : Nat) (value : Wire) : Except Fault Vertex :=
  match v.inputs[index]? with
  | some none => .ok { v with inputs := v.inputs.set index (some value) }
  | some (some bound) => v.header.fail (.network (.boundTwice index bound))
  | none => v.header.fail (.network (.noInput index))

/-- Leaves the pending state. A vertex is folded or materialized exactly once. -/
def transition (v : Vertex) (next : VertexState) : Except Fault Vertex :=
  if v.state ≠ .pending ∨ next = .pending then v.header.fail (.network (.transition v.state next))
  else .ok { v with state := next }

end Vertex

/-- Vertices, each of which reads earlier ones. -/
structure Network where
  /-- The vertices, in the order in which they are visited. -/
  vertices : Array Vertex

/-- The operator of a vertex that stands for a node. -/
def VertexKind.operator? : VertexKind → Option Operator
  | .operator op => some op
  | _ => none

/-- The positions of the vertices that stand for nodes. -/
def Network.operators (n : Network) : List Nat :=
  (n.vertices.toList.zipIdx.filter fun e => e.1.kind.operator?.isSome).map Prod.snd

/-! ### Linking -/

/-- A network under construction. -/
structure Linking where
  /-- The vertices so far. -/
  vertices : Array Vertex
  /-- The values declared so far. -/
  producers : List (String × Wire)

namespace Linking

/-- Nothing linked yet. -/
def empty : Linking := ⟨#[], []⟩

/-- The value of a name. -/
def find? (l : Linking) (name : String) : Option Wire := l.producers.lookup name

/-- One more vertex, which declares nothing. -/
def push (l : Linking) (v : Vertex) : Linking := { l with vertices := l.vertices.push v }

/-- One more vertex, which declares one value. -/
def declare (l : Linking) (header : Header) (kind : VertexKind) : Linking where
  vertices := l.vertices.push (.fresh header kind 0 [header.name])
  producers := (header.name, ⟨l.vertices.size, 0⟩) :: l.producers

/-- Adds a constant, whose name has to be new. -/
def addConstant (opset : Int64) (l : Linking) (c : Initializer) : Except Fault Linking :=
  let header : Header := ⟨"Initializer", c.name, opset⟩
  match l.find? c.name with
  | some _ => header.fail (.network .initializerTwice)
  | none => .ok (l.declare header (.constant c.tensor))

/-- Adds an input, unless its name is taken. -/
def addInput (opset : Int64) (l : Linking) (i : ModelInput) : Linking :=
  match l.find? i.name with
  | some _ => l
  | none => l.declare ⟨"GraphInput", i.name, opset⟩ (.input i)

/-- The value that an input of a node reads. The empty name reads none; `declared` tells the names
that some node declares. -/
def resolve (l : Linking) (declared : String → Bool) (n : Node) (name : String) :
    Except Fault (Option Wire) :=
  if name = "" then .ok none
  else match l.find? name with
    | some v => .ok (some v)
    | none =>
      if declared name then n.site.fail (.network (.producedLater name))
      else n.site.fail (.network (.notDefined name))

/-- Declares an output of a node. The empty name declares none. -/
def addOutput (n : Node) (vertex : Nat) (l : Linking) (output : String × Nat) :
    Except Fault Linking :=
  let (name, slot) := output
  if name = "" then .ok l
  else match l.find? name with
    | some _ => n.site.fail (.network (.definedTwice name))
    | none => .ok { l with producers := (name, ⟨vertex, slot⟩) :: l.producers }

/-- Wires an input of a node to the value of its name. -/
def bindName (l : Linking) (declared : String → Bool) (n : Node) (vertex : Vertex)
    (input : String × Nat) : Except Fault Vertex := do
  let (name, slot) := input
  match ← l.resolve declared n name with
  | none => return vertex
  | some v => vertex.bindInput slot v

/-- Adds a node: its inputs are wired, then its outputs are declared. -/
def addNode (declared : String → Bool) (l : Linking) (n : Node) (op : Operator) :
    Except Fault Linking := do
  let vertex ← n.inputs.zipIdx.foldlM (l.bindName declared n)
    (.fresh op.header (.operator op) n.inputs.length n.outputs)
  n.outputs.zipIdx.foldlM (addOutput n l.vertices.size) (l.push vertex)

/-- Adds the node at a position, whose operator is taken from those not yet used. -/
def visit (declared : String → Bool) (nodes : List Node) (s : Linking × List (Option Operator))
    (position : Nat) : Except Fault (Linking × List (Option Operator)) := do
  let (l, operators) := s
  match nodes[position]? with
  | none => return s
  | some n =>
    match (operators[position]?).join with
    | none => n.site.fail (.network .visitedTwice)
    | some op => return (← l.addNode declared n op, operators.set position none)

/-- Adds an output of the model. -/
def addModelOutput (opset : Int64) (l : Linking) (name : String) : Except Fault Linking := do
  let header : Header := ⟨"GraphOutput", name, opset⟩
  match l.find? name with
  | some v => return l.push (← (Vertex.fresh header .output 1 []).bindInput 0 v)
  | none => header.fail (.network (.outputNotDefined name))

end Linking

namespace Model

/-- The order in which the nodes are visited: as declared, or with producers first. -/
def visitOrder (m : Model) (reorder : Bool) : Except Fault (List Nat) :=
  if reorder then NodeOrder.topological m.nodes else .ok (List.range m.nodes.length)

/-- Whether some node declares a value. -/
def declares (m : Model) (name : String) : Bool :=
  name ≠ "" && m.nodes.any fun n => n.outputs.contains name

/-- The network of a model, its nodes read through a registry. All nodes are read before any name is
resolved. -/
def link (m : Model) (registry : Registry) (reorder : Bool) : Except Fault Network := do
  let operators ← m.nodes.mapM fun n => registry.create n m.opset
  let order ← m.visitOrder reorder
  let l ← m.initializers.foldlM (Linking.addConstant m.opset) Linking.empty
  let l := m.inputs.foldl (Linking.addInput m.opset) l
  let (l, _) ← order.foldlM (Linking.visit m.declares m.nodes) (l, operators.map some)
  let l ← m.outputs.foldlM (Linking.addModelOutput m.opset) l
  return ⟨l.vertices⟩

end Model

end Lamina
