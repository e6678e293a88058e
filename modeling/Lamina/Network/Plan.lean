import Lamina.Network
import Lamina.Operator.Fold
import Lamina.Operator.Propagate

/-!
# Planning a network

Before layers are made, three sweeps over a network find out what is known about its values.

* `infer` gives every value its shape, and its value if that does not depend on what is supplied at
  run time.
* `settle` lets every remaining operator state which slots it wants, forwards and then backwards.
* `commit` gives every value its layout.
-/

namespace Lamina

/-- What is known about the values of a network: a list of values per vertex. -/
abbrev Facts := Array (List Operand)

namespace Facts

/-- What is known about a value. -/
def find? (facts : Facts) (v : Wire) : Option Operand := do
  let produced ← facts[v.node]?
  produced[v.output]?

/-- What is known about an input of a vertex. -/
def operand (facts : Facts) (h : Header) : Option Wire → Except Fault (Option Operand)
  | none => .ok none
  | some v =>
    match facts.find? v with
    | some op => .ok (some op)
    | none => h.fail (.network (.noShape v))

/-- The values of a vertex. -/
def values (facts : Facts) (i : Nat) : List Operand := facts.getD i []

end Facts

namespace Operator

/-- The shapes of all outputs: every operator has one. -/
def outputShapes (op : Operator) (ops : Operands) : Except Fault (List Shape) := do
  return [← op.outputShape ops]

/-- The values of all outputs. -/
def foldOutputs (op : Operator) (ops : Operands) : Except Fault (List Constant) := do
  return [← op.fold ops]

end Operator

/-- What is known about the values of a vertex, and whether they were computed. -/
structure Inferred where
  /-- The values. -/
  values : List Operand
  /-- Whether they are constants that need no layer. -/
  folded : Bool

namespace Vertex

/-- Checks that no output is named beyond those that the operator produces. -/
def checkOutputs (v : Vertex) (produced : Nat) : Except Fault Unit :=
  match v.outputs.zipIdx.find? fun e => produced ≤ e.2 && e.1 ≠ "" with
  | some (name, slot) => v.header.fail (.network (.outputNotProduced slot name))
  | none => .ok ()

/-- The values that an operator produces from what is known about its inputs. -/
def inferOperator (v : Vertex) (op : Operator) (facts : Facts) : Except Fault Inferred := do
  let operands : Operands ← v.inputs.mapM (facts.operand v.header)
  let shapes ← op.outputShapes operands
  v.checkOutputs shapes.length
  if operands.allConstant || op.knownFromShapes then
    let constants ← op.foldOutputs operands
    if constants.length ≠ shapes.length then
      v.header.fail (.network (.foldedCount constants.length shapes.length))
    else return ⟨shapes.zipWith (fun s c => ⟨s, some c⟩) constants, true⟩
  else return ⟨shapes.map fun s => ⟨s, none⟩, false⟩

/-- The values of a vertex. -/
def infer (v : Vertex) (facts : Facts) : Except Fault Inferred :=
  match v.kind with
  | .input i => .ok ⟨[⟨i.shape, none⟩], false⟩
  | .constant c => .ok ⟨[⟨c.shape, some c⟩], true⟩
  | .operator op => v.inferOperator op facts
  | .output => .ok ⟨[], false⟩

end Vertex

namespace Network

/-- Adds what is known about one more vertex, which is folded if its values were computed. -/
def inferVertex (done : Array Vertex × Facts) (v : Vertex) :
    Except Fault (Array Vertex × Facts) := do
  let (vertices, facts) := done
  let found ← v.infer facts
  let v ← if found.folded then v.transition .folded else pure v
  return (vertices.push v, facts.push found.values)

/-- Shapes and constants of all values, and the network with its folded vertices marked. -/
def infer (n : Network) : Except Fault (Network × Facts) := do
  let (vertices, facts) ← n.vertices.foldlM inferVertex (#[], #[])
  return (⟨vertices⟩, facts)

/-! ### Roles -/

/-- The table with a row for every value and no roles yet. -/
def openTable (facts : Facts) : Roles :=
  facts.foldl (fun t values =>
    t.addOutputs (values.map fun op => (op.shape, op.constant.isSome))) .empty

/-- The operators that are not folded, with their positions. -/
def pending (n : Network) : List (Nat × Vertex × Operator) :=
  n.vertices.toList.zipIdx.filterMap fun (v, i) =>
    match v.kind with
    | .operator op => if v.state = .pending then some (i, v, op) else none
    | _ => none

/-- Lets the remaining operators state their wishes, forwards and then backwards. -/
def settle (n : Network) (facts : Facts) : RoleM Unit :=
  let pending := n.pending
  (pending ++ pending.reverse).forM fun (i, v, op) =>
    op.propagate ⟨v.inputs, (List.range (facts.values i).length).map fun o => ⟨i, o⟩⟩

/-- The layouts of all values, a list per vertex. -/
def commit (n : Network) (facts : Facts) : RoleM (List (List Layout)) :=
  n.vertices.toList.zipIdx.mapM fun (v, i) =>
    (List.range (facts.values i).length).mapM fun o => RoleM.commit v.header.site ⟨i, o⟩

end Network

/-- A network with all that is decided before its layers are made. -/
structure Plan where
  /-- The network, its folded vertices marked. -/
  network : Network
  /-- Shapes and constants, per vertex. -/
  facts : Facts
  /-- Layouts, per vertex. -/
  layouts : List (List Layout)

/-- The plan of a network. -/
def Network.plan (n : Network) : Except Fault Plan := do
  let (n, facts) ← n.infer
  let decide : RoleM (List (List Layout)) := do
    n.settle facts
    n.commit facts
  let layouts ← (decide.run (openTable facts)).1
  return ⟨n, facts, layouts⟩

end Lamina
