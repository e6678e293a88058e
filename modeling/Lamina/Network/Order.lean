import Lamina.Node
import Lamina.Search

/-!
# Ordering nodes

Nodes can be declared in any order. To bring every producer before its consumers, the nodes are
listed in the reverse of the order in which a depth-first search along the dependencies leaves them.
If the dependencies have a cycle, some node of that list still reads a node that does not come
before it.
-/

namespace Lamina.NodeOrder

/-- The last node that declares a value. The empty name declares none. -/
def producer? (nodes : List Node) (name : String) : Option Nat :=
  (nodes.zipIdx.findRev? fun e => name ≠ "" && e.1.outputs.contains name).map Prod.snd

/-- The nodes that a node reads, in the order of its inputs, each once. -/
def sources (nodes : List Node) (i : Nat) : List Nat :=
  match nodes[i]? with
  | none => []
  | some n => (n.inputs.filterMap (producer? nodes)).foldl
      (fun found p => if found.contains p then found else found ++ [p]) []

/-- The nodes that read a node, in order. -/
def readers (nodes : List Node) (i : Nat) : List Nat :=
  (List.range nodes.length).filter fun j => (sources nodes j).contains i

/-- In an order of nodes, the last node that the first offending node reads although it does not
come before it. -/
def misplaced? (sources : Nat → List Nat) (earlier : List Nat) : List Nat → Option Nat
  | [] => none
  | i :: rest =>
    match (Search.without (sources i) (i :: earlier)).getLast? with
    | some j => some j
    | none => misplaced? sources (i :: earlier) rest

/-- The positions of the nodes, producers first, or a node on a cycle. -/
def sorted (nodes : List Node) : Except Nat (List Nat) := do
  let all := List.range nodes.length
  let (_, left) ← Search.postorder (readers nodes) all [] all
  match misplaced? (sources nodes) [] left.reverse with
  | some j => .error j
  | none => return left.reverse

/-- The positions of the nodes, producers first. A cycle is the fault of a node on it. -/
def topological (nodes : List Node) : Except Fault (List Nat) :=
  match sorted nodes with
  | .ok order => .ok order
  | .error i =>
    let site : Site := ((nodes[i]?).map Node.site).getD ⟨"", ""⟩
    site.fail (.network .cycle)

end Lamina.NodeOrder
