/-!
# Wires and their axes

A wire carries one output of one node of a network, and an axis of the network is an axis of the
value on one of its wires. Axes are ordered by node, then by output, then by position.
-/

namespace Lamina

/-- The wire that carries output `output` of node `node`. -/
structure Wire where
  /-- The node that feeds the wire. -/
  node : Nat
  /-- The position among the node's outputs. -/
  output : Nat
deriving DecidableEq

namespace Wire

/-- The text of a wire. -/
def text (v : Wire) : String :=
  "ValueRef \x7b node: " ++ toString v.node ++ ", output: " ++ toString v.output ++ " \x7d"

end Wire

/-- One axis of the value on a wire. -/
structure Axis where
  /-- The wire. -/
  value : Wire
  /-- The axis. -/
  axis : Nat
deriving DecidableEq

/-- Whether one axis comes no later than another. -/
def Axis.le (a b : Axis) : Bool :=
  if a.value.node ≠ b.value.node then a.value.node < b.value.node
  else if a.value.output ≠ b.value.output then a.value.output < b.value.output
  else a.axis ≤ b.axis

end Lamina
