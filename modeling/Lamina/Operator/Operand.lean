import Lamina.Node

/-!
# Operands

What an operator knows about an input before layers are made: its shape, and its value if that is
constant. Inputs that were left out are unbound.
-/

namespace Lamina

/-- One bound input. -/
structure Operand where
  /-- The extents. -/
  shape : Shape
  /-- The value, if it is constant. -/
  constant : Option Constant

/-- The inputs of a node, in order. -/
abbrev Operands := List (Option Operand)

namespace Operands

/-- A bound input. -/
def bound? (ops : Operands) (i : Nat) : Option Operand := (ops[i]?).join

/-- An input that has to be bound. -/
def get (ops : Operands) (h : Header) (i : Nat) : Except Fault Operand :=
  match ops.bound? i with
  | some op => .ok op
  | none => h.fail (.node (.unboundInput i))

/-- The shape of an input that has to be bound. -/
def shape (ops : Operands) (h : Header) (i : Nat) : Except Fault Shape :=
  Operand.shape <$> ops.get h i

/-- The value of an operand that has to be constant. -/
def constantOf (h : Header) (i : Nat) (op : Operand) : Except Fault Constant :=
  match op.constant with
  | some c => .ok c
  | none => h.fail (.node (.constantNeeded i))

/-- The value of an input that has to be bound and constant. -/
def constant (ops : Operands) (h : Header) (i : Nat) : Except Fault Constant := do
  constantOf h i (← ops.get h i)

/-- The value of an input that has to be constant if it is bound. -/
def constant? (ops : Operands) (h : Header) (i : Nat) : Except Fault (Option Constant) :=
  match ops.bound? i with
  | some op => some <$> constantOf h i op
  | none => .ok none

/-- The shapes of the bound inputs, in order. -/
def shapes (ops : Operands) : List Shape := (ops.filterMap id).map Operand.shape

/-- Whether every bound input is constant. -/
def allConstant (ops : Operands) : Bool := (ops.filterMap id).all fun op => op.constant.isSome

end Operands

/-- The inputs and outputs of a node as values of a network. -/
structure Wiring where
  /-- The values read; an input may be unbound. -/
  inputs : List (Option Wire)
  /-- The values produced. -/
  outputs : List Wire

namespace Wiring

/-- A bound input. -/
def input? (w : Wiring) (i : Nat) : Option Wire := (w.inputs[i]?).join

/-- An output. -/
def output (w : Wiring) (i : Nat) : Except Fault Wire :=
  match w.outputs[i]? with
  | some v => .ok v
  | none => Site.fail ⟨"NodeIo", ""⟩ (.role (.noOutput i))

end Wiring

end Lamina
