import Lamina.Constant

/-!
# Nodes and models

A model describes a network by names: inputs supplied at run time, constants, nodes that apply an
operator type to named values, and the names of the values to be put out. An empty name stands for
an optional input or output that is left out.

Attributes of a node are found by name, the first of several winning, and are read through a
`Reader` for the type that the operator expects.
-/

namespace Lamina

/-! ### Attributes -/

/-- The value of an attribute. -/
inductive Attribute where
  | int (value : Int64)
  | float (value : Binary32)
  | string (value : String)
  | ints (values : List Int64)
  | floats (values : List Binary32)
  | strings (values : List String)
  | tensor (value : Constant)

/-- The name of the type of an attribute. -/
def Attribute.sortName : Attribute → String
  | int _ => "int"
  | float _ => "float"
  | string _ => "string"
  | ints _ => "ints"
  | floats _ => "floats"
  | strings _ => "strings"
  | tensor _ => "tensor"

/-- A type that attributes can be read as. -/
structure Reader (α : Type) where
  /-- The name of the type. -/
  expected : String
  /-- The value of an attribute of that type. -/
  read? : Attribute → Option α

namespace Reader

/-- An integer, or a list of one. -/
def int : Reader Int64 :=
  ⟨"int", fun | .int v => some v | .ints [v] => some v | _ => none⟩

/-- A word, or a list of one. -/
def float : Reader Binary32 :=
  ⟨"float", fun | .float v => some v | .floats [v] => some v | _ => none⟩

/-- A text. -/
def string : Reader String := ⟨"string", fun | .string v => some v | _ => none⟩

/-- Integers. -/
def ints : Reader (List Int64) := ⟨"ints", fun | .ints v => some v | _ => none⟩

/-- Words. -/
def floats : Reader (List Binary32) := ⟨"floats", fun | .floats v => some v | _ => none⟩

/-- Texts. -/
def strings : Reader (List String) := ⟨"strings", fun | .strings v => some v | _ => none⟩

/-- A constant tensor. -/
def tensor : Reader Constant := ⟨"tensor", fun | .tensor v => some v | _ => none⟩

end Reader

/-! ### Nodes -/

/-- One application of an operator type. -/
structure Node where
  /-- The operator type. -/
  opType : String
  /-- The name of the node. -/
  name : String
  /-- The names of the inputs. -/
  inputs : List String
  /-- The names of the outputs. -/
  outputs : List String
  /-- Named attributes. -/
  attributes : List (String × Attribute)

namespace Node

/-- Faults of the node are attributed here. -/
def site (n : Node) : Site := ⟨n.opType, n.name⟩

/-- The first attribute of a name. -/
def find? (n : Node) (name : String) : Option Attribute :=
  (n.attributes.find? fun a => a.1 == name).map Prod.snd

/-- Whether there is an attribute of a name. -/
def has (n : Node) (name : String) : Bool := (n.find? name).isSome

variable {α : Type}

/-- An attribute read as a type. -/
def readAs (n : Node) (reader : Reader α) (name : String) (a : Attribute) : Except Fault α :=
  match reader.read? a with
  | some v => .ok v
  | none => n.site.fail (.node (.attributeType name a.sortName reader.expected))

/-- An attribute, if it is there. -/
def get? (n : Node) (reader : Reader α) (name : String) : Except Fault (Option α) :=
  match n.find? name with
  | some a => some <$> n.readAs reader name a
  | none => .ok none

/-- An attribute, or a default if it is not there. -/
def getD (n : Node) (reader : Reader α) (name : String) (default : α) : Except Fault α :=
  match n.find? name with
  | some a => n.readAs reader name a
  | none => .ok default

/-- An attribute that has to be there. -/
def get (n : Node) (reader : Reader α) (name : String) : Except Fault α :=
  match n.find? name with
  | some a => n.readAs reader name a
  | none => n.site.fail (.node (.missingAttribute name))

end Node

/-! ### Headers -/

/-- What identifies a node, with the opset it is read under. -/
structure Header where
  /-- The operator type. -/
  opType : String
  /-- The name of the node. -/
  name : String
  /-- The version of the operator set. -/
  opset : Int64
deriving DecidableEq

namespace Header

/-- The header of a node. -/
def ofNode (n : Node) (opset : Int64) : Header := ⟨n.opType, n.name, opset⟩

/-- Faults of the node are attributed here. -/
def site (h : Header) : Site := ⟨h.opType, h.name⟩

/-- Fails at the node. -/
def fail {α : Type} (h : Header) (cause : Cause) : Except Fault α := h.site.fail cause

/-- An axis counted from the front. From opset 11 on, negative axes count from the back. -/
def axis (h : Header) (axis : Int64) (rank : Nat) : Except Fault Nat :=
  let a := axis.toInt
  if a < 0 ∧ h.opset < 11 then h.fail (.node (.negativeAxis axis))
  else
    let resolved := if a < 0 then a + rank else a
    if resolved < 0 ∨ rank ≤ resolved.toNat then h.fail (.node (.axisOutOfRange axis rank))
    else .ok resolved.toNat

end Header

/-- How many inputs or outputs a node may have. Without an upper bound, any number from `low` on. -/
structure Arity where
  /-- The least number. -/
  low : Nat
  /-- The greatest number. -/
  high : Option Nat

namespace Arity

/-- Exactly one number. -/
def exactly (n : Nat) : Arity := ⟨n, some n⟩

/-- A range of numbers. -/
def range (low high : Nat) : Arity := ⟨low, some high⟩

/-- Any number from `low` on. -/
def atLeast (low : Nat) : Arity := ⟨low, none⟩

/-- Whether a number is admitted. -/
def admits (a : Arity) (n : Nat) : Bool := a.low ≤ n && a.high.all (n ≤ ·)

end Arity

/-- Checks the numbers of inputs and outputs of a node, the inputs first. -/
def Node.checkArity (n : Node) (inputs outputs : Arity) : Except Fault Unit := do
  n.site.ensure (inputs.admits n.inputs.length)
    (.node (.inputCount inputs.low inputs.high n.inputs.length))
  n.site.ensure (outputs.admits n.outputs.length)
    (.node (.outputCount outputs.low outputs.high n.outputs.length))

/-! ### Models -/

/-- An input of a model, supplied at run time. -/
structure ModelInput where
  /-- The name of the value. -/
  name : String
  /-- The extents. -/
  shape : Shape
  /-- The type of the elements. -/
  type : ElementType

/-- The description of a network. -/
structure Model where
  /-- The version of the operator set. -/
  opset : Int64
  /-- The inputs. -/
  inputs : List ModelInput
  /-- The named constants. -/
  initializers : List Initializer
  /-- The nodes, in the order in which they are declared. -/
  nodes : List Node
  /-- The names of the outputs. -/
  outputs : List String

end Lamina
