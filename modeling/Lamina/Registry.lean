import Lamina.Operator.Family

/-!
# Registries

A registry says which family reads which operator type. A type can be registered once.
-/

namespace Lamina

/-- The families of operator types. -/
structure Registry where
  /-- Operator types with their families, in the order of registration. -/
  entries : List (String × Family)

namespace Registry

/-- The registry without types. -/
def empty : Registry := ⟨[]⟩

/-- The types known from the start. -/
def builtins : Registry where
  entries := [
    ("Identity", .identity), ("Dropout", .identity),
    ("Add", .eltwise), ("Sub", .eltwise), ("Mul", .eltwise), ("Div", .eltwise), ("Sum", .eltwise),
    ("Relu", .activation), ("Sigmoid", .activation), ("Tanh", .activation), ("Abs", .activation),
    ("Elu", .activation), ("LeakyRelu", .activation), ("Clip", .activation),
    ("Conv", .conv),
    ("MaxPool", .pool), ("AveragePool", .pool),
    ("GlobalAveragePool", .globalPool), ("GlobalMaxPool", .globalPool),
    ("BatchNormalization", .batchNorm),
    ("Gemm", .gemm), ("MatMul", .matMul),
    ("Softmax", .softmax), ("LRN", .lrn), ("LSTM", .lstm),
    ("Flatten", .flatten), ("Reshape", .reshape), ("Squeeze", .squeeze), ("Unsqueeze", .unsqueeze),
    ("Concat", .concat), ("Shape", .shape), ("Gather", .gather),
    ("ConstantOfShape", .constantOfShape), ("Constant", .constant),
    ("Slice", .slice), ("ReduceMean", .reduceMean)]

/-- The family of a type. -/
def find? (r : Registry) (opType : String) : Option Family :=
  (r.entries.find? fun e => e.1 == opType).map Prod.snd

/-- Whether a type is registered. -/
def contains (r : Registry) (opType : String) : Bool := (r.find? opType).isSome

/-- The registry with one more type. -/
def register (r : Registry) (opType : String) (family : Family) : Except Fault Registry :=
  if r.contains opType then Site.fail ⟨opType, ""⟩ (.node .registeredTwice)
  else .ok ⟨r.entries ++ [(opType, family)]⟩

/-- The registered types in the order of their characters. -/
def opTypes (r : Registry) : List String :=
  (r.entries.map Prod.fst).mergeSort fun a b => !decide (b < a)

/-- The registered types as a text. -/
def text (r : Registry) : String :=
  "OperatorRegistry \x7b op_types: " ++ Text.strings r.opTypes ++ " \x7d"

/-- Reads a node by the family of its type. -/
def create (r : Registry) (n : Node) (opset : Int64) : Except Fault Operator :=
  match r.find? n.opType with
  | some family => family.read n opset
  | none => n.site.fail (.node (.unknownOperator n.opType))

end Registry

end Lamina
