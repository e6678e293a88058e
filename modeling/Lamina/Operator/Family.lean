import Lamina.Operator

/-!
# Operator families

A family reads nodes of related operator types. It checks the number of inputs and outputs, reads
the attributes the operator needs and refuses what is not supported. Which attributes there are, and
which of them have become inputs, depends on the opset.
-/

namespace Lamina

/-- A way of reading nodes as operators. -/
inductive Family where
  | identity
  | eltwise
  | activation
  | conv
  | pool
  | globalPool
  | batchNorm
  | gemm
  | matMul
  | softmax
  | lrn
  | lstm
  | flatten
  | reshape
  | squeeze
  | unsqueeze
  | concat
  | shape
  | gather
  | constantOfShape
  | constant
  | slice
  | reduceMean
deriving DecidableEq

namespace Family

/-- Whether some output from a position on is asked for. -/
def wantsOutputFrom (n : Node) (i : Nat) : Bool := (n.outputs.drop i).any fun name => !name.isEmpty

/-! ### Elementwise operators -/

/-- Reads an identity. A dropout is one as long as nobody asks for its mask. -/
def readIdentity (n : Node) : Except Fault Action := do
  if n.opType = "Dropout" then
    n.checkArity (.range 1 3) (.range 1 2)
    if wantsOutputFrom n 1 then n.site.fail (.elementwise .dropoutMask)
  else n.checkArity (.exactly 1) (.exactly 1)
  return .identity

/-- The elementwise operation of an operator type. -/
def eltwiseOp? : String → Option Pointwise
  | "Add" => some .add
  | "Sub" => some .sub
  | "Mul" => some .mul
  | "Div" => some .div
  | "Sum" => some .sum
  | _ => none

/-- How the inputs of an elementwise operation are aligned. Before opset 7 the node says so. -/
def readMode (n : Node) (opset : Int64) : Except Fault Alignment := do
  if opset < 7 then
    if (← n.getD .int "broadcast" 0) ≠ 0 then return .anchored (← n.get? .int "axis")
    else return .exact
  else return .trailing

/-- Reads an elementwise operation. -/
def readEltwise (n : Node) (opset : Int64) : Except Fault Action := do
  match eltwiseOp? n.opType with
  | none => n.site.fail (.node (.wrongFamily n.opType "an elementwise operator"))
  | some .sum =>
    n.checkArity (.atLeast 1) (.exactly 1)
    return .eltwise .sum (if opset < 8 then .exact else .trailing)
  | some op =>
    n.checkArity (.exactly 2) (.exactly 1)
    return .eltwise op (← readMode n opset)

/-- The clip that leaves every finite value as it is. -/
def widestClip : Activation := .clip (.extreme true) (.extreme false)

/-- The function of an activation node, and whether its bounds are inputs. -/
def readFunction (n : Node) (opset : Int64) : Except Fault (Activation × Bool) := do
  match n.opType with
  | "Relu" => return (.relu, false)
  | "Sigmoid" => return (.sigmoid, false)
  | "Tanh" => return (.tanh, false)
  | "Abs" => return (.abs, false)
  | "Elu" => return (.elu (← n.getD .float "alpha" .one), false)
  | "LeakyRelu" => return (.leakyRelu (← n.getD .float "alpha" (.constant 1 (-2))), false)
  | "Clip" =>
    if opset < 11 then
      let low ← n.getD .float "min" (.extreme true)
      let high ← n.getD .float "max" (.extreme false)
      return (.clip low high, false)
    else return (widestClip, true)
  | other => n.site.fail (.node (.wrongFamily other "an activation"))

/-- Reads an activation. -/
def readActivation (n : Node) (opset : Int64) : Except Fault Action := do
  let (function, boundsAreInputs) ← readFunction n opset
  n.checkArity (if boundsAreInputs then .range 1 3 else .exactly 1) (.exactly 1)
  return .activation function boundsAreInputs

/-- Reads a normalisation by constant statistics. -/
def readBatchNorm (n : Node) (opset : Int64) : Except Fault Action := do
  n.checkArity (.exactly 5) (.range 1 5)
  if wantsOutputFrom n 1 then n.site.fail (.elementwise .trainingOutputs)
  if opset ≤ 6 then
    if (← n.getD .int "is_test" 0) = 0 then n.site.fail (.elementwise .trainingMode)
  return .batchNorm (← n.getD .float "epsilon" (.constant 1 (-5)))

/-- Reads a softmax. Its default axis is the last one from opset 13 on. -/
def readSoftmax (n : Node) (opset : Int64) : Except Fault Action := do
  n.checkArity (.exactly 1) (.exactly 1)
  return .softmax (← n.getD .int "axis" (if opset < 13 then 1 else -1))

/-- Reads a response normalisation. -/
def readLrn (n : Node) : Except Fault Action := do
  n.checkArity (.exactly 1) (.exactly 1)
  let size ← n.get .int "size"
  if size ≤ 0 then n.site.fail (.elementwise (.windowSize size))
  let alpha ← n.getD .float "alpha" (.constant 1 (-4))
  let beta ← n.getD .float "beta" (.constant 75 (-2))
  let bias ← n.getD .float "bias" .one
  return .lrn size.toInt.toNat alpha beta bias

/-! ### Windowed operators -/

/-- Reads a convolution. -/
def readConv (n : Node) : Except Fault Action := do
  n.checkArity (.range 2 3) (.exactly 1)
  let group ← n.getD .int "group" 1
  if group ≤ 0 then n.site.fail (.window (.invalidGroup group))
  return .conv group.toInt.toNat (← Window.ofNode n)

/-- The kind of a pooling. -/
def readPoolKind (n : Node) : Except Fault PoolKind :=
  match n.opType with
  | "MaxPool" | "GlobalMaxPool" => .ok .max
  | "AveragePool" | "GlobalAveragePool" => .ok .mean
  | other => n.site.fail (.node (.wrongFamily other "a pooling"))

/-- Reads a pooling. -/
def readPool (n : Node) : Except Fault Action := do
  n.checkArity (.exactly 1) (.range 1 2)
  let kind ← readPoolKind n
  let window ← Window.ofNode n
  if window.kernel.isNone then n.site.fail (.window .kernelRequired)
  if (← n.getD .int "ceil_mode" 0) ≠ 0 then n.site.fail (.window .roundingUp)
  if (window.dilations.getD []).any (· ≠ 1) then n.site.fail (.window .dilatedPooling)
  if wantsOutputFrom n 1 then n.site.fail (.window .indexOutput)
  if kind = .mean then
    if (← n.getD .int "count_include_pad" 0) ≠ 0 then n.site.fail (.window .paddingCounted)
  return .pool kind window

/-- Reads a pooling over all positions. -/
def readGlobalPool (n : Node) : Except Fault Action := do
  n.checkArity (.exactly 1) (.exactly 1)
  return .globalPool (← readPoolKind n)

/-! ### Matrices and recurrences -/

/-- Reads a product of two matrices. -/
def readGemm (n : Node) : Except Fault Action := do
  n.checkArity (.range 2 3) (.exactly 1)
  let alpha ← n.getD .float "alpha" .one
  let beta ← n.getD .float "beta" .one
  let transA ← n.getD .int "transA" 0
  let transB ← n.getD .int "transB" 0
  return .gemm ⟨alpha, beta, transA != 0, transB != 0⟩

/-- Reads a product of stacks of matrices. -/
def readMatMul (n : Node) : Except Fault Action := do
  n.checkArity (.exactly 2) (.exactly 1)
  return .matMul

/-- The activations of a recurrent unit that are supported. -/
def gateActivations : List String := ["Sigmoid", "Tanh", "Tanh"]

/-- Whether a direction runs backwards. -/
def readDirection (n : Node) : Except Fault Bool := do
  match ← n.getD .string "direction" "forward" with
  | "forward" => return false
  | "reverse" => return true
  | "bidirectional" => n.site.fail (.recurrent .bidirectional)
  | other => n.site.fail (.recurrent (.unknownDirection other))

/-- Reads a recurrent unit. -/
def readLstm (n : Node) : Except Fault Action := do
  n.checkArity (.range 3 8) (.range 1 3)
  if (n.outputs.getD 0 "").isEmpty || wantsOutputFrom n 1 then n.site.fail (.recurrent .outputs)
  let hiddenSize ← n.get .int "hidden_size"
  if hiddenSize ≤ 0 then n.site.fail (.recurrent (.hiddenSize hiddenSize))
  let reverse ← readDirection n
  let activations ← n.getD .strings "activations" []
  if activations ≠ [] ∧ activations ≠ gateActivations then
    n.site.fail (.recurrent (.activations activations))
  if n.has "clip" then n.site.fail (.recurrent .clipping)
  if (← n.getD .int "input_forget" 0) ≠ 0 then n.site.fail (.recurrent .coupledGates)
  if (← n.getD .int "layout" 0) ≠ 0 then n.site.fail (.recurrent .batchMajor)
  return .lstm hiddenSize.toInt.toNat reverse

/-! ### Rearranging operators -/

/-- Reads a flattening. -/
def readFlatten (n : Node) : Except Fault Action := do
  n.checkArity (.exactly 1) (.exactly 1)
  return .flatten (← n.getD .int "axis" 1)

/-- Reads a reshaping. From opset 5 on the shape is an input. -/
def readReshape (n : Node) (opset : Int64) : Except Fault Action := do
  if opset < 5 then
    n.checkArity (.exactly 1) (.exactly 1)
    return .reshape (some (← n.get .ints "shape"))
  else
    n.checkArity (.exactly 2) (.exactly 1)
    return .reshape none

/-- Reads the dropping of unit axes. From opset 13 on the axes are an input. -/
def readSqueeze (n : Node) (opset : Int64) : Except Fault Action := do
  if opset < 13 then
    n.checkArity (.exactly 1) (.exactly 1)
    return .squeeze (← n.get? .ints "axes")
  else
    n.checkArity (.range 1 2) (.exactly 1)
    return .squeeze none

/-- Reads the insertion of unit axes. From opset 13 on the axes are an input. -/
def readUnsqueeze (n : Node) (opset : Int64) : Except Fault Action := do
  if opset < 13 then
    n.checkArity (.exactly 1) (.exactly 1)
    return .unsqueeze (some (← n.get .ints "axes"))
  else
    n.checkArity (.exactly 2) (.exactly 1)
    return .unsqueeze none

/-- Reads a concatenation. Before opset 4 its axis has a default. -/
def readConcat (n : Node) (opset : Int64) : Except Fault Action := do
  n.checkArity (.atLeast 1) (.exactly 1)
  return .concat (← if opset < 4 then n.getD .int "axis" 1 else n.get .int "axis")

/-- Reads a query for a shape. -/
def readShape (n : Node) : Except Fault Action := do
  n.checkArity (.exactly 1) (.exactly 1)
  return .shapeOf

/-- Reads a gathering. -/
def readGather (n : Node) : Except Fault Action := do
  n.checkArity (.exactly 2) (.exactly 1)
  return .gather (← n.getD .int "axis" 0)

/-- Reads the filling of a shape, which came with opset 9. -/
def readConstantOfShape (n : Node) (opset : Int64) : Except Fault Action := do
  if opset < 9 then n.site.fail (.node (.notInOpset opset))
  n.checkArity (.exactly 1) (.exactly 1)
  let value ← n.getD .tensor "value" (.scalar .zero)
  if value.shape.count ≠ 1 then n.site.fail (.rearrange (.notSingleValue value.shape))
  return .constantOfShape value

/-- Fails at the first attribute of a constant that is not supported. -/
def refuseForms (n : Node) (names : List String) : Except Fault Unit :=
  match names.find? n.has with
  | some name => n.site.fail (.rearrange (.valueForm name))
  | none => .ok ()

/-- Reads a constant, which has exactly one attribute for its value. -/
def readConstant (n : Node) : Except Fault Action := do
  n.checkArity (.exactly 0) (.exactly 1)
  refuseForms n ["sparse_value", "value_string", "value_strings"]
  let tensor ← n.get? .tensor "value"
  let float ← n.get? .float "value_float"
  let floats ← n.get? .floats "value_floats"
  let listed ← floats.mapM fun v => Constant.ofBuffer ⟨[v.length]⟩ (.floats v.toArray)
  let int ← n.get? .int "value_int"
  let single ← int.mapM fun v => Constant.ofBuffer .scalar (.ints #[v])
  let ints ← n.get? .ints "value_ints"
  let values := [tensor, float.map .scalar, listed, single,
    ints.map fun v => Constant.ofInts v.toArray].filterMap id
  match values with
  | [value] => return .constant value
  | _ => n.site.fail (.rearrange (.valueCount values.length))

/-- Reads a slice. From opset 10 on the bounds are inputs. -/
def readSlice (n : Node) (opset : Int64) : Except Fault Action := do
  if opset < 10 then
    n.checkArity (.exactly 1) (.exactly 1)
    let starts ← n.get .ints "starts"
    let ends ← n.get .ints "ends"
    let axes ← n.get? .ints "axes"
    return .slice (some ⟨starts, ends, axes, none⟩)
  else
    n.checkArity (.range 3 5) (.exactly 1)
    return .slice none

/-- Reads a mean. -/
def readReduceMean (n : Node) : Except Fault Action := do
  n.checkArity (.exactly 1) (.exactly 1)
  let axes ← n.get? .ints "axes"
  return .reduceMean axes ((← n.getD .int "keepdims" 1) != 0)

/-! ### All families -/

/-- What a node does under an opset. -/
def action (family : Family) (n : Node) (opset : Int64) : Except Fault Action :=
  match family with
  | identity => readIdentity n
  | eltwise => readEltwise n opset
  | activation => readActivation n opset
  | conv => readConv n
  | pool => readPool n
  | globalPool => readGlobalPool n
  | batchNorm => readBatchNorm n opset
  | gemm => readGemm n
  | matMul => readMatMul n
  | softmax => readSoftmax n opset
  | lrn => readLrn n
  | lstm => readLstm n
  | flatten => readFlatten n
  | reshape => readReshape n opset
  | squeeze => readSqueeze n opset
  | unsqueeze => readUnsqueeze n opset
  | concat => readConcat n opset
  | shape => readShape n
  | gather => readGather n
  | constantOfShape => readConstantOfShape n opset
  | constant => readConstant n
  | slice => readSlice n opset
  | reduceMean => readReduceMean n

/-- Reads a node as an operator. -/
def read (family : Family) (n : Node) (opset : Int64) : Except Fault Operator := do
  return ⟨.ofNode n opset, ← family.action n opset⟩

end Family

end Lamina
