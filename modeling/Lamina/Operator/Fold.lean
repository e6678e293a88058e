import Lamina.Operator.Infer

/-!
# Constant folding

The output of an operator whose inputs are constant, computed at compile time. Operators that only
move values work on the values in axis order, so that the layouts of the inputs do not matter.
-/

namespace Lamina

/-! ### Elementwise operators -/

/-- The value of a bound of a clip. -/
def clipBound (h : Header) (c : Option Constant) (default : Binary32) : Except Fault Binary32 :=
  match c with
  | none => .ok default
  | some c =>
    match c.floats.toList with
    | [v] => .ok v
    | _ => h.fail (.elementwise (.boundNotScalar c.shape))

/-- The function of an activation, with the bounds of a clip filled in. -/
def resolveFunction (h : Header) (function : Activation) (boundsAreInputs : Bool)
    (low high : Option Constant) : Except Fault Activation := do
  if boundsAreInputs then
    let low ← clipBound h low (.extreme true)
    let high ← clipBound h high (.extreme false)
    return .clip low high
  else return function

/-- The value of an activation, under the layout of the input. -/
def foldActivation (h : Header) (function : Activation) (boundsAreInputs : Bool) (ops : Operands) :
    Except Fault Constant := do
  let low ← ops.constant? h 1
  let high ← ops.constant? h 2
  let resolved ← resolveFunction h function boundsAreInputs low high
  let x ← ops.constant h 0
  Constant.ofParts x.shape x.layout (← Kernel.unary (.activation resolved) x.data)

/-- An operand repeated up to the shape of the result. -/
def expandOperand (h : Header) (mode : Alignment) (out : Shape) (c : Constant) :
    Except Fault Constant := do
  let offset ← Broadcast.offset h.site mode c.shape.rank out.rank
  Broadcast.constant c offset out

/-- Combines a value with one more operand. -/
def combineOperand (h : Header) (op : BinaryOp) (mode : Alignment) (out : Shape)
    (acc : Option Constant) (c : Constant) : Except Fault (Option Constant) := do
  let expanded ← expandOperand h mode out c
  match acc with
  | none => return some expanded
  | some left =>
    if left.elementType ≠ expanded.elementType then
      h.fail (.elementwise (.inputTypes left.elementType expanded.elementType))
    else
      let data ← Kernel.binary op left.data expanded.data
      return some (← Constant.ofBuffer out data)

/-- The operands combined from the left. -/
def foldEltwise (h : Header) (op : Pointwise) (mode : Alignment) (ops : Operands) :
    Except Fault Constant := do
  let out ← commonShape h mode ops.shapes
  let result ← (List.range ops.length).foldlM (fun acc i => do
    combineOperand h op.binary mode out acc (← ops.constant h i)) none
  match result with
  | some c => return c
  | none => h.fail (.elementwise .noInputs)

/-- Softmax over the axes from one on. -/
def foldSoftmax (h : Header) (axis : Int64) (ops : Operands) : Except Fault Constant := do
  let x ← ops.constant h 0
  let a ← softmaxAxis h axis x.shape.rank
  let inner ← h.site.product (x.shape.dims.drop (min a x.shape.rank))
  Constant.ofBuffer x.shape (.floats (← Kernel.softmax x.floats inner))

/-- The mean over some axes. -/
def foldReduceMean (h : Header) (axes : Option (List Int64)) (keepDims : Bool) (ops : Operands) :
    Except Fault Constant := do
  let x ← ops.constant h 0
  let reduced ← reducedAxes h axes x.shape.rank
  let data ← Kernel.reduceMean x.floats x.shape.dims reduced
  Constant.ofBuffer (meanShape x.shape reduced keepDims) (.floats data)

/-! ### Matrices -/

/-- The values of a matrix, transposed on request. -/
def matrixValues (c : Constant) (transposed : Bool) : Array Binary32 :=
  if transposed then permuteAxes c.floats c.shape.dims [1, 0] else c.floats

/-- A product of two matrices with a free term, which has at most two axes. -/
def foldGemm (p : MatrixProduct) (h : Header) (params : Gemm) (ops : Operands) :
    Except Fault Constant := do
  let a ← ops.constant h 0
  let b ← ops.constant h 1
  let d ← params.dims h a.shape b.shape
  let product ←
    Kernel.matmul p (matrixValues a params.transA) (matrixValues b params.transB) 1 d.m d.k d.n
  let scaled ← (Buffer.floats product).scaled params.alpha
  let out : Shape := ⟨[d.m, d.n]⟩
  match ← ops.constant? h 2 with
  | none => Constant.ofBuffer out scaled
  | some c =>
    let offset ← h.site.difference 2 c.shape.rank
    let expanded ← Broadcast.constant c offset out
    let bias ← (expanded.source.cast .float).scaled params.beta
    Constant.ofBuffer out (← Kernel.binary .add scaled bias)

/-- A product of stacks of matrices. -/
def foldMatMul (p : MatrixProduct) (h : Header) (ops : Operands) : Except Fault Constant := do
  let a ← ops.constant h 0
  let b ← ops.constant h 1
  let d ← StackDims.ofShapes h a.shape b.shape
  let product ← Kernel.matmul p (d.stacked a d.a) (d.stacked b d.b) d.batch.count
    d.product.m d.product.k d.product.n
  Constant.ofBuffer d.output (.floats product)

/-! ### Rearranging operators -/

/-- Input 0 under the shape of the output. -/
def foldReshaped (h : Header) (ops : Operands) (shape : Except Fault Shape) :
    Except Fault Constant := do
  let s ← shape
  let c ← ops.constant h 0
  c.reshaped s

/-- The type that elements of several types are joined in. -/
def joinedType : List ElementType → ElementType
  | [] => .float
  | t :: ts => ts.foldl (fun a b => if a = b then a else .float) t

/-- Blocks of several buffers in turn: for each position before the axis, the block of each
buffer. -/
def interleave {α : Type} (parts : List (Array α × Nat)) (outer : Nat) : Array α :=
  ((List.range outer).flatMap fun o =>
    parts.flatMap fun (data, block) => (data.extract (o * block) ((o + 1) * block)).toList).toArray

/-- The values of several tensors joined along an axis. -/
def foldConcat (h : Header) (axis : Int64) (ops : Operands) : Except Fault Constant := do
  let (a, out) ← joinedShape h axis ops.shapes
  let outer := positions (out.dims.take a)
  let tensors ← (List.range ops.length).mapM fun i => ops.constant h i
  let block (c : Constant) : Nat := positions (c.shape.dims.drop a)
  let data : Buffer := match joinedType (tensors.map Constant.elementType) with
    | .float => .floats (interleave (tensors.map fun c => (c.floats, block c)) outer)
    | .int64 => .ints (interleave (tensors.map fun c => (c.source.toInts, block c)) outer)
  Constant.ofBuffer out data

/-- A negative index with the extent added to it, read as a word with a sign. -/
def countedIndex (h : Header) (extent : Nat) (index : Int64) : Except Fault Int64 :=
  if index < 0 then
    let extent := Int64.ofNat extent
    match BinaryOp.add.onInts? index extent with
    | some sum => .ok sum
    | none => h.fail (.word (.signedSum index extent))
  else .ok index

/-- An index counted from the front. From opset 11 on, negative indices count from the back. -/
def wrapIndex (h : Header) (extent : Nat) (index : Int64) : Except Fault Nat := do
  if index < 0 ∧ h.opset < 11 then h.fail (.rearrange (.negativeIndex index))
  else
    let resolved ← countedIndex h extent index
    if resolved < 0 ∨ extent ≤ resolved.toInt.toNat then
      h.fail (.rearrange (.indexOutOfRange index extent))
    else return resolved.toInt.toNat

/-- For each position before the axis, the picked rows of a buffer. -/
def pickRows {α : Type} (outer extent inner : Nat) (picked : List Nat) (data : Array α) : Array α :=
  ((List.range outer).flatMap fun o =>
    picked.flatMap fun r =>
      let start := (o * extent + r) * inner
      (data.extract start (start + inner)).toList).toArray

/-- The positions along an axis that the indices pick. -/
def foldGather (h : Header) (axis : Int64) (ops : Operands) : Except Fault Constant := do
  let data ← ops.constant h 0
  let indices ← ops.constant h 1
  let (a, out) ← gatherShape h axis data.shape indices.shape
  let dims := data.shape.dims
  let extent := data.shape.extent a
  let picked ← indices.ints.mapM (wrapIndex h extent)
  let outer := positions (dims.take a)
  let inner := positions (dims.drop (a + 1))
  Constant.ofBuffer out (data.source.rearrange fun v => pickRows outer extent inner picked v)

/-- A shape filled with the value of a constant of one element. -/
def foldFilled (h : Header) (value : Constant) (ops : Operands) : Except Fault Constant := do
  let shape ← filledShape h ops
  let n ← h.site.product shape.dims
  Constant.ofBuffer shape
    (value.data.rearrange fun v => (v.toList.take 1).toArray.flatMap fun x => Array.replicate n x)

/-- The sub-tensor that a slice keeps. -/
def foldSlice (h : Header) (bounds : Option SliceBounds) (ops : Operands) :
    Except Fault Constant := do
  let x ← ops.constant h 0
  let slices ← keptSlices h bounds ops
  let out := AxisRange.apply slices x.shape
  let base := AxisRange.base slices x.shape
  Constant.ofBuffer out
    (x.source.rearrange fun v => readStrided v base out.dims x.shape.strides)

/-! ### All operators -/

namespace Operator

/-- The value of the output, with a way to multiply matrices. -/
def foldBy (p : MatrixProduct) (op : Operator) (ops : Operands) : Except Fault Constant :=
  let h := op.header
  match op.action with
  | .identity => ops.constant h 0
  | .eltwise e mode => foldEltwise h e mode ops
  | .activation function boundsAreInputs => foldActivation h function boundsAreInputs ops
  | .gemm params => foldGemm p h params ops
  | .matMul => foldMatMul p h ops
  | .softmax axis => foldSoftmax h axis ops
  | .flatten .. | .reshape .. | .squeeze .. | .unsqueeze .. =>
    foldReshaped h ops (op.outputShape ops)
  | .concat axis => foldConcat h axis ops
  | .shapeOf => do
    let x ← ops.shape h 0
    return .ofInts (x.dims.map fun d => Int64.ofNat d).toArray
  | .gather axis => foldGather h axis ops
  | .constantOfShape value => foldFilled h value ops
  | .constant value => .ok value
  | .slice bounds => foldSlice h bounds ops
  | .reduceMean axes keepDims => foldReduceMean h axes keepDims ops
  | .conv .. | .pool .. | .globalPool .. | .batchNorm .. | .lrn .. | .lstm .. =>
    h.fail (.node .notFoldable)

/-- The value of the output. -/
def fold (op : Operator) (ops : Operands) : Except Fault Constant := op.foldBy .plain ops

end Operator

end Lamina
