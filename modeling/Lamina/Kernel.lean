import Lamina.Activation
import Lamina.Buffer.Strided
import Lamina.Fault
import Lamina.Product

/-!
# Arithmetic on buffers

What constant folding computes: elementwise operations, matrix products, softmax and means. Operands
are flat row-major buffers. Integer results that do not fit into 64 bits are faults, not wrapped. A
product of two matrices is a parameter.
-/

namespace Lamina

/-! ### Operations on elements -/

/-- An arithmetic operation of two operands. -/
inductive BinaryOp where
  | add
  | sub
  | mul
  | div
deriving DecidableEq

namespace BinaryOp

/-- The sign of the operation. -/
def sign : BinaryOp → String
  | add => "+"
  | sub => "-"
  | mul => "*"
  | div => "/"

/-- The operation on words. -/
def onFloats : BinaryOp → Binary32 → Binary32 → Binary32
  | add => Binary32.add
  | sub => Binary32.sub
  | mul => Binary32.mul
  | div => Binary32.div

/-- An integer as a 64-bit integer, if it is in range. -/
def inRange? (i : Int) : Option Int64 :=
  if Int64.minValue.toInt ≤ i ∧ i ≤ Int64.maxValue.toInt then some (Int64.ofInt i) else none

/-- The operation on integers. Division goes toward zero; there is no result if the exact one is out
of range or the divisor is zero. -/
def onInts? (op : BinaryOp) (x y : Int64) : Option Int64 :=
  match op with
  | add => inRange? (x.toInt + y.toInt)
  | sub => inRange? (x.toInt - y.toInt)
  | mul => inRange? (x.toInt * y.toInt)
  | div => if y = 0 then none else inRange? (x.toInt.tdiv y.toInt)

end BinaryOp

/-- An operation of one operand. -/
inductive UnaryOp where
  | activation (function : Activation)
  | negate
  | reciprocal
  | squareRoot

namespace UnaryOp

/-- The operation on words. -/
def onFloats : UnaryOp → Binary32 → Binary32
  | activation a => a.apply
  | negate => Binary32.neg
  | reciprocal => Binary32.div Binary32.one
  | squareRoot => Binary32.sqrt

end UnaryOp

/-! ### Operations on buffers -/

namespace Kernel

/-- The name of this way of computing. -/
def name : String := "cpu"

/-- Faults of an operation are attributed here. -/
def site (operation : String) : Site := ⟨"CpuBackend", operation⟩

/-- An operation applied element by element to buffers of one size and type. -/
def binary (op : BinaryOp) (a b : Buffer) : Except Fault Buffer :=
  let site := site op.sign
  if a.size ≠ b.size then site.fail (.kernel (.lengths a.size b.size))
  else match a, b with
    | .floats x, .floats y => .ok (.floats (x.zipWith op.onFloats y))
    | .ints x, .ints y =>
      match (x.zip y).mapM fun p => op.onInts? p.1 p.2 with
      | some out => .ok (.ints out)
      | none => site.fail (.kernel .integerRange)
    | _, _ => site.fail (.kernel (.types a.elementType b.elementType))

/-- An operation applied element by element. Activations of integers go through words and are cut
off again. -/
def unary (op : UnaryOp) : Buffer → Except Fault Buffer
  | .floats x => .ok (.floats (x.map op.onFloats))
  | .ints x =>
    match op with
    | .activation a => .ok (.ints (x.map fun i => (a.apply (.ofInt64 i)).toInt64))
    | .negate =>
      match x.mapM fun i => BinaryOp.inRange? (-i.toInt) with
      | some out => .ok (.ints out)
      | none => (site "-").fail (.kernel .negationRange)
    | .reciprocal => (site "unary").fail (.kernel (.notOnIntegers "Reciprocal"))
    | .squareRoot => (site "unary").fail (.kernel (.notOnIntegers "Sqrt"))

/-- `batch` products of `m × k` by `k × n` matrices, one behind the other. -/
def matmul (p : MatrixProduct) (a b : Array Binary32) (batch m k n : Nat) :
    Except Fault (Array Binary32) :=
  if a.size = batch * m * k ∧ b.size = batch * k * n then
    .ok ((List.range batch).flatMap fun s =>
      (p.multiply m k n (a.extract (s * m * k)) (b.extract (s * k * n))).toList).toArray
  else (site "matmul").fail (.kernel (.matrices batch m k n))

/-- The rows of a buffer, `count` of them with `size` elements each. -/
def rows {α : Type} (data : Array α) (size count : Nat) : List (List α) :=
  (List.range count).map fun r => (data.extract (r * size) (r * size + size)).toList

/-- Exponentials of the distances to the maximum, divided by their sum. -/
def softmaxRow (row : List Binary32) : List Binary32 :=
  let top := row.foldl Binary32.max (.infinite true)
  let powers := row.map fun x => Binary32.exp (Binary32.sub x top)
  let total := powers.foldl Binary32.add .zero
  powers.map fun x => Binary32.div x total

/-- Softmax of each run of `inner` elements. -/
def softmax (data : Array Binary32) (inner : Nat) : Except Fault (Array Binary32) :=
  if inner = 0 ∨ data.size % inner ≠ 0 then
    (site "softmax").fail (.kernel (.rows data.size inner))
  else .ok ((rows data inner (data.size / inner)).flatMap softmaxRow).toArray

/-- The extents with those of the given axes set to one. -/
def reducedDims (dims axes : List Nat) : List Nat :=
  dims.zipIdx.map fun (d, axis) => if axes.contains axis then 1 else d

/-- For each position of a buffer, the cell of the reduced buffer it belongs to. -/
def reductionCells (dims axes : List Nat) : List Nat :=
  let out := reducedDims dims axes
  stridedOffsets dims ((out.zip (rowMajorStrides out)).map fun (d, s) => if d = 1 then 0 else s)

/-- The mean over axes of a row-major buffer: sums from the left, times the reciprocal of the number
of elements in each. -/
def reduceMean (data : Array Binary32) (dims axes : List Nat) : Except Fault (Array Binary32) :=
  if data.size = positions dims ∧ axes.all (· < dims.length) then
    let sums := (data.toList.zip (reductionCells dims axes)).foldl
      (fun sums (x, cell) => sums.modify cell fun sum => Binary32.add sum x)
      (Array.replicate (positions (reducedDims dims axes)) .zero)
    let count := positions (axes.map fun axis => dims.getD axis 1)
    let scale := Binary32.div Binary32.one (.ofInt (max count 1))
    .ok (sums.map fun sum => Binary32.mul sum scale)
  else (site "reduce_mean").fail (.kernel (.reduction dims axes))

end Kernel

end Lamina
