import Lamina.Broadcast
import Lamina.Kernel
import Lamina.Node

/-!
# Matrix products

The extents of matrix products: of two plain matrices, each possibly transposed, and of stacks of
matrices whose leading axes broadcast.
-/

namespace Lamina

/-! ### Plain products -/

/-- `alpha * op(A) * op(B) + beta * C`, where `op` may transpose. -/
structure Gemm where
  /-- The factor of the product. -/
  alpha : Binary32
  /-- The factor of the free term. -/
  beta : Binary32
  /-- Whether the first matrix is transposed. -/
  transA : Bool
  /-- Whether the second matrix is transposed. -/
  transB : Bool

/-- A product of an `m × k` by a `k × n` matrix. -/
structure ProductDims where
  /-- Rows of the first matrix. -/
  m : Nat
  /-- Columns of the first and rows of the second matrix. -/
  k : Nat
  /-- Columns of the second matrix. -/
  n : Nat

/-- The extents of a product of two matrices. -/
def Gemm.dims (g : Gemm) (h : Header) (a b : Shape) : Except Fault ProductDims :=
  match a.dims, b.dims with
  | [a0, a1], [b0, b1] =>
    let (m, k) := if g.transA then (a1, a0) else (a0, a1)
    let (kb, n) := if g.transB then (b1, b0) else (b0, b1)
    if k = kb then .ok ⟨m, k, n⟩ else h.fail (.matrix (.innerExtents k kb))
  | _, _ => h.fail (.matrix (.notMatrices a b))

/-- A buffer times a factor. The factor one leaves it as it is, element type included. -/
def Buffer.scaled (b : Buffer) (factor : Binary32) : Except Fault Buffer :=
  if factor.sameValue .one then .ok b
  else Kernel.binary .mul (b.cast .float) (.floats (.replicate b.size factor))

/-! ### Stacked products -/

/-- A product of stacks of matrices. -/
structure StackDims where
  /-- The leading axes of the result. -/
  batch : Shape
  /-- The first operand as a stack of matrices. -/
  a : Shape
  /-- The second operand as a stack of matrices. -/
  b : Shape
  /-- The extents of one product. -/
  product : ProductDims
  /-- The shape of the result. -/
  output : Shape

namespace StackDims

/-- The leading axes of a stack of matrices. -/
def leading (s : Shape) : Shape := ⟨s.dims.take (s.rank - 2)⟩

/-- The matrix axes of a stack of matrices. -/
def matrix (s : Shape) : List Nat := s.dims.drop (s.rank - 2)

/-- The extents of a product. A vector is a row on the left and a column on the right, and that axis
does not appear in the result. -/
def ofShapes (h : Header) (a b : Shape) : Except Fault StackDims := do
  if a.rank = 0 ∨ b.rank = 0 then h.fail (.matrix .scalarOperand)
  else
    let left : Shape := if a.rank = 1 then ⟨1 :: a.dims⟩ else a
    let right : Shape := if b.rank = 1 then ⟨b.dims ++ [1]⟩ else b
    let m := left.extent (left.rank - 2)
    let k := left.extent (left.rank - 1)
    let kb := right.extent (right.rank - 2)
    let n := right.extent (right.rank - 1)
    if k ≠ kb then h.fail (.matrix (.innerShapes a b))
    else
      let batch ← Broadcast.shapes h.site .trailing (leading left) (leading right)
      let rows := if 1 < a.rank then [m] else []
      let columns := if 1 < b.rank then [n] else []
      return ⟨batch, left, right, ⟨m, k, n⟩, ⟨batch.dims ++ rows ++ columns⟩⟩

/-- The values of an operand, a stack of matrices, repeated along the leading axes. -/
def stacked (d : StackDims) (c : Constant) (operand : Shape) : Array Binary32 :=
  let source := List.replicate (d.batch.rank + 2 - operand.rank) 1 ++ operand.dims
  repeatAxes c.floats source (d.batch.dims ++ matrix operand)

end StackDims

end Lamina
