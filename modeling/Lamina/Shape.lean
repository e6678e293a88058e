import Lamina.Text.Quoted

/-!
# Shapes

A shape is the list of a tensor's extents, one per axis. The empty list is a scalar. Buffers are
read in row-major order, so the strides of a shape are the products of the extents that follow.
-/

namespace Lamina

/-- The extents of a tensor, one per axis. -/
structure Shape where
  /-- The extents. -/
  dims : List Nat
deriving DecidableEq, Inhabited

/-- The number of positions of an index space with these extents. -/
def positions (dims : List Nat) : Nat := dims.foldr (fun d n => d * n) 1

/-- How far apart neighbours along each axis lie in a row-major buffer. -/
def rowMajorStrides : List Nat → List Nat
  | [] => []
  | _ :: ds => positions ds :: rowMajorStrides ds

namespace Shape

/-- The shape of a single value. -/
def scalar : Shape := ⟨[]⟩

/-- Number of axes. -/
def rank (s : Shape) : Nat := s.dims.length

/-- Number of elements. -/
def count (s : Shape) : Nat := positions s.dims

/-- The extent along an axis. Beyond the rank a tensor has one position. -/
def extent (s : Shape) (axis : Nat) : Nat := s.dims.getD axis 1

/-- Row-major strides, one per axis. -/
def strides (s : Shape) : List Nat := rowMajorStrides s.dims

/-- The extents listed in the order of the axes in `perm`. -/
def permuted (s : Shape) (perm : List Nat) : Shape := ⟨perm.map s.extent⟩

/-- The shape with one extent replaced. -/
def setExtent (s : Shape) (axis extent : Nat) : Shape := ⟨s.dims.set axis extent⟩

/-- The extents in brackets. -/
def text (s : Shape) : String := Text.naturals s.dims

end Shape

end Lamina
