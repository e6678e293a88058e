import Lamina.Axes
import Lamina.Operator.Operand

/-!
# Slicing

A slice keeps a range of positions along some axes. Bounds may be negative, counting from the end,
and are clamped to the extent, which has to have a word with a sign as they have.
-/

namespace Lamina

/-- The bounds of a slice as a node gives them. -/
structure SliceBounds where
  /-- First positions kept. -/
  starts : List Int64
  /-- First positions dropped. -/
  ends : List Int64
  /-- The axes; without them, the first ones. -/
  axes : Option (List Int64)
  /-- The distances between the positions kept. -/
  steps : Option (List Int64)

/-- The positions kept along one axis. -/
structure AxisRange where
  /-- The axis. -/
  axis : Nat
  /-- The first position. -/
  start : Nat
  /-- The number of positions. -/
  length : Nat
deriving DecidableEq

namespace SliceBounds

/-- A bound counted from the front and clamped to the extent. -/
def clamp (h : Header) (bound : Int64) (extent : Nat) : Except Fault Nat :=
  let b := bound.toInt
  if extent < signedLimit then .ok (min (if b < 0 then b + extent else b).toNat extent)
  else h.fail (.word (.unsigned extent))

/-- Continues `resolve` behind the slices in `done`. -/
def resolveFrom (h : Header) (shape : Shape) (done : List AxisRange) :
    List (Int64 × Int64 × Int64) → Except Fault (List AxisRange)
  | [] => .ok done
  | (start, stop, axis) :: rest => do
    let axis ← h.axis axis shape.rank
    if done.any fun s => s.axis == axis then h.fail (.rearrange (.slicedTwice axis))
    else
      let start ← clamp h start (shape.extent axis)
      let stop ← clamp h stop (shape.extent axis)
      resolveFrom h shape (done ++ [⟨axis, start, stop - start⟩]) rest

/-- The positions kept along each named axis of a shape, in the order of the axes. -/
def resolve (b : SliceBounds) (h : Header) (shape : Shape) : Except Fault (List AxisRange) := do
  let n := b.starts.length
  let axes := b.axes.getD ((List.range n).map fun i => Int64.ofNat i)
  if b.ends.length ≠ n ∨ axes.length ≠ n then
    h.fail (.rearrange (.boundCounts n b.ends.length axes.length))
  match b.steps with
  | none => pure ()
  | some steps =>
    if steps.length ≠ n then h.fail (.rearrange .stepCount)
    match steps.find? (· ≠ 1) with
    | some step => h.fail (.rearrange (.step step))
    | none => pure ()
  let slices ← resolveFrom h shape [] (b.starts.zip (b.ends.zip axes))
  return slices.mergeSort fun x y => x.axis ≤ y.axis

end SliceBounds

namespace AxisRange

/-- The shape that is left after slicing. -/
def apply (slices : List AxisRange) (shape : Shape) : Shape :=
  slices.foldl (fun s slice => s.setExtent slice.axis slice.length) shape

/-- The offset of the first element kept. -/
def base (slices : List AxisRange) (shape : Shape) : Nat :=
  slices.foldr (fun s rest => s.start * shape.strides.getD s.axis 0 + rest) 0

end AxisRange

end Lamina
