import Lamina.Buffer.Strided
import Lamina.Word

/-!
# Constant tensors

A constant tensor is a buffer with a shape and a layout. The buffer lies in memory order, as the
layout says; without a layout that is axis order. What the tensor *means* is its values in axis
order, `Constant.source`: changing the layout moves the buffer and keeps the source.

That the layout has the rank of the shape and that the buffer has its number of elements is part of
the type. `Constant.ofParts` is the only way in for data from outside.
-/

namespace Lamina

/-- A tensor whose values are known. -/
structure Constant where
  /-- The extents. -/
  shape : Shape
  /-- The slot of each axis, or no decision. -/
  layout : Layout
  /-- The elements in memory order. -/
  data : Buffer
  /-- The layout is open or has one slot per axis. -/
  layout_fits : layout.fits shape.rank = true
  /-- The buffer holds one element per position. -/
  size_eq : data.size = shape.count

namespace Constant

/-- Faults of constants are attributed here. -/
def site : Site := ⟨"ConstantTensor", ""⟩

/-- The constant made of these parts, if they fit together. -/
def ofParts (shape : Shape) (layout : Layout) (data : Buffer) : Except Fault Constant :=
  if hl : layout.fits shape.rank = true then
    if hs : data.size = shape.count then .ok ⟨shape, layout, data, hl, hs⟩
    else site.fail (.tensor (.bufferMismatch data.size shape))
  else site.fail (.tensor (.layoutMismatch layout shape))

/-- The constant with these values in axis order. -/
def ofBuffer (shape : Shape) (data : Buffer) : Except Fault Constant :=
  ofParts shape .uncommitted data

/-- A single word. -/
def scalar (x : Binary32) : Constant := ⟨.scalar, .uncommitted, .floats #[x], rfl, rfl⟩

/-- A list of integers, the form in which shapes and indices come. -/
def ofInts (values : Array Int64) : Constant :=
  ⟨⟨[values.size]⟩, .uncommitted, .ints values, rfl, by simp [Buffer.size, Shape.count, positions]⟩

/-- The type of the elements. -/
def elementType (c : Constant) : ElementType := c.data.elementType

/-- The values in axis order. -/
def source (c : Constant) : Buffer :=
  if c.layout.isShuffled then
    let perm := c.layout.memoryOrder c.shape.rank
    let inMemory := (c.shape.permuted perm).dims
    c.data.rearrange fun v => permuteAxes v inMemory (inverseOrder perm)
  else c.data

/-- The values in axis order as words. -/
def floats (c : Constant) : Array Binary32 := c.source.toFloats

/-- The values in axis order as integers. -/
def ints (c : Constant) : List Int64 := c.source.toInts.toList

/-- The same values under another layout. The buffer is kept when both layouts have the same memory
image. -/
def toLayout (c : Constant) (target : Layout) : Except Fault Constant :=
  if c.layout = target then .ok c
  else if hl : target.fits c.shape.rank = true then
    if c.layout.reordersMemory target c.shape.dims then
      let perm := target.memoryOrder c.shape.rank
      ofParts c.shape target (c.source.rearrange fun v => permuteAxes v c.shape.dims perm)
    else .ok ⟨c.shape, target, c.data, hl, c.size_eq⟩
  else site.fail (.tensor (.cannotLayOut c.shape target))

/-- The same values, in axis order, under a shape with as many elements. -/
def reshaped (c : Constant) (shape : Shape) : Except Fault Constant :=
  if h : shape.count = c.shape.count then
    if c.layout.isShuffled then ofBuffer shape c.source
    else .ok ⟨shape, .uncommitted, c.data, rfl, c.size_eq.trans h.symm⟩
  else site.fail (.tensor (.cannotReshape c.shape shape))

end Constant

/-- Converting a buffer keeps its size. -/
theorem Buffer.size_cast (b : Buffer) (t : ElementType) : (b.cast t).size = b.size := by
  cases b <;> cases t <;> simp [Buffer.cast, Buffer.size, Buffer.toFloats, Buffer.toInts]

namespace Constant

/-- The same values converted to an element type, under the same layout. -/
def cast (c : Constant) (t : ElementType) : Constant :=
  if c.elementType = t then c
  else
    ⟨c.shape, c.layout, c.data.cast t, c.layout_fits, (Buffer.size_cast c.data t).trans c.size_eq⟩

/-- Equality of shape, layout and values, floats being compared as numbers. -/
def sameValues (a b : Constant) : Bool :=
  a.shape == b.shape && a.layout == b.layout && a.data.sameValues b.data

end Constant

/-! ### Raw data -/

/-- A named constant of a model. -/
structure Initializer where
  /-- The name of the value. -/
  name : String
  /-- The value. -/
  tensor : Constant

/-- The initializer with the given byte form, in axis order. -/
def Initializer.ofRaw (name : String) (type : ElementType) (shape : Shape) (raw : List UInt8) :
    Except Fault Initializer :=
  let site : Site := ⟨"Initializer", name⟩
  match Buffer.ofBytes? type raw with
  | none => site.fail (.tensor (.rawBytes raw.length type))
  | some data => do
    let count ← site.product shape.dims
    if data.size = count then
      let tensor ← Constant.ofBuffer shape data
      return ⟨name, tensor⟩
    else site.fail (.tensor (.rawElements data.size shape))

end Lamina
