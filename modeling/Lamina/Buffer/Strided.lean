import Lamina.Shape

/-!
# Strided reading

Permuting, repeating and cutting out of a row-major buffer are one operation: visit the positions of
an index space in row-major order and read the buffer at a base plus the sum of index times stride.
The offsets visited (`stridedOffsets`) depend on the extents and strides only; a zero stride repeats
an element along its axis.
-/

namespace Lamina

/-- The offsets of the positions of an index space, in row-major order. -/
def stridedOffsets : List Nat → List Nat → List Nat
  | [], _ => [0]
  | d :: ds, strides =>
    let inner := stridedOffsets ds strides.tail
    let stride := strides.headD 0
    (List.range d).flatMap fun i => inner.map (i * stride + ·)

/-- The elements at the positions of an index space, starting from `base`. -/
def readStrided {α : Type} (data : Array α) (base : Nat) (dims strides : List Nat) : Array α :=
  ((stridedOffsets dims strides).filterMap fun offset => data[base + offset]?).toArray

/-- Whether a list of axes is `0, 1, 2, …`. -/
def isIdentityOrder (perm : List Nat) : Bool := perm == List.range perm.length

/-- A row-major buffer with its axes reordered: axis `k` of the result is axis `perm[k]`. -/
def permuteAxes {α : Type} (data : Array α) (dims perm : List Nat) : Array α :=
  if isIdentityOrder perm then data
  else
    let strides := rowMajorStrides dims
    readStrided data 0 (perm.map fun p => dims.getD p 1) (perm.map fun p => strides.getD p 0)

/-- The order that undoes `perm`. -/
def inverseOrder (perm : List Nat) : List Nat :=
  (List.range perm.length).map fun axis => perm.idxOf axis

/-- Strides that repeat a buffer of extents `dims` along the axes where the extents of `target`
differ. -/
def repeatingStrides (dims target : List Nat) : List Nat :=
  (rowMajorStrides dims).zipWith (fun s same => if same then s else 0)
    (dims.zipWith (fun f t => f == t) target)

/-- A buffer of extents `dims` repeated along its unit axes up to `target`. -/
def repeatAxes {α : Type} (data : Array α) (dims target : List Nat) : Array α :=
  readStrided data 0 target (repeatingStrides dims target)

end Lamina
