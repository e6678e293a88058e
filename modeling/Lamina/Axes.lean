import Lamina.Node

/-!
# Lists of axes

Several operators name the axes they work on. Here such lists are resolved against a rank, and the
axes that one shape has more than another are found.
-/

namespace Lamina

/-- Whether two neighbours in a list are equal. -/
def hasAdjacentEqual : List Nat → Bool
  | a :: b :: rest => a == b || hasAdjacentEqual (b :: rest)
  | _ => false

/-- The list with only the first of equal neighbours. -/
def dropAdjacentEqual : List Nat → List Nat
  | a :: b :: rest =>
    if a = b then dropAdjacentEqual (b :: rest) else a :: dropAdjacentEqual (b :: rest)
  | l => l

/-- A list of naturals in ascending order. -/
def ascending (l : List Nat) : List Nat := l.mergeSort fun a b => a ≤ b

namespace Header

/-- The named axes, counted from the front, in ascending order. -/
def sortedAxes (h : Header) (axes : List Int64) (rank : Nat) : Except Fault (List Nat) :=
  ascending <$> axes.mapM fun a => h.axis a rank

/-- The named axes in ascending order, none of which may be repeated. -/
def distinctAxes (h : Header) (axes : List Int64) (rank : Nat) : Except Fault (List Nat) := do
  let sorted ← h.sortedAxes axes rank
  if hasAdjacentEqual sorted then h.fail (.rearrange (.repeatedAxis axes)) else return sorted

end Header

/-- The axes of `long`, from `axis` on, that are left over when the extents of `short` are matched
from the left. -/
def leftoverAxes (axis : Nat) : (short long : List Nat) → List Nat
  | _, [] => []
  | [], _ :: long => axis :: leftoverAxes (axis + 1) [] long
  | s :: short, d :: long =>
    if s = d then leftoverAxes (axis + 1) short long
    else axis :: leftoverAxes (axis + 1) (s :: short) long

namespace Shape

/-- The axes of `long` that are left over when the extents of `short` are matched from the left. If
the two differ by unit axes only, these are unit axes, and without them the shapes have the same
memory image. -/
def extraAxes (short long : Shape) : List Nat := leftoverAxes 0 short.dims long.dims

/-- The axes below a rank that are not in a list. -/
def otherAxes (rank : Nat) (axes : List Nat) : List Nat :=
  (List.range rank).filter fun a => !axes.contains a

/-- The shape without some of its axes. -/
def dropAxes (s : Shape) (axes : List Nat) : Shape := ⟨(otherAxes s.rank axes).map s.extent⟩

/-- Continues `insertAxes` at an axis. -/
def insertFrom (inserted : List Nat) (axis : Nat) : (count : Nat) → List Nat → List Nat
  | 0, _ => []
  | count + 1, dims =>
    if inserted.contains axis then 1 :: insertFrom inserted (axis + 1) count dims
    else dims.headD 1 :: insertFrom inserted (axis + 1) count dims.tail

/-- The shape with unit axes inserted so that they stand at the given positions of the result. -/
def insertAxes (s : Shape) (inserted : List Nat) : Shape :=
  ⟨insertFrom inserted 0 (s.rank + inserted.length) s.dims⟩

end Shape

end Lamina
