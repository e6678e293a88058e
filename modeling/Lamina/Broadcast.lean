import Lamina.Constant
import Lamina.Layout.Assign

/-!
# Broadcasting

Operands of different shapes are aligned inside the shape of the result: an operand of rank `r`
occupies `r` consecutive axes from an offset on and has extent one elsewhere. Along an axis where it
has one position and the result has several, its values repeat.
-/

namespace Lamina

/-- How operands are aligned. -/
inductive Alignment where
  /-- All shapes are equal. -/
  | exact
  /-- Shapes are aligned at their last axes, and unit extents repeat. -/
  | trailing
  /-- The second operand is aligned at an axis of the first, or at the last axes if none is given,
  and only the second repeats. -/
  | anchored (axis : Option Int64)
deriving DecidableEq

namespace Broadcast

/-- The axis of the result at which an operand begins. -/
def offset (site : Site) (mode : Alignment) (rank outRank : Nat) : Except Fault Nat :=
  if outRank < rank then site.fail (.broadcast (.rank rank outRank))
  else match mode with
    | .anchored (some axis) =>
      if rank < outRank then
        let a := axis.toInt
        let resolved := if a < 0 then a + outRank else a
        if resolved < 0 ∨ outRank < resolved.toNat + rank then
          site.fail (.broadcast (.axis rank axis outRank))
        else .ok resolved.toNat
      else .ok (outRank - rank)
    | _ => .ok (outRank - rank)

/-- A shape with unit axes around it: `offset` in front, and behind up to `outRank`. -/
def embedShape (shape : Shape) (offset outRank : Nat) : Shape :=
  let dims := List.replicate offset 1 ++ shape.dims
  ⟨dims.take outRank ++ List.replicate (outRank - dims.length) 1⟩

/-- The extent that two extents broadcast to. -/
def extent? (x y : Nat) : Option Nat :=
  if x = y then some x else if x = 1 then some y else if y = 1 then some x else none

/-- Broadcasts two lists of extents of one length. -/
def extents? : List Nat → List Nat → Option (List Nat)
  | x :: xs, y :: ys => do
    let d ← extent? x y
    let ds ← extents? xs ys
    return d :: ds
  | _, _ => some []

/-- The shape that two shapes broadcast to. -/
def shapes (site : Site) (mode : Alignment) (a b : Shape) : Except Fault Shape :=
  let cannot : Except Fault Shape := site.fail (.broadcast (.shapes a b))
  match mode with
  | .exact => if a = b then .ok a else cannot
  | .trailing =>
    let rank := max a.rank b.rank
    let left := embedShape a (rank - a.rank) rank
    let right := embedShape b (rank - b.rank) rank
    match extents? left.dims right.dims with
    | some dims => .ok ⟨dims⟩
    | none => cannot
  | .anchored _ =>
    match offset site mode b.rank a.rank with
    | .error _ => cannot
    | .ok start =>
      let right := embedShape b start a.rank
      if (a.dims.zip right.dims).all fun (x, y) => x == y || y == 1 then .ok a else cannot

/-- A layout for a padded tensor. The new axes take their preferred slots where these are free, and
the first unused slots otherwise. -/
def embedLayout (site : Site) (layout : Layout) (offset outRank : Nat) (preferred : Layout) :
    Except Fault Layout :=
  if offset = 0 ∧ layout.rank = outRank then .ok layout
  else
    let roles := List.replicate offset none ++ layout.slots.map some ++
      List.replicate (outRank - (offset + layout.rank)) none
    match completeSlots preferred.slots (roles.take outRank) with
    | some slots => Layout.ofSlots slots
    | none => site.fail (.broadcast (.slots outRank))

/-- A constant repeated up to a shape, its axes beginning at `offset`. The result is in axis
order. -/
def constant (c : Constant) (offset : Nat) (out : Shape) : Except Fault Constant :=
  let padded := embedShape c.shape offset out.rank
  if padded = out ∧ c.layout.isShuffled = false then c.reshaped padded
  else Constant.ofBuffer out (c.source.rearrange fun v => repeatAxes v padded.dims out.dims)

end Broadcast

end Lamina
