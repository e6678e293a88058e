import Lamina.Layer
import Lamina.Node

/-!
# Sliding windows

Convolutions and poolings move a window over the spatial axes of their input. A node describes the
window by attributes, some of which may be absent; together with the extents of the input they
determine, axis by axis, where the window starts and how many positions it takes (`Window.resolve`).

A window of `kernel` points at distance `dilation` spans `(kernel - 1) * dilation + 1` positions of
the padded axis, and takes `(padded - span) / stride + 1` positions on it. The attributes may be any
numbers, so the sizes on the way have to be seen to have words.
-/

namespace Lamina

/-- How the padding is determined. -/
inductive Padding where
  /-- As the node says. -/
  | explicit
  /-- No padding. -/
  | valid
  /-- As many positions as strides fit, an odd unit of padding going to the end. -/
  | sameUpper
  /-- As many positions as strides fit, an odd unit of padding going to the beginning. -/
  | sameLower
deriving DecidableEq

/-- The padding mode of a name. -/
def Padding.ofName? : String → Option Padding
  | "NOTSET" => some explicit
  | "VALID" => some valid
  | "SAME_UPPER" => some sameUpper
  | "SAME_LOWER" => some sameLower
  | _ => none

/-- A window as a node describes it. -/
structure Window where
  /-- Points along each axis. -/
  kernel : Option (List Nat)
  /-- Distance between neighbouring windows along each axis. -/
  strides : Option (List Nat)
  /-- Distance between neighbouring points along each axis. -/
  dilations : Option (List Nat)
  /-- Padding: all beginnings, then all ends. -/
  pads : Option (List Nat)
  /-- How the padding is determined. -/
  padding : Padding

/-- A window along one axis of known extent. -/
structure AxisWindow where
  /-- Number of points. -/
  kernel : Nat
  /-- Distance between neighbouring windows. -/
  stride : Nat
  /-- Distance between neighbouring points. -/
  dilation : Nat
  /-- Padding at the beginning. -/
  before : Nat
  /-- Padding at the end. -/
  after : Nat
  /-- Number of positions. -/
  output : Nat
deriving DecidableEq

/-- Reads a list of sizes from an attribute. -/
def Node.sizes? (n : Node) (name : String) : Except Fault (Option (List Nat)) := do
  match ← n.get? .ints name with
  | none => return none
  | some values =>
    let sizes ← values.mapM fun v =>
      if v.toInt < 0 then n.site.fail (.window (.negativeEntry name v)) else .ok v.toInt.toNat
    return some sizes

namespace Window

/-- Reads the attributes of a window. -/
def ofNode (n : Node) : Except Fault Window := do
  let mode ← n.getD .string "auto_pad" "NOTSET"
  let padding ← match Padding.ofName? mode with
    | some p => pure p
    | none => n.site.fail (.window (.unknownPadding mode))
  let kernel ← n.sizes? "kernel_shape"
  let strides ← n.sizes? "strides"
  let dilations ← n.sizes? "dilations"
  let pads ← n.sizes? "pads"
  return { kernel, strides, dilations, pads, padding }

/-- The number of points: as the node says, as the weights say, or both if they agree. -/
def points (w : Window) (site : Site) (weights : Option (List Nat)) : Except Fault (List Nat) :=
  match w.kernel, weights with
  | some declared, some k =>
    if declared = k then .ok declared else site.fail (.window (.kernelMismatch declared k))
  | some declared, none => .ok declared
  | none, some k => .ok k
  | none, none => site.fail (.window .missingKernel)

/-- A list of sizes of the right length. An absent one is filled up. -/
def sized (site : Site) (name : String) (values : Option (List Nat)) (length fill : Nat) :
    Except Fault (List Nat) :=
  match values with
  | none => .ok (List.replicate length fill)
  | some v =>
    if v.length = length then .ok v else site.fail (.window (.entryCount name v.length length))

/-- The positions a window spans. -/
def span (kernel dilation : Nat) : Nat := (kernel - 1) * dilation + 1

/-- The extent that has room for one position per started stride, and for one at least. -/
def sameExtent (extent stride span : Nat) : Nat :=
  (max 1 ((extent + stride - 1) / stride) - 1) * stride + span

/-- Padding that is spread evenly, beginning and end. -/
def spread (padding : Padding) (total : Nat) : Nat × Nat :=
  let small := total / 2
  if padding = .sameUpper then (small, total - small) else (total - small, small)

/-- The padding of each axis, beginning and end. -/
def axisPads (w : Window) (site : Site) (extents strides spans : List Nat) :
    Except Fault (List (Nat × Nat)) :=
  let n := extents.length
  match w.padding with
  | .explicit => do
    let pads ← sized site "pads" w.pads (2 * n) 0
    return (pads.take n).zip (pads.drop n)
  | .valid => .ok (List.replicate n (0, 0))
  | mode => (List.range n).mapM fun i => do
    let needed ← site.word (sameExtent (extents.getD i 0) (strides.getD i 1) (spans.getD i 1))
    return spread mode (needed - extents.getD i 0)

/-- The window along one axis, if it fits. -/
def along (site : Site) (extent kernel stride dilation span : Nat) (pads : Nat × Nat) :
    Except Fault AxisWindow := do
  let padded ← site.word (extent + pads.1 + pads.2)
  if padded < span then site.fail (.window (.doesNotFit span padded))
  else return ⟨kernel, stride, dilation, pads.1, pads.2, (padded - span) / stride + 1⟩

/-- The window along each spatial axis of an input with the given extents. -/
def resolve (w : Window) (site : Site) (extents : List Nat) (weights : Option (List Nat)) :
    Except Fault (List AxisWindow) := do
  let n := extents.length
  let kernel ← sized site "kernel_shape" (some (← w.points site weights)) n 1
  let strides ← sized site "strides" w.strides n 1
  let dilations ← sized site "dilations" w.dilations n 1
  if strides.contains 0 || dilations.contains 0 || kernel.contains 0 then
    site.fail (.window .zeroEntry)
  else
    let spans ← (List.range n).mapM fun i =>
      site.word (span (kernel.getD i 1) (dilations.getD i 1))
    let pads ← w.axisPads site extents strides spans
    (List.range n).mapM fun i =>
      along site (extents.getD i 0) (kernel.getD i 1) (strides.getD i 1) (dilations.getD i 1)
        (spans.getD i 1) (pads.getD i (0, 0))

/-- The padding on either side, which layers take to be equal. -/
def evenPads (site : Site) (axes : List AxisWindow) : Except Fault Planar :=
  let before := axes.map AxisWindow.before
  let after := axes.map AxisWindow.after
  if before = after then .ok (Planar.ofList before 0)
  else site.fail (.window (.unevenPadding before after))

/-- The shape of a windowed result: batch, channels, then the positions of the window. -/
def outputShape (input : Shape) (channels : Nat) (axes : List AxisWindow) : Shape :=
  ⟨input.extent 0 :: channels :: axes.map AxisWindow.output⟩

/-- The slots of a windowed tensor: batch, channels, height and, if there is one, width. -/
def slots (site : Site) (rank : Nat) : Except Fault (List Slot) :=
  match rank with
  | 3 => .ok [.batchWidth, .channels, .height]
  | 4 => .ok [.batchWidth, .channels, .height, .width]
  | _ => site.fail (.role (.spatialAxes (rank - 2)))

end Window

end Lamina
