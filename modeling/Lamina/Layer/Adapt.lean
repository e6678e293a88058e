import Lamina.Broadcast
import Lamina.Layer.Graph

/-!
# Adapting tensors to layouts and shapes

Before tensors meet in a layer they are brought to one shape and one layout. Constants are
rearranged in memory and need no layer. A run-time tensor gets a broadcast layer if its extents
change and a conversion layer if its memory image changes; otherwise it is only seen under other
labels.
-/

namespace Lamina.Lowering

/-- A run-time tensor under another layout. -/
def relayout (name : String) (h : Handle) (target : Layout) : Lowering Handle :=
  if h.layout = target then return h
  else if h.layout.reordersMemory target h.shape.dims then
    add (name ++ "/convert") (.layoutConversion h.layout target) [h.outlet] h.shape target
  else return h.seenAs h.shape target

/-- A run-time tensor repeated up to a shape, its axes beginning at `offset`, under a layout. -/
def stretch (site : Site) (name : String) (h : Handle) (offset : Nat) (out : Shape)
    (target : Layout) : Lowering Handle := do
  let shape := Broadcast.embedShape h.shape offset out.rank
  let layout ← Broadcast.embedLayout site h.layout offset out.rank target
  let padded := h.seenAs shape layout
  if shape = out then relayout name padded target
  else
    let repeated ← add (name ++ "/broadcast") (.broadcast out) [padded.outlet] out layout
    relayout name repeated target

/-- Any tensor repeated up to a shape under a layout. A constant stays a constant. -/
def fit (site : Site) (name : String) (t : Tensor) (offset : Nat) (out : Shape)
    (target : Layout) : Lowering Tensor := do
  match t with
  | .constant c =>
    let expanded ← Broadcast.constant c offset out
    return .constant (← expanded.toLayout target)
  | .handle h => return .handle (← stretch site name h offset out target)

/-- A constant fed into the graph as a blob under a layout. -/
def feed (name : String) (c : Constant) (layout : Layout) : Lowering Handle := do
  let laid ← c.toLayout layout
  add (name ++ "/const") (.constantSource laid) [] laid.shape layout

end Lamina.Lowering
