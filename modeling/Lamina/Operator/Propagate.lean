import Lamina.Operator.Infer
import Lamina.Roles

/-!
# Role propagation

What each operator asks of the layouts of its inputs and its output: axes that have to take a
certain slot because the layer works on it, and axes that should take the same slot so that no data
are moved.
-/

namespace Lamina

open RoleM

/-- Links the output with the first input, for operators that keep the axes. -/
def linkThrough (h : Header) (w : Wiring) : RoleM Unit := do
  match w.input? 0 with
  | some input => link h.site input (← w.output 0)
  | none => return

/-- Pins the spatial slots on the output and on the first input. -/
def pinWindow (h : Header) (w : Wiring) : RoleM Unit := do
  let output ← w.output 0
  let rank := (← (← get).shape output).rank
  let slots ← Window.slots h.site rank
  match w.input? 0 with
  | some input => pinAll h.site input slots
  | none => pure ()
  pinAll h.site output slots

/-- Pins the channel axis of the output and of the first input, and links the two. -/
def pinChannels (h : Header) (w : Wiring) : RoleM Unit := do
  let output ← w.output 0
  discard (pin h.site output 1 .channels)
  match w.input? 0 with
  | some input =>
    discard (pin h.site input 1 .channels)
    link h.site input output
  | none => return

/-- Pins the output and, if it is bound, the first input. -/
def pinBoth (h : Header) (w : Wiring) (output input : List Slot) : RoleM Unit := do
  pinAll h.site (← w.output 0) output
  match w.input? 0 with
  | some v => pinAll h.site v input
  | none => return

/-! ### Slots of particular operators -/

/-- The slots of a matrix with one row per object, and of its transpose. -/
def matrixSlots (transposed : Bool) : List Slot :=
  if transposed then [.channels, .batchWidth] else [.batchWidth, .channels]

/-- The slots of a stack of matrices that a layer can multiply. -/
def stackSlots? : (rank : Nat) → Option (List Slot)
  | 2 => some [.batchWidth, .channels]
  | 3 => some [.batchLength, .batchWidth, .channels]
  | 4 => some [.batchLength, .batchWidth, .listSize, .channels]
  | _ => none

/-- The slots for the axes in front of a softmax. -/
def softmaxBatchSlots : (count : Nat) → List Slot
  | 0 => []
  | 1 => [.batchWidth]
  | 2 => [.batchLength, .batchWidth]
  | _ => [.batchLength, .batchWidth, .listSize]

/-- The slots of a softmax: batch slots in front of the axis, the last object slots from it on. -/
def softmaxSlots (h : Header) (axis : Int64) (rank : Nat) : Except Fault (List Slot) := do
  let a := min (← softmaxAxis h axis rank) rank
  let trailing := rank - a
  h.site.ensure (a ≤ 3 && trailing ≤ 4) (.elementwise (.softmaxFrom a rank))
  return softmaxBatchSlots a ++
    ([Slot.height, .width, .depth, .channels].drop (4 - trailing))

/-- The slots of a sequence that a recurrent unit reads: steps, batch, features. -/
def sequenceSlots : List Slot := [.batchLength, .batchWidth, .channels]

/-- The slots of a sequence that a recurrent unit produces: steps, directions, batch, features. -/
def hiddenSlots : List Slot := [.batchLength, .listSize, .batchWidth, .channels]

/-- The slots that a mean is taken over, in the order of the axes. -/
def pooledSlots : List Slot := [.height, .width]

/-! ### Rules of particular operators -/

/-- Links the axes of each operand with those of the result they are aligned with. -/
def propagateEltwise (h : Header) (mode : Alignment) (w : Wiring) : RoleM Unit := do
  let output ← w.output 0
  let outRank := (← (← get).shape output).rank
  (w.inputs.filterMap id).forM fun input => do
    let rank := (← (← get).shape input).rank
    let offset ← Broadcast.offset h.site mode rank outRank
    linkMatching h.site input offset output

/-- Pins a stack of matrices when the other operand is one constant matrix. -/
def propagateMatMul (h : Header) (w : Wiring) : RoleM Unit := do
  match w.input? 0, w.input? 1 with
  | some a, some b =>
    let t ← get
    if t.isConstant b then
      if (← t.shape b).rank = 2 then
        match stackSlots? (← t.shape a).rank with
        | some slots =>
          pinAll h.site a slots
          pinAll h.site (← w.output 0) slots
        | none => return
  | _, _ => return

/-- Pins the slots of a softmax. -/
def propagateSoftmax (h : Header) (axis : Int64) (w : Wiring) : RoleM Unit := do
  let output ← w.output 0
  let slots ← softmaxSlots h axis (← (← get).shape output).rank
  pinBoth h w slots slots

/-- Links each axis of the narrower value with the axis of the wider one that it is matched with. -/
def linkKept (h : Header) (wide narrow : Wire) : RoleM Unit := do
  let t ← get
  let outer ← t.shape wide
  let inner ← t.shape narrow
  let kept := Shape.otherAxes outer.rank (inner.extraAxes outer)
  kept.zipIdx.forM fun (wideAxis, narrowAxis) =>
    linkAxes h.site ⟨wide, wideAxis⟩ ⟨narrow, narrowAxis⟩

/-- Links the axes of each part with those of the result, the joined axis included. -/
def propagateConcat (h : Header) (axis : Int64) (w : Wiring) : RoleM Unit := do
  let output ← w.output 0
  let a ← h.axis axis (← (← get).shape output).rank
  (w.inputs.filterMap id).forM fun input => do
    linkMatching h.site input 0 output
    linkAxes h.site ⟨input, a⟩ ⟨output, a⟩

/-- Pins the axes of a mean to the pooled slots and links the others. -/
def propagateReduceMean (h : Header) (axes : Option (List Int64)) (keepDims : Bool) (w : Wiring) :
    RoleM Unit := do
  match w.input? 0 with
  | none => return
  | some input =>
    let output ← w.output 0
    let rank := (← (← get).shape input).rank
    let reduced ← reducedAxes h axes rank
    if reduced.length ≤ pooledSlots.length then
      (reduced.zip pooledSlots).forM fun (axis, slot) => discard (pin h.site input axis slot)
      if keepDims then link h.site input output
      else
        (Shape.otherAxes rank reduced).zipIdx.forM fun (axis, outAxis) =>
          linkAxes h.site ⟨input, axis⟩ ⟨output, outAxis⟩

/-! ### All operators -/

namespace Operator

/-- Pins and links what the operator asks for. -/
def propagate (op : Operator) (w : Wiring) : RoleM Unit :=
  let h := op.header
  match op.action with
  | .identity | .activation .. | .slice _ => linkThrough h w
  | .eltwise _ mode => propagateEltwise h mode w
  | .conv .. | .pool .. | .globalPool _ => pinWindow h w
  | .batchNorm _ | .lrn .. => pinChannels h w
  | .gemm params => pinBoth h w (matrixSlots false) (matrixSlots params.transA)
  | .matMul => propagateMatMul h w
  | .softmax axis => propagateSoftmax h axis w
  | .lstm .. => pinBoth h w hiddenSlots sequenceSlots
  | .squeeze _ => do
    match w.input? 0 with
    | some input => linkKept h input (← w.output 0)
    | none => return
  | .unsqueeze _ => do
    match w.input? 0 with
    | some input => linkKept h (← w.output 0) input
    | none => return
  | .concat axis => propagateConcat h axis w
  | .reduceMean axes keepDims => propagateReduceMean h axes keepDims w
  | .flatten _ | .reshape _ | .shapeOf | .gather _ | .constantOfShape _ | .constant _ => return

end Operator

end Lamina
