import Lamina.Layer.Adapt
import Lamina.Operator.Fold
import Lamina.Operator.Propagate

/-!
# Lowering operators

Each operator that remains after folding appends its layers to the layer graph and gives the tensor
that stands for its output. Inputs are first brought to the layout that the layer works on; weights
are laid out in memory at compile time.
-/

namespace Lamina

/-- The surroundings of an operator that is lowered. -/
structure Placement where
  /-- What identifies the node. -/
  header : Header
  /-- The tensors bound to the inputs. -/
  inputs : List (Option Tensor)
  /-- The inferred shapes of the outputs. -/
  shapes : List Shape
  /-- The committed layouts of the outputs. -/
  layouts : List Layout
  /-- The name that the names of the layers are made from. -/
  name : String

namespace Placement

/-! ### Inputs and outputs -/

/-- A bound input. -/
def input? (p : Placement) (i : Nat) : Option Tensor := (p.inputs[i]?).join

/-- An input that has to be bound. -/
def input (p : Placement) (i : Nat) : Except Fault Tensor :=
  match p.input? i with
  | some t => .ok t
  | none => p.header.fail (.node (.unboundInput i))

/-- The constant that a tensor has to be. -/
def constantOf (p : Placement) (what : String) (t : Tensor) : Except Fault Constant :=
  match t with
  | .constant c => .ok c
  | .handle _ => p.header.fail (.node (.notConstant what))

/-- An input that has to be bound and constant. -/
def constant (p : Placement) (i : Nat) (what : String) : Except Fault Constant := do
  p.constantOf what (← p.input i)

/-- An input that has to be constant if it is bound. -/
def constant? (p : Placement) (i : Nat) (what : String) : Except Fault (Option Constant) :=
  match p.input? i with
  | some t => some <$> p.constantOf what t
  | none => .ok none

/-- The shape of the output. -/
def shape (p : Placement) : Except Fault Shape :=
  match p.shapes[0]? with
  | some s => .ok s
  | none => p.header.fail (.role (.noOutput 0))

/-- The committed layout of the output. -/
def layout (p : Placement) : Except Fault Layout :=
  match p.layouts[0]? with
  | some l => .ok l
  | none => p.header.fail (.role (.noOutput 0))

/-! ### Steps -/

/-- Appends a layer named after the node, with one output. -/
def add (p : Placement) (kind : LayerKind) (inputs : List Outlet) (shape : Shape)
    (layout : Layout) : Lowering Handle :=
  Lowering.add p.name kind inputs shape layout

/-- A run-time tensor under another layout. -/
def relayout (p : Placement) (h : Handle) (target : Layout) : Lowering Handle :=
  Lowering.relayout p.name h target

/-- The first slots in memory order, one per axis. -/
def firstSlots (p : Placement) (rank : Nat) : Except Fault Layout :=
  if rank ≤ Slot.total then Layout.ofSlots (Slot.all.take rank)
  else p.header.fail (.role (.tooManyAxes rank))

/-- An input as a run-time tensor. A constant is fed in under the first slots. -/
def handle (p : Placement) (i : Nat) : Lowering Handle := do
  match ← p.input i with
  | .handle h => return h
  | .constant c => Lowering.feed p.name c (← p.firstSlots c.shape.rank)

/-- An input as a run-time tensor under a layout. -/
def handleAs (p : Placement) (i : Nat) (layout : Layout) : Lowering Handle := do
  match ← p.input i with
  | .handle h => p.relayout h layout
  | .constant c => Lowering.feed p.name c layout

end Placement

open Placement

/-! ### Elementwise operators -/

/-- The second operand of a difference negated, that of a quotient inverted, so that only sums and
products remain. -/
def inverseOperand (p : Placement) (op : Pointwise) (t : Tensor) : Lowering Tensor := do
  match op, t with
  | .sub, .constant c =>
    return .constant (← Constant.ofParts c.shape c.layout (← Kernel.unary .negate c.data))
  | .sub, .handle h =>
    let minus : Activation := .linear (Binary32.neg .one) .zero
    return .handle (← Lowering.add (p.name ++ "/neg") (.activation minus) [h.outlet] h.shape
      h.layout)
  | .div, .constant c =>
    let c := c.cast .float
    return .constant (← Constant.ofParts c.shape c.layout (← Kernel.unary .reciprocal c.data))
  | .div, .handle _ => p.header.fail (.elementwise .divisionByRunTime)
  | _, t => return t

/-- The layout that all operands are brought to: that of the first run-time operand, padded. -/
def eltwiseLayout (p : Placement) (mode : Alignment) (out : Shape) (committed : Layout) :
    Except Fault Layout :=
  let first := p.inputs.findSome? fun
    | some (.handle h) => some h
    | _ => none
  match first with
  | none => .ok committed
  | some h => do
    let offset ← Broadcast.offset p.header.site mode h.shape.rank out.rank
    Broadcast.embedLayout p.header.site h.layout offset out.rank committed

/-- One operand, inverted if the operation asks for it, under the shape and layout of the result. -/
def lowerOperand (p : Placement) (op : Pointwise) (mode : Alignment) (out : Shape)
    (target : Layout) (i : Nat) : Lowering Outlet := do
  let t ← p.input i
  let t ← if i = 0 then pure t else inverseOperand p op t
  let offset ← Broadcast.offset p.header.site mode t.shape.rank out.rank
  match ← Lowering.fit p.header.site p.name t offset out target with
  | .handle h => return h.outlet
  | .constant c => return (← Lowering.feed p.name (c.cast .float) target).outlet

/-- The layer that combines the operands of an elementwise operation. -/
def eltwiseKind : Pointwise → LayerKind
  | .add | .sub | .sum => .eltwiseSum
  | .mul | .div => .eltwiseMul

/-- Lowers an elementwise operation. A single operand is passed on. -/
def lowerEltwise (p : Placement) (op : Pointwise) (mode : Alignment) : Lowering Tensor := do
  if p.inputs.length = 1 then p.input 0
  else
    let out ← p.shape
    let committed ← p.layout
    let target ← eltwiseLayout p mode out committed
    let outlets ← (List.range p.inputs.length).mapM (lowerOperand p op mode out target)
    return .handle (← p.add (eltwiseKind op) outlets out target)

/-- Lowers an activation. -/
def lowerActivation (p : Placement) (function : Activation) (boundsAreInputs : Bool) :
    Lowering Tensor := do
  let low ← p.constant? 1 "Clip min"
  let high ← p.constant? 2 "Clip max"
  let resolved ← resolveFunction p.header function boundsAreInputs low high
  let x ← p.handle 0
  return .handle (← p.add (.activation resolved) [x.outlet] x.shape x.layout)

/-- The factor and the offset per channel of a normalisation: `scale / sqrt(variance + epsilon)`,
and what is left of the bias after the scaled mean is taken off. -/
def normCoefficients (epsilon : Binary32) (scale bias mean variance : Constant) :
    Except Fault (Constant × Constant) := do
  let scale := scale.data.cast .float
  let bias := bias.data.cast .float
  let mean := mean.data.cast .float
  let variance := variance.data.cast .float
  let channels := scale.size
  let shifted ← Kernel.binary .add variance (.floats (.replicate channels epsilon))
  let inverse ← Kernel.unary .reciprocal (← Kernel.unary .squareRoot shifted)
  let gamma ← Kernel.binary .mul scale inverse
  let beta ← Kernel.binary .sub bias (← Kernel.binary .mul mean gamma)
  let layout ← Layout.ofSlots [.channels]
  return (← Constant.ofParts ⟨[channels]⟩ layout gamma, ← Constant.ofParts ⟨[channels]⟩ layout beta)

/-- Lowers a normalisation by constant statistics. -/
def lowerBatchNorm (p : Placement) (epsilon : Binary32) : Lowering Tensor := do
  let scale ← p.constant 1 "scale"
  let bias ← p.constant 2 "bias"
  let mean ← p.constant 3 "mean"
  let variance ← p.constant 4 "variance"
  let (gamma, beta) ← normCoefficients epsilon scale bias mean variance
  let out ← p.shape
  let layout ← p.layout
  let x ← p.handleAs 0 layout
  return .handle (← p.add (.batchNorm gamma beta) [x.outlet] out layout)

/-- Lowers a layer that works under the committed layout. -/
def lowerInPlace (p : Placement) (kind : LayerKind) : Lowering Tensor := do
  let out ← p.shape
  let layout ← p.layout
  let x ← p.handleAs 0 layout
  return .handle (← p.add kind [x.outlet] out layout)

/-- Lowers a softmax. -/
def lowerSoftmax (p : Placement) (axis : Int64) : Lowering Tensor := do
  let out ← p.shape
  let layout ← Layout.ofSlots (← softmaxSlots p.header axis out.rank)
  let x ← p.handleAs 0 layout
  return .handle (← p.add .softmax [x.outlet] out layout)

/-! ### Windowed operators -/

/-- The layout of a windowed tensor. -/
def windowLayout (p : Placement) (rank : Nat) : Except Fault Layout := do
  Layout.ofSlots (← Window.slots p.header.site rank)

/-- The layer of a convolution. Filters are stored with their channels last: across all channels as
`[filter, height, width, channel]`, channel by channel as `[height, width, channel]`. -/
def convKind (p : Placement) (group channels : Nat) (weights : Constant) (bias : Option Constant)
    (params : ConvGeometry) : Except Fault LayerKind := do
  let w := weights.shape
  let filter ← weights.reshaped ⟨w.dims.take 4 ++ List.replicate (4 - w.rank) 1⟩
  if group = 1 then
    let layout ← Layout.ofSlots [.batchWidth, .channels, .height, .width]
    return .conv (← filter.toLayout layout) bias params
  else if group = channels ∧ w.extent 0 = channels ∧ w.extent 1 = 1 then
    let layout ← Layout.ofSlots [.channels, .batchWidth, .height, .width]
    return .channelwiseConv (← filter.toLayout layout) bias params
  else p.header.fail (.window (.groupedFilters group))

/-- A constant vector along the channels. -/
def channelVector (c : Constant) : Except Fault Constant := do
  (c.cast .float).toLayout (← Layout.ofSlots [.channels])

/-- A layer that slides a window, about to be appended. -/
structure Sliding where
  /-- What the layer does. -/
  kind : LayerKind
  /-- What it reads. -/
  input : Handle
  /-- The extents of what it gives. -/
  shape : Shape
  /-- The slot of each axis of what it gives. -/
  layout : Layout

/-- Appends a layer that slides a window. -/
def Placement.slide (p : Placement) (s : Sliding) : Lowering Handle :=
  p.add s.kind [s.input.outlet] s.shape s.layout

/-- The layer of a convolution with all that it needs. -/
def convSliding (p : Placement) (group : Nat) (window : Window) : Lowering Sliding := do
  let out ← p.shape
  let layout ← windowLayout p out.rank
  let weights := (← p.constant 1 "convolution weights").cast .float
  let bias ← (← p.constant? 2 "convolution bias").mapM fun b => channelVector b
  let x ← p.handleAs 0 layout
  let axes ← convWindows p.header group window x.shape weights.shape
  let pads ← Window.evenPads p.header.site axes
  let params : ConvGeometry := {
    filterCount := weights.shape.extent 0
    kernel := .ofList (axes.map AxisWindow.kernel) 1
    strides := .ofList (axes.map AxisWindow.stride) 1
    pads
    dilations := .ofList (axes.map AxisWindow.dilation) 1 }
  let kind ← convKind p group (x.shape.extent 1) weights bias params
  return ⟨kind, x, out, layout⟩

/-- Lowers a convolution. -/
def lowerConv (p : Placement) (group : Nat) (window : Window) : Lowering Tensor := do
  return .handle (← p.slide (← convSliding p group window))

/-- The layer of a pooling with all that it needs. -/
def poolSliding (p : Placement) (kind : PoolKind) (window : Window) : Lowering Sliding := do
  let out ← p.shape
  let layout ← windowLayout p out.rank
  let x ← p.handleAs 0 layout
  let axes ← poolWindows p.header window x.shape
  let pads ← Window.evenPads p.header.site axes
  let params : PoolGeometry := {
    kernel := .ofList (axes.map AxisWindow.kernel) 1
    strides := .ofList (axes.map AxisWindow.stride) 1
    pads }
  return ⟨.pooling kind params, x, out, layout⟩

/-- Lowers a pooling. -/
def lowerPool (p : Placement) (kind : PoolKind) (window : Window) : Lowering Tensor := do
  return .handle (← p.slide (← poolSliding p kind window))

/-- Lowers a pooling over all positions. -/
def lowerGlobalPool (p : Placement) (kind : PoolKind) : Lowering Tensor := do
  let out ← p.shape
  let layout ← windowLayout p out.rank
  let x ← p.handleAs 0 layout
  return .handle (← p.add (.globalPooling kind) [x.outlet] out layout)

/-! ### Matrices and recurrences -/

/-- The free term of a matrix product, one value per column, times its factor. -/
def freeRow (h : Header) (params : Gemm) (c : Constant) (n : Nat) : Except Fault Constant := do
  let rank := c.shape.rank
  if 2 < rank ∨ (rank = 2 ∧ c.shape.extent 0 ≠ 1) then h.fail (.matrix (.biasRows c.shape))
  let row : Shape := ⟨[1, n]⟩
  discard (Broadcast.shapes h.site .trailing row c.shape)
  let expanded ← Broadcast.constant c (2 - rank) row
  let data ← (expanded.source.cast .float).scaled params.beta
  Constant.ofParts ⟨[n]⟩ (← Layout.ofSlots [.channels]) data

/-- Lowers a product with a constant matrix. The weights are stored by columns, times their
factor. -/
def lowerGemm (p : Placement) (params : Gemm) : Lowering Tensor := do
  let b ← p.constant 1 "second operand"
  let c ← p.constant? 2 "bias"
  let d ← params.dims p.header (← p.input 0).shape b.shape
  let scaled ← (b.source.cast .float).scaled params.alpha
  let unpacked ← Constant.ofBuffer b.shape scaled
  let weights ← unpacked.toLayout (← Layout.ofSlots (matrixSlots (!params.transB)))
  let freeTerm ← c.mapM fun c => freeRow p.header params c d.n
  let a ← p.handleAs 0 (← Layout.ofSlots (matrixSlots params.transA))
  return .handle (← p.add (.fullyConnected weights freeTerm) [a.outlet] ⟨[d.m, d.n]⟩
    (← Layout.ofSlots (matrixSlots false)))

/-- Lowers a product of a stack of matrices with one constant matrix. -/
def lowerMatMul (p : Placement) : Lowering Tensor := do
  let b ← p.constant 1 "second operand"
  if b.shape.rank ≠ 2 then p.header.fail (.matrix (.rightRank b.shape.rank))
  let rank := (← p.input 0).shape.rank
  match stackSlots? rank with
  | none => p.header.fail (.matrix (.leftRank rank))
  | some slots =>
    let layout ← Layout.ofSlots slots
    let weights ← (b.cast .float).toLayout (← Layout.ofSlots (matrixSlots true))
    let out ← p.shape
    let a ← p.handleAs 0 layout
    return .handle (← p.add (.fullyConnected weights none) [a.outlet] out layout)

/-- For each gate of the layer, the gate of the node it is taken from. -/
def gateSequence : List Nat := [3, 2, 0, 1]

/-- The blocks of the four gates in the order of the layer. -/
def inGateSequence (data : Array Binary32) (block : Nat) : Array Binary32 :=
  (gateSequence.flatMap fun g => (data.extract (g * block) ((g + 1) * block)).toList).toArray

/-- A matrix of weights with its gates reordered, one row per value of a gate. -/
def stackedGates (hidden : Nat) (weights : Constant) : Except Fault Constant := do
  let rows := weights.shape.extent 1
  let columns := weights.shape.extent 2
  let data := inGateSequence weights.floats (hidden * columns)
  Constant.ofParts ⟨[rows, columns]⟩ (← Layout.ofSlots (matrixSlots false)) (.floats data)

/-- The input half and the recurrent half of a bias, reordered and added. -/
def gateBias (hidden : Nat) (bias : Constant) : Except Fault Constant := do
  let width := 4 * hidden
  let values := bias.floats
  let input := inGateSequence (values.extract 0 width) hidden
  let recurrent := inGateSequence (values.extract width values.size) hidden
  let sum ← Kernel.binary .add (.floats input) (.floats recurrent)
  Constant.ofParts ⟨[width]⟩ (← Layout.ofSlots [.channels]) sum

/-- Refuses an input that is bound. -/
def refuseInput (p : Placement) (i : Nat) (what : String) : Except Fault Unit :=
  p.header.site.ensure (p.input? i).isNone (.recurrent (.input what))

/-- Accepts an initial state only if it is zero throughout. -/
def refuseState (p : Placement) (i : Nat) (what : String) : Except Fault Unit := do
  match ← p.constant? i what with
  | none => return
  | some c =>
    let isZero := c.floats.all fun v => v.sameValue .zero
    p.header.site.ensure isZero (.recurrent (.nonZeroState what))

/-- Lowers a recurrent unit. -/
def lowerLstm (p : Placement) (hidden : Nat) (reverse : Bool) : Lowering Tensor := do
  refuseInput p 4 "sequence lengths"
  refuseInput p 7 "peepholes"
  refuseState p 5 "initial hidden state"
  refuseState p 6 "initial cell state"
  let inputWeights ← stackedGates hidden (← p.constant 1 "input weights")
  let recurrentWeights ← stackedGates hidden (← p.constant 2 "recurrent weights")
  let freeTerm ← (← p.constant? 3 "bias").mapM fun b => gateBias hidden b
  let x ← p.handleAs 0 (← Layout.ofSlots sequenceSlots)
  let layer ← Lowering.append ((← get).freshName p.name)
    (.lstm hidden inputWeights recurrentWeights freeTerm reverse) [x.outlet]
  let out ← p.shape
  return .handle (← Lowering.handle ⟨layer, 0⟩ out (← Layout.ofSlots hiddenSlots))

/-! ### Rearranging operators -/

/-- Sees the first input under the shape of the output. Its data are first brought into axis order,
in which they do not depend on the shape. -/
def lowerReshape (p : Placement) : Lowering Tensor := do
  let out ← p.shape
  let committed ← p.layout
  let x ← p.handle 0
  let x ← p.relayout x x.layout.sorted
  if x.shape = out then return .handle (← p.relayout x committed)
  else return .handle (← p.add (.reshape x.shape out) [x.outlet] out committed.sorted)

/-- The entries of a list whose positions are not among some axes. -/
def dropPositions {α : Type} (l : List α) (axes : List Nat) : List α :=
  (l.zipIdx.filter fun e => !axes.contains e.2).map Prod.fst

/-- Drops unit axes, which leaves the data where they are. -/
def lowerSqueeze (p : Placement) : Lowering Tensor := do
  let out ← p.shape
  let x ← p.handle 0
  let layout ← Layout.ofSlots (dropPositions x.layout.slots (out.extraAxes x.shape))
  let committed ← p.layout
  return .handle (← p.relayout (x.seenAs out layout) committed)

/-- The slots of a tensor spread over the axes of a wider one; the inserted axes are free. -/
def spreadSlots (inserted : List Nat) (axis : Nat) : (count : Nat) → List Slot → List (Option Slot)
  | 0, _ => []
  | count + 1, slots =>
    if inserted.contains axis then none :: spreadSlots inserted (axis + 1) count slots
    else slots.head? :: spreadSlots inserted (axis + 1) count slots.tail

/-- Inserts unit axes, which leaves the data where they are. -/
def lowerUnsqueeze (p : Placement) : Lowering Tensor := do
  let out ← p.shape
  let committed ← p.layout
  let x ← p.handle 0
  let roles := spreadSlots (x.shape.extraAxes out) 0 out.rank x.layout.slots
  match completeSlots committed.slots roles with
  | none => p.header.fail (.role (.tooManyAxes out.rank))
  | some slots =>
    let layout ← Layout.ofSlots slots
    return .handle (← p.relayout (x.seenAs out layout) committed)

/-- One part of a concatenation under the layout of the result. -/
def lowerPart (p : Placement) (target : Layout) (i : Nat) : Lowering Outlet := do
  match ← p.input i with
  | .handle h => return (← p.relayout h target).outlet
  | .constant c => return (← Lowering.feed p.name (c.cast .float) target).outlet

/-- Lowers a concatenation. A single part is passed on. -/
def lowerConcat (p : Placement) (axis : Int64) : Lowering Tensor := do
  if p.inputs.length = 1 then p.input 0
  else
    let out ← p.shape
    let target ← p.layout
    let a ← p.header.axis axis out.rank
    let outlets ← (List.range p.inputs.length).mapM (lowerPart p target)
    let slot := target.slots.getD a default
    return .handle (← p.add (.concat slot) outlets out target)

/-- Lowers the slices along axes whose extent changes, one layer each. -/
def lowerSlices (p : Placement) (layout : Layout) (current : Handle) :
    List AxisRange → Lowering Handle
  | [] => return current
  | s :: rest => do
    if s.length = current.shape.extent s.axis then lowerSlices p layout current rest
    else if s.length = 0 then p.header.fail (.rearrange .emptySlice)
    else
      let slot := layout.slots.getD s.axis default
      let next ← p.add (.slice slot s.start s.length) [current.outlet]
        (current.shape.setExtent s.axis s.length) layout
      lowerSlices p layout next rest

/-- Lowers a slice. -/
def lowerSlice (p : Placement) (bounds : Option SliceBounds) : Lowering Tensor := do
  let layout ← p.layout
  let x ← p.handle 0
  let current ← p.relayout x layout
  let operands : Operands := some ⟨x.shape, none⟩ ::
    (p.inputs.drop 1).map fun t => t.map fun t => ⟨t.shape, t.constant?⟩
  let slices ← keptSlices p.header bounds operands
  return .handle (← lowerSlices p layout current slices)

/-- The layout that a mean is pooled under: the reduced axes on the pooled slots, the others on
their own where these are still free. -/
def poolingLayout (p : Placement) (x : Handle) (reduced : List Nat) : Except Fault Layout :=
  let rank := x.shape.rank
  let pinned := (reduced.zip pooledSlots).foldl
    (fun roles (axis, slot) => roles.set axis (some slot)) (List.replicate rank none)
  let claimed := claimSlots pinned ((List.range rank).map fun axis => (x.layout.slot? axis).toList)
  match completeSlots [] claimed with
  | some slots => Layout.ofSlots slots
  | none => p.header.fail (.rearrange .noPoolSlot)

/-- The pooling of a mean over at most two axes, whose window spans them. -/
def meanSliding (p : Placement) (x : Handle) (reduced : List Nat) : Lowering Sliding := do
  if pooledSlots.length < reduced.length then
    p.header.fail (.rearrange (.meanAxes reduced.length))
  let layout ← poolingLayout p x reduced
  let x ← p.relayout x layout
  let kernel := Planar.ofList (reduced.map x.shape.extent) 1
  let kept : Shape := ⟨Kernel.reducedDims x.shape.dims reduced⟩
  return ⟨.pooling .mean ⟨kernel, kernel, ⟨0, 0⟩⟩, x, kept, layout⟩

/-- Lowers a mean over at most two axes to a pooling. -/
def lowerReduceMean (p : Placement) (axes : Option (List Int64)) (keepDims : Bool) :
    Lowering Tensor := do
  let out ← p.shape
  let committed ← p.layout
  let x ← p.handle 0
  let reduced ← reducedAxes p.header axes x.shape.rank
  let pooling ← meanSliding p x reduced
  let pooled ← p.slide pooling
  if keepDims then return .handle (← p.relayout pooled committed)
  else
    let slots ← Layout.ofSlots (dropPositions pooling.layout.slots reduced)
    return .handle (← p.relayout (pooled.seenAs out slots) committed)

/-! ### All operators -/

namespace Operator

/-- Appends the layers of an operator and gives its output. -/
def lower (op : Operator) (p : Placement) : Lowering Tensor :=
  match op.action with
  | .identity => do p.input 0
  | .eltwise e mode => lowerEltwise p e mode
  | .activation function boundsAreInputs => lowerActivation p function boundsAreInputs
  | .conv group window => lowerConv p group window
  | .pool kind window => lowerPool p kind window
  | .globalPool kind => lowerGlobalPool p kind
  | .batchNorm epsilon => lowerBatchNorm p epsilon
  | .gemm params => lowerGemm p params
  | .matMul => lowerMatMul p
  | .softmax axis => lowerSoftmax p axis
  | .lrn size alpha beta bias => lowerInPlace p (.lrn size alpha beta bias)
  | .lstm hidden reverse => lowerLstm p hidden reverse
  | .flatten _ | .reshape _ => lowerReshape p
  | .squeeze _ => lowerSqueeze p
  | .unsqueeze _ => lowerUnsqueeze p
  | .concat axis => lowerConcat p axis
  | .gather _ => do
    discard (p.constant 0 "gather data")
    discard (p.constant 1 "gather indices")
    p.header.fail (.node .alwaysFolded)
  | .shapeOf | .constantOfShape _ | .constant _ => p.header.fail (.node .alwaysFolded)
  | .slice bounds => lowerSlice p bounds
  | .reduceMean axes keepDims => lowerReduceMean p axes keepDims

end Operator

end Lamina
