import Lamina.Buffer
import Lamina.Layout
import Lamina.Wire

/-!
# Causes of faults

What can go wrong, grouped by the part of the program that notices it. A cause carries the values
that explain it; its kind and its wording are functions of the cause alone.

A fault is *malformed* if the description of the network breaks its own rules, *unsupported* if the
description is sound but asks for something that is not provided, and *internal* if a rule was
broken that the program itself should keep. It is *fatal* if a number came up that the machine has
no word for. Then there is nothing to go on with, whoever is to blame.
-/

namespace Lamina

/-- Whose mistake a fault is, if it is not fatal. -/
inductive FaultKind where
  | malformed
  | unsupported
  | internal
  | fatal
deriving DecidableEq

/-! ### Machine words -/

/-- Numbers that the machine has no word for. -/
inductive WordCause where
  /-- A size is too large. -/
  | overflow (size : Nat)
  /-- A difference of sizes is negative. -/
  | underflow (size taken : Nat)
  /-- A size is too large for a word with a sign. -/
  | unsigned (size : Nat)
  /-- A sum of words with a sign is out of range. -/
  | signedSum (a b : Int64)

/-- The wording. -/
def WordCause.text : WordCause → String
  | overflow n => s!"{n} exceeds a machine word"
  | underflow n taken => s!"{n} - {taken} is negative"
  | unsigned n => s!"{n} exceeds a signed word"
  | signedSum a b => s!"{a.toInt} + {b.toInt} exceeds a signed word"

/-! ### Tensors -/

/-- Faults of layouts and constant tensors. -/
inductive TensorCause where
  /-- A slot was given to two axes. -/
  | repeatedSlot (slot : Slot) (slots : List Slot)
  /-- A layout has another rank than the shape it is for. -/
  | layoutMismatch (layout : Layout) (shape : Shape)
  /-- A buffer has another size than its shape. -/
  | bufferMismatch (held : Nat) (shape : Shape)
  /-- A tensor cannot take a layout of another rank. -/
  | cannotLayOut (shape : Shape) (target : Layout)
  /-- A tensor cannot take a shape with another number of elements. -/
  | cannotReshape (shape target : Shape)
  /-- Raw bytes do not make up whole elements. -/
  | rawBytes (bytes : Nat) (type : ElementType)
  /-- Raw elements do not fill their shape. -/
  | rawElements (elements : Nat) (shape : Shape)

namespace TensorCause

/-- Whose mistake it is. -/
def kind : TensorCause → FaultKind
  | rawBytes .. | rawElements .. => .malformed
  | _ => .internal

/-- The wording. -/
def text : TensorCause → String
  | repeatedSlot d ds =>
    s!"slot {d.text} assigned to two axes in {Text.list (ds.map Slot.fullName)}"
  | layoutMismatch l s => s!"layout {l.text} does not match shape {s.text}"
  | bufferMismatch n s => s!"buffer holds {n} elements but shape {s.text} needs {s.count}"
  | cannotLayOut s t => s!"cannot lay out {s.text} as {t.text}"
  | cannotReshape s t => s!"cannot reshape {s.text} into {t.text}"
  | rawBytes n t => s!"raw data of {n} bytes is not a {t.text} buffer"
  | rawElements n s => s!"{n} elements do not fill shape {s.text}"

end TensorCause

/-! ### Nodes -/

/-- Faults in how a node is written: attributes, arity, axes, bound inputs. -/
inductive NodeCause where
  /-- An attribute has another type than the one it is read as. -/
  | attributeType (name actual expected : String)
  /-- A required attribute is absent. -/
  | missingAttribute (name : String)
  /-- The number of inputs is out of range; no upper bound means any number. -/
  | inputCount (low : Nat) (high : Option Nat) (got : Nat)
  /-- The number of outputs is out of range. -/
  | outputCount (low : Nat) (high : Option Nat) (got : Nat)
  /-- Negative axes came with opset 11. -/
  | negativeAxis (axis : Int64)
  /-- An axis is beyond the rank. -/
  | axisOutOfRange (axis : Int64) (rank : Nat)
  /-- An input the operator needs was left out. -/
  | unboundInput (index : Nat)
  /-- An input has to be known at compile time. -/
  | constantNeeded (index : Nat)
  /-- A named input has to be known at compile time. -/
  | notConstant (what : String)
  /-- The operator type is not in the registry. -/
  | unknownOperator (opType : String)
  /-- The operator type is already in the registry. -/
  | registeredTwice
  /-- The operator type does not belong to the family it was registered with. -/
  | wrongFamily (opType : String) (family : String)
  /-- The operator cannot be computed at compile time. -/
  | notFoldable
  /-- The operator must have been computed at compile time. -/
  | alwaysFolded
  /-- The operator does not exist in the opset. -/
  | notInOpset (opset : Int64)

namespace NodeCause

/-- Whose mistake it is. -/
def kind : NodeCause → FaultKind
  | constantNeeded .. | notConstant .. | unknownOperator .. | notFoldable => .unsupported
  | registeredTwice | wrongFamily .. | alwaysFolded => .internal
  | _ => .malformed

/-- A range of counts. -/
def countText (low : Nat) : Option Nat → String
  | none => s!"at least {low}"
  | some high => if low = high then s!"{low}" else s!"{low} to {high}"

/-- The wording. -/
def text : NodeCause → String
  | attributeType name actual expected => s!"attribute '{name}' is {actual}, expected {expected}"
  | missingAttribute name => s!"missing required attribute '{name}'"
  | inputCount low high got => s!"expected {countText low high} inputs, got {got}"
  | outputCount low high got => s!"expected {countText low high} outputs, got {got}"
  | negativeAxis axis => s!"negative axis {axis.toInt} is only valid from opset 11"
  | axisOutOfRange axis rank => s!"axis {axis.toInt} is out of range for rank {rank}"
  | unboundInput i => s!"input {i} is not bound"
  | constantNeeded i => s!"input {i} must be a constant"
  | notConstant what => s!"non-constant {what}"
  | unknownOperator op => s!"operator {op} is not supported"
  | registeredTwice => "operator is already registered"
  | wrongFamily op family => s!"{op} is not {family}"
  | notFoldable => "output pre-calculation for constant inputs"
  | alwaysFolded => "reached materialization without being folded"
  | notInOpset opset => s!"operator does not exist in opset {opset.toInt}"

end NodeCause

/-! ### Broadcasting and roles -/

/-- Faults of broadcasting. All are unsupported. -/
inductive BroadcastCause where
  /-- An operand has more axes than the result. -/
  | rank (rank outRank : Nat)
  /-- An operand does not fit at the axis it is to be aligned with. -/
  | axis (rank : Nat) (axis : Int64) (outRank : Nat)
  /-- Two shapes do not broadcast. -/
  | shapes (a b : Shape)
  /-- There are not enough slots for the axes of the result. -/
  | slots (outRank : Nat)

/-- The wording. -/
def BroadcastCause.text : BroadcastCause → String
  | rank r out => s!"cannot broadcast rank {r} into rank {out}"
  | axis r a out => s!"cannot broadcast rank {r} at axis {a.toInt} of rank {out}"
  | shapes a b => s!"cannot broadcast {a.text} and {b.text}"
  | slots out => s!"rank {out} exceeds the slot count"

/-- Faults in settling which slot an axis takes. -/
inductive RoleCause where
  /-- The table has no row for the value. -/
  | noRow (value : Wire)
  /-- The value has no such axis. -/
  | axisOutOfRange (axis rank : Nat)
  /-- The axis already has another slot. -/
  | axisSettled (axis : Nat) (value : Wire) (current wanted : Slot)
  /-- The slot already belongs to another axis. -/
  | slotTaken (slot : Slot) (value : Wire) (other : Nat)
  /-- A value has another rank than the layout it is pinned to. -/
  | pinRank (rank slots : Nat)
  /-- Only values of one rank can be linked axis by axis. -/
  | linkRanks (a b : Nat)
  /-- A value has more axes than there are slots. -/
  | tooManyAxes (rank : Nat)
  /-- No slot is left. -/
  | noSlotLeft
  /-- A node has no such output. -/
  | noOutput (index : Nat)
  /-- Windowed operators work on one or two spatial axes. -/
  | spatialAxes (count : Nat)

namespace RoleCause

/-- Whose mistake it is. -/
def kind : RoleCause → FaultKind
  | tooManyAxes .. | spatialAxes .. => .unsupported
  | _ => .internal

/-- The wording. -/
def text : RoleCause → String
  | noRow v => s!"no row for value {v.text}"
  | axisOutOfRange axis rank => s!"axis {axis} is out of range for rank {rank}"
  | axisSettled axis v current wanted =>
    s!"axis {axis} of {v.text} is already {current.text}, cannot become {wanted.text}"
  | slotTaken slot v other => s!"slot {slot.text} of {v.text} is already taken by axis {other}"
  | pinRank rank n => s!"cannot pin rank {rank} value to {n} slots"
  | linkRanks a b => s!"cannot link rank {a} with rank {b}"
  | tooManyAxes rank => s!"rank {rank} exceeds the {Slot.total} physical dimensions"
  | noSlotLeft => "ran out of physical dimensions"
  | noOutput i => s!"no output {i}"
  | spatialAxes n => s!"{n}-D spatial input"

end RoleCause

/-! ### Layers -/

/-- Faults of a layer graph. All are internal. -/
inductive LayerCause where
  /-- A layer has fewer outputs. -/
  | noOutput (layer : String) (index outputs : Nat)
  /-- The layer does not exist yet. -/
  | forwardReference (layer : Nat)
  /-- The name belongs to another layer. -/
  | nameTaken

/-- The wording. -/
def LayerCause.text : LayerCause → String
  | noOutput layer i n => s!"layer '{layer}' has no output {i} (it has {n})"
  | forwardReference layer => s!"forward reference to layer #{layer}"
  | nameTaken => "layer name is already taken"

/-! ### Arithmetic -/

/-- Faults of arithmetic on buffers. -/
inductive KernelCause where
  /-- Two operands have different sizes. -/
  | lengths (a b : Nat)
  /-- Two operands have different element types. -/
  | types (a b : ElementType)
  /-- An integer result is out of range, or a divisor is zero. -/
  | integerRange
  /-- The negation of an integer is out of range. -/
  | negationRange
  /-- The operation is not defined on integers. -/
  | notOnIntegers (operation : String)
  /-- The operands do not hold the matrices to be multiplied. -/
  | matrices (batch m k n : Nat)
  /-- A buffer does not split into rows. -/
  | rows (size row : Nat)
  /-- A buffer cannot be averaged over the axes. -/
  | reduction (dims axes : List Nat)

namespace KernelCause

/-- Whose mistake it is. -/
def kind : KernelCause → FaultKind
  | integerRange | negationRange | notOnIntegers .. => .unsupported
  | _ => .internal

/-- The wording. -/
def text : KernelCause → String
  | lengths a b => s!"operand lengths differ: {a} vs {b}"
  | types a b => s!"operand types differ: {a.text} vs {b.text}"
  | integerRange => "integer overflow or division by zero in constant"
  | negationRange => "integer overflow in constant negation"
  | notOnIntegers op => s!"{op} on int64 constants"
  | matrices batch m k n => s!"buffers do not hold {batch} x [{m}, {k}] x [{k}, {n}]"
  | rows size row => s!"{size} elements do not split into rows of {row}"
  | reduction dims axes => s!"cannot reduce {Text.naturals dims} over {Text.naturals axes}"

end KernelCause

/-! ### Operators -/

/-- Faults of elementwise operators, normalisations and poolings. -/
inductive ElementwiseCause where
  | noInputs
  | inputTypes (a b : ElementType)
  | divisionByRunTime
  | boundNotScalar (shape : Shape)
  | dropoutMask
  | trainingOutputs
  | trainingMode
  | noChannelAxis (shape : Shape)
  | statistics (index : Nat) (shape : Shape) (channels : Nat)
  | softmaxOver (axis rank : Nat)
  | softmaxFrom (axis rank : Nat)
  | windowSize (size : Int64)
  | noSpatialAxes (shape : Shape)

namespace ElementwiseCause

/-- Whose mistake it is. -/
def kind : ElementwiseCause → FaultKind
  | divisionByRunTime | dropoutMask | trainingOutputs | trainingMode => .unsupported
  | softmaxOver .. | softmaxFrom .. => .unsupported
  | _ => .malformed

/-- The wording. -/
def text : ElementwiseCause → String
  | noInputs => "no inputs"
  | inputTypes a b => s!"input types differ: {a.text} and {b.text}"
  | divisionByRunTime => "division by a non-constant tensor"
  | boundNotScalar s => s!"bound of shape {s.text} is not a scalar"
  | dropoutMask => "Dropout mask output"
  | trainingOutputs => "training-mode statistics outputs"
  | trainingMode => "training mode"
  | noChannelAxis s => s!"input {s.text} has no channel axis"
  | statistics i s channels =>
    s!"statistics input {i} of shape {s.text} does not match {channels} channels"
  | softmaxOver axis rank => s!"softmax over axis {axis} of a rank {rank} input"
  | softmaxFrom axis rank => s!"softmax from axis {axis} of a rank {rank} input"
  | windowSize size => s!"window size {size.toInt} must be positive"
  | noSpatialAxes s => s!"input {s.text} has no spatial axes"

end ElementwiseCause

/-- Faults of sliding windows: convolutions and poolings. -/
inductive WindowCause where
  | unknownPadding (mode : String)
  | negativeEntry (what : String) (value : Int64)
  | kernelMismatch (declared weights : List Nat)
  | missingKernel
  | kernelRequired
  | entryCount (what : String) (got expected : Nat)
  | zeroEntry
  | doesNotFit (window padded : Nat)
  | unevenPadding (first last : List Nat)
  | invalidGroup (group : Int64)
  | notConvolution (input weights : Shape)
  | channelCount (channels : Nat) (weights : Shape) (groups : Nat)
  | biasCount (bias : Shape) (filters : Nat)
  | groupedFilters (groups : Nat)
  | roundingUp
  | dilatedPooling
  | indexOutput
  | paddingCounted
  | noSpatialAxes (shape : Shape)

namespace WindowCause

/-- Whose mistake it is. -/
def kind : WindowCause → FaultKind
  | unevenPadding .. | groupedFilters .. | roundingUp | dilatedPooling => .unsupported
  | indexOutput | paddingCounted => .unsupported
  | _ => .malformed

/-- The wording. -/
def text : WindowCause → String
  | unknownPadding mode => s!"unknown auto_pad {Text.quoted mode}"
  | negativeEntry what v => s!"negative {what} {v.toInt}"
  | kernelMismatch a w =>
    s!"kernel_shape {Text.naturals a} does not match weights {Text.naturals w}"
  | missingKernel => "missing kernel_shape"
  | kernelRequired => "missing required attribute kernel_shape"
  | entryCount what got expected => s!"{what} has {got} values, expected {expected}"
  | zeroEntry => "zero kernel, stride or dilation"
  | doesNotFit window padded => s!"window of {window} does not fit padded extent {padded}"
  | unevenPadding first last =>
    s!"asymmetric padding {Text.naturals first} / {Text.naturals last}"
  | invalidGroup g => s!"invalid group {g.toInt}"
  | notConvolution x w => s!"input {x.text} and weights {w.text} do not form a convolution"
  | channelCount channels w groups =>
    s!"input has {channels} channels but weights {w.text} with {groups} groups expect " ++
      toString (w.extent 1 * groups)
  | biasCount b filters => s!"bias {b.text} does not match {filters} filters"
  | groupedFilters groups => s!"grouped convolution with {groups} groups"
  | roundingUp => "ceil_mode"
  | dilatedPooling => "dilated pooling"
  | indexOutput => "MaxPool indices output"
  | paddingCounted => "count_include_pad"
  | noSpatialAxes s => s!"pooling input {s.text} has no spatial axes"

end WindowCause

/-- Faults of matrix products. -/
inductive MatrixCause where
  | notMatrices (a b : Shape)
  | innerExtents (a b : Nat)
  | innerShapes (a b : Shape)
  | biasShape (bias out : Shape)
  | biasRows (bias : Shape)
  | scalarOperand
  | rightRank (rank : Nat)
  | leftRank (rank : Nat)

namespace MatrixCause

/-- Whose mistake it is. -/
def kind : MatrixCause → FaultKind
  | biasRows .. | rightRank .. | leftRank .. => .unsupported
  | _ => .malformed

/-- The wording. -/
def text : MatrixCause → String
  | notMatrices a b => s!"operands {a.text} and {b.text} are not matrices"
  | innerExtents a b => s!"inner dimensions differ: {a} and {b}"
  | innerShapes a b => s!"inner dimensions of {a.text} and {b.text} differ"
  | biasShape bias out => s!"bias {bias.text} does not broadcast to {out.text}"
  | biasRows bias => s!"bias {bias.text} that varies along the batch"
  | scalarOperand => "scalar operand"
  | rightRank rank => s!"constant second operand of rank {rank}"
  | leftRank rank => s!"first operand of rank {rank}"

end MatrixCause

/-- Faults of recurrent operators. -/
inductive RecurrentCause where
  | outputs
  | hiddenSize (size : Int64)
  | bidirectional
  | unknownDirection (direction : String)
  | activations (names : List String)
  | clipping
  | coupledGates
  | batchMajor
  | notSequence (shape : Shape)
  | weights (what : String) (shape : Shape) (rows columns : Nat)
  | bias (shape : Shape) (width : Nat)
  | initialState (shape : Shape) (batch hidden : Nat)
  | input (what : String)
  | nonZeroState (what : String)

namespace RecurrentCause

/-- Whose mistake it is. -/
def kind : RecurrentCause → FaultKind
  | outputs | bidirectional | activations .. | clipping | coupledGates | batchMajor => .unsupported
  | input .. | nonZeroState .. => .unsupported
  | _ => .malformed

/-- The wording. -/
def text : RecurrentCause → String
  | outputs => "outputs other than the sequence Y"
  | hiddenSize size => s!"hidden_size {size.toInt} must be positive"
  | bidirectional => "bidirectional LSTM"
  | unknownDirection d => s!"unknown direction '{d}'"
  | activations names => s!"activations {Text.strings names}"
  | clipping => "cell clipping"
  | coupledGates => "coupled input and forget gates"
  | batchMajor => "batch-major layout"
  | notSequence s => s!"input {s.text} is not [seq_length, batch_size, input_size]"
  | weights what s rows columns => s!"{what} {s.text} do not match [1, {rows}, {columns}]"
  | bias s width => s!"bias {s.text} does not match [1, {width}]"
  | initialState s batch hidden =>
    s!"initial state {s.text} does not match [1, {batch}, {hidden}]"
  | input what => what
  | nonZeroState what => s!"non-zero {what}"

end RecurrentCause

/-- Faults of operators that move values without computing: reshaping, joining, cutting, picking. -/
inductive RearrangeCause where
  | noExtentToCopy (position : Nat)
  | severalInferred
  | invalidExtent (extent : Int64)
  | cannotInfer (input : Shape) (requested : List Int64)
  | cannotReshape (input target : Shape)
  | repeatedAxis (axes : List Int64)
  | cannotSqueeze (axis : Nat) (shape : Shape)
  | missingAxes
  | cannotJoin (a b : Shape) (axis : Nat)
  | negativeIndex (index : Int64)
  | indexOutOfRange (index : Int64) (extent : Nat)
  | notSingleValue (shape : Shape)
  | negativeExtent (extent : Int64)
  | valueForm (name : String)
  | valueCount (count : Nat)
  | boundCounts (starts ends axes : Nat)
  | stepCount
  | step (step : Int64)
  | slicedTwice (axis : Nat)
  | emptySlice
  | meanAxes (count : Nat)
  | noPoolSlot

namespace RearrangeCause

/-- Whose mistake it is. -/
def kind : RearrangeCause → FaultKind
  | valueForm .. | step .. | emptySlice | meanAxes .. => .unsupported
  | noPoolSlot => .internal
  | _ => .malformed

/-- The wording. -/
def text : RearrangeCause → String
  | noExtentToCopy i => s!"no input extent to copy at {i}"
  | severalInferred => "more than one -1 in shape"
  | invalidExtent d => s!"invalid extent {d.toInt}"
  | cannotInfer s ds => s!"cannot reshape {s.text} into {Text.integers ds}"
  | cannotReshape s t => s!"cannot reshape {s.text} into {t.text}"
  | repeatedAxis axes => s!"repeated axis in {Text.integers axes}"
  | cannotSqueeze axis s => s!"cannot squeeze axis {axis} of {s.text}"
  | missingAxes => "missing axes"
  | cannotJoin a b axis => s!"cannot concatenate {a.text} and {b.text} along axis {axis}"
  | negativeIndex i => s!"negative index {i.toInt} is only valid from opset 11"
  | indexOutOfRange i extent => s!"index {i.toInt} is out of range for extent {extent}"
  | notSingleValue s => s!"value of shape {s.text} is not a single element"
  | negativeExtent d => s!"negative extent {d.toInt}"
  | valueForm name => s!"{name} constant"
  | valueCount n => s!"expected exactly one value attribute, got {n}"
  | boundCounts starts ends axes => s!"{starts} starts, {ends} ends and {axes} axes"
  | stepCount => "steps do not match starts"
  | step s => s!"slice step {s.toInt}"
  | slicedTwice axis => s!"axis {axis} sliced twice"
  | emptySlice => "empty slice"
  | meanAxes n => s!"mean over {n} axes"
  | noPoolSlot => "ran out of slots"

end RearrangeCause

/-! ### Linking and compiling -/

/-- How far a vertex of a network has come. -/
inductive VertexState where
  /-- Nothing has been done about its values. -/
  | pending
  /-- Its values were computed at compile time. -/
  | folded
  /-- Its values are bound to outputs of layers. -/
  | materialized
deriving DecidableEq

/-- The name of the state. -/
def VertexState.text : VertexState → String
  | pending => "Pending"
  | folded => "Folded"
  | materialized => "Materialized"

/-- Faults of a network as a whole. -/
inductive NetworkCause where
  | initializerTwice
  | producedLater (name : String)
  | notDefined (name : String)
  | definedTwice (name : String)
  | outputNotDefined (name : String)
  | cycle
  | targetInUse (layers : Nat)
  | invalidOpset (opset : Int64)
  | opsetTooNew (opset supported : Int64)
  | outputNotProduced (slot : Nat) (name : String)
  | constantOutput
  | loweredShape (slot : Nat) (got expected : Shape)
  | noShape (value : Wire)
  | notBound (value : Wire)
  /-- A node was taken up a second time. -/
  | visitedTwice
  /-- An input was already wired. -/
  | boundTwice (index : Nat) (value : Wire)
  /-- There is no such input to be wired. -/
  | noInput (index : Nat)
  /-- A vertex cannot go from one state to another. -/
  | transition (current next : VertexState)
  /-- An operator gave another number of values than of shapes. -/
  | foldedCount (got expected : Nat)
  /-- An operator gave another number of tensors than of shapes. -/
  | loweredCount (got expected : Nat)
  /-- An output of the model reads nothing. -/
  | outputNotBound
  /-- A named constant is not known to be one. -/
  | notFolded

namespace NetworkCause

/-- Whose mistake it is. -/
def kind : NetworkCause → FaultKind
  | initializerTwice | producedLater .. | notDefined .. | definedTwice .. => .malformed
  | outputNotDefined .. | cycle | invalidOpset .. => .malformed
  | opsetTooNew .. | outputNotProduced .. | constantOutput => .unsupported
  | _ => .internal

/-- The wording. -/
def text : NetworkCause → String
  | initializerTwice => "value is defined twice"
  | producedLater name =>
    s!"input '{name}' is produced later; the graph is not topologically sorted"
  | notDefined name => s!"input '{name}' is not defined"
  | definedTwice name => s!"value '{name}' is defined twice"
  | outputNotDefined name => s!"graph output '{name}' is not defined"
  | cycle => "the graph has a cycle through this node"
  | targetInUse n => s!"target layer graph already holds {n} layers"
  | invalidOpset o => s!"opset {o.toInt} is not valid"
  | opsetTooNew o supported => s!"opset {o.toInt} is newer than the supported {supported.toInt}"
  | outputNotProduced slot name => s!"output {slot} ('{name}') is not produced"
  | constantOutput => "output node must have user-dependent data as input"
  | loweredShape slot got expected =>
    s!"output {slot} has shape {got.text}, expected {expected.text}"
  | noShape v => s!"input {v.text} has no shape yet"
  | notBound v => s!"input {v.text} is not bound yet"
  | visitedTwice => "node visited twice while linking"
  | boundTwice i v => s!"input {i} is already bound to {v.text}"
  | noInput i => s!"node has no input {i}"
  | transition current next => s!"cannot move from {current.text} to {next.text}"
  | foldedCount got expected => s!"folded {got} outputs, expected {expected}"
  | loweredCount got expected => s!"materialized {got} outputs, expected {expected}"
  | outputNotBound => "graph output is not bound"
  | notFolded => "initializer was not folded"

end NetworkCause

/-! ### All causes -/

/-- Why something failed. -/
inductive Cause where
  | word (cause : WordCause)
  | tensor (cause : TensorCause)
  | node (cause : NodeCause)
  | broadcast (cause : BroadcastCause)
  | role (cause : RoleCause)
  | layer (cause : LayerCause)
  | kernel (cause : KernelCause)
  | elementwise (cause : ElementwiseCause)
  | window (cause : WindowCause)
  | matrix (cause : MatrixCause)
  | recurrent (cause : RecurrentCause)
  | rearrange (cause : RearrangeCause)
  | network (cause : NetworkCause)
  /-- A cause stated by the user of the library, in their own words. -/
  | stated (kind : FaultKind) (message : String)

namespace Cause

/-- Whose mistake it is. -/
def kind : Cause → FaultKind
  | word _ => .fatal
  | tensor c => c.kind
  | node c => c.kind
  | broadcast _ => .unsupported
  | role c => c.kind
  | layer _ => .internal
  | kernel c => c.kind
  | elementwise c => c.kind
  | window c => c.kind
  | matrix c => c.kind
  | recurrent c => c.kind
  | rearrange c => c.kind
  | network c => c.kind
  | stated k _ => k

/-- The wording. -/
def text : Cause → String
  | word c => c.text
  | tensor c => c.text
  | node c => c.text
  | broadcast c => c.text
  | role c => c.text
  | layer c => c.text
  | kernel c => c.text
  | elementwise c => c.text
  | window c => c.text
  | matrix c => c.text
  | recurrent c => c.text
  | rearrange c => c.text
  | network c => c.text
  | stated _ m => m

end Cause

end Lamina
