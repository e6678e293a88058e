import Lamina.Activation
import Lamina.Tensor

/-!
# Layers

The kinds of layer that a network is lowered to, with their parameters and their texts.
-/

namespace Lamina

/-- Which value a pooling takes from its window. -/
inductive PoolKind where
  | max
  | mean
deriving DecidableEq

/-- The name of the kind. -/
def PoolKind.text : PoolKind → String
  | max => "Max"
  | mean => "Mean"

/-- A parameter along the two spatial directions. -/
structure Planar where
  /-- The value along the height. -/
  height : Nat
  /-- The value along the width. -/
  width : Nat
deriving DecidableEq

/-- The first two values of a list, with a default for those that are missing. -/
def Planar.ofList (values : List Nat) (fill : Nat) : Planar :=
  ⟨values.getD 0 fill, values.getD 1 fill⟩

/-- The spatial parameters of a convolution. -/
structure ConvGeometry where
  /-- Number of filters. -/
  filterCount : Nat
  /-- Extents of a filter. -/
  kernel : Planar
  /-- Distance between neighbouring windows. -/
  strides : Planar
  /-- Padding on either side. -/
  pads : Planar
  /-- Distance between neighbouring points of a window. -/
  dilations : Planar
deriving DecidableEq

/-- The spatial parameters of a pooling. -/
structure PoolGeometry where
  /-- Extents of the window. -/
  kernel : Planar
  /-- Distance between neighbouring windows. -/
  strides : Planar
  /-- Padding on either side. -/
  pads : Planar
deriving DecidableEq

/-- What a layer does. -/
inductive LayerKind where
  /-- An input of the network. -/
  | source
  /-- A blob with fixed contents. -/
  | constantSource (tensor : Constant)
  /-- An output of the network. -/
  | sink
  /-- Moves data from one layout to another. -/
  | layoutConversion (source target : Layout)
  /-- Repeats unit extents up to a shape. -/
  | broadcast (shape : Shape)
  /-- The sum of the inputs. -/
  | eltwiseSum
  /-- The product of the inputs. -/
  | eltwiseMul
  /-- An elementwise function. -/
  | activation (function : Activation)
  /-- A convolution across all channels. -/
  | conv (filter : Constant) (freeTerm : Option Constant) (params : ConvGeometry)
  /-- A convolution of each channel by itself. -/
  | channelwiseConv (filter : Constant) (freeTerm : Option Constant) (params : ConvGeometry)
  /-- A pooling over a sliding window. -/
  | pooling (kind : PoolKind) (params : PoolGeometry)
  /-- A pooling over the whole plane. -/
  | globalPooling (kind : PoolKind)
  /-- `x * gamma + beta` per channel. -/
  | batchNorm (gamma beta : Constant)
  /-- A product with a matrix of weights. -/
  | fullyConnected (weights : Constant) (freeTerm : Option Constant)
  /-- Response normalisation over a window of neighbouring channels. -/
  | lrn (size : Nat) (alpha beta bias : Binary32)
  /-- A recurrent layer that steps along the batch length. -/
  | lstm (hiddenSize : Nat) (inputWeights recurrentWeights : Constant)
      (freeTerm : Option Constant) (reverse : Bool)
  /-- Softmax over each object. -/
  | softmax
  /-- The same blob seen under another shape. -/
  | reshape (source target : Shape)
  /-- The inputs joined along a slot. -/
  | concat (slot : Slot)
  /-- A range of positions along a slot. -/
  | slice (slot : Slot) (start length : Nat)

namespace LayerKind

/-- The name of the kind. -/
def name : LayerKind → String
  | source => "Source"
  | constantSource _ => "ConstantSource"
  | sink => "Sink"
  | layoutConversion .. => "LayoutConversion"
  | broadcast _ => "Broadcast"
  | eltwiseSum => "EltwiseSum"
  | eltwiseMul => "EltwiseMul"
  | activation _ => "Activation"
  | conv .. => "Conv"
  | channelwiseConv .. => "ChannelwiseConv"
  | pooling .. => "Pooling"
  | globalPooling _ => "GlobalPooling"
  | batchNorm .. => "BatchNorm"
  | fullyConnected .. => "FullyConnected"
  | lrn .. => "Lrn"
  | lstm .. => "Lstm"
  | softmax => "Softmax"
  | reshape .. => "Reshape"
  | concat _ => "Concat"
  | slice .. => "Slice"

/-- Number of outputs: a sink has none, every other layer has one. -/
def outputCount : LayerKind → Nat
  | sink => 0
  | _ => 1

/-- The name with the parameters that tell layers of a kind apart. -/
def text : LayerKind → String
  | constantSource t => s!"ConstantSource({t.shape.text})"
  | layoutConversion a b => s!"LayoutConversion({a.text} -> {b.text})"
  | broadcast s => s!"Broadcast({s.text})"
  | activation a => s!"Activation({a.text})"
  | pooling k _ => s!"Pooling({k.text})"
  | globalPooling k => s!"GlobalPooling({k.text})"
  | reshape a b => s!"Reshape({a.text} -> {b.text})"
  | concat d => s!"Concat({d.text})"
  | lstm hidden _ _ _ reverse =>
    if reverse then s!"Lstm({hidden}, reverse)" else s!"Lstm({hidden})"
  | slice d start length => s!"Slice({d.text}, {start}..{start + length})"
  | kind => kind.name

end LayerKind

/-- What a layer is to be. -/
structure LayerSpec where
  /-- The name. -/
  name : String
  /-- What it does. -/
  kind : LayerKind
  /-- The outputs of other layers that it reads. -/
  inputs : List Outlet

/-- A layer: what it does and what it reads. -/
structure Layer where
  /-- The name, which no other layer of the graph has. -/
  name : String
  /-- What it does. -/
  kind : LayerKind
  /-- The outputs of earlier layers that it reads. -/
  inputs : List Outlet
  /-- Number of outputs. -/
  outputCount : Nat

/-- The layer with the number of outputs that its kind has. -/
def LayerSpec.layer (s : LayerSpec) : Layer := ⟨s.name, s.kind, s.inputs, s.kind.outputCount⟩

end Lamina
