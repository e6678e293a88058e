import Lamina.Activation
import Lamina.Axes
import Lamina.Broadcast
import Lamina.Buffer
import Lamina.Buffer.Strided
import Lamina.Compile
import Lamina.Constant
import Lamina.Fault
import Lamina.Fault.Cause
import Lamina.Kernel
import Lamina.Layer
import Lamina.Layer.Adapt
import Lamina.Layer.Graph
import Lamina.Layout
import Lamina.Layout.Assign
import Lamina.Matrix
import Lamina.Network
import Lamina.Network.Order
import Lamina.Network.Plan
import Lamina.Node
import Lamina.Number.Binary
import Lamina.Number.Decimal
import Lamina.Operator
import Lamina.Operator.Family
import Lamina.Operator.Fold
import Lamina.Operator.Infer
import Lamina.Operator.Lower
import Lamina.Operator.Operand
import Lamina.Operator.Propagate
import Lamina.Registry
import Lamina.Roles
import Lamina.Search
import Lamina.Shape
import Lamina.Slicing
import Lamina.Tensor
import Lamina.Text.Cased
import Lamina.Text.Hidden
import Lamina.Text.Lowercase
import Lamina.Text.Quoted
import Lamina.Text.Ranges
import Lamina.Window
import Lamina.Wire
import Lamina.Proofs.Broadcasting
import Lamina.Proofs.Compilation
import Lamina.Proofs.Constants
import Lamina.Proofs.Folding
import Lamina.Proofs.Inference
import Lamina.Proofs.Layers
import Lamina.Proofs.Linking
import Lamina.Proofs.Lowering
import Lamina.Proofs.Order
import Lamina.Proofs.Outcome
import Lamina.Proofs.Planning
import Lamina.Proofs.Progress
import Lamina.Proofs.Reading
import Lamina.Proofs.Roles
import Lamina.Proofs.Search
import Lamina.Proofs.Slots
import Lamina.Proofs.Strided
import Lamina.Proofs.Permanence
import Lamina.Proofs.Solutions
import Lamina.Proofs.Constness
import Lamina.Proofs.Reordering
import Lamina.Proofs.Indexing
import Lamina.Proofs.MemoryImages
import Lamina.Proofs.Adapting
import Lamina.Proofs.LayoutIndependence
import Lamina.Proofs.FoldOutcomes
import Lamina.Proofs.Requests
import Lamina.Proofs.Wishes
import Lamina.Proofs.Propagation
import Lamina.Proofs.AppendOnly
import Lamina.Proofs.ConstantLayouts
import Lamina.Proofs.Appending
import Lamina.Proofs.Scoping
import Lamina.Proofs.Windows
import Lamina.Proofs.Conversions
import Lamina.Proofs.Committing
import Lamina.Proofs.Families
import Lamina.Proofs.UnitAxes
import Lamina.Proofs.Reshaping
import Lamina.Proofs.ShapeAlgebra
import Lamina.Proofs.Offsets
import Lamina.Proofs.Elementwise
import Lamina.Proofs.Slices
import Lamina.Proofs.Blocks
import Lamina.Proofs.Joining
import Lamina.Proofs.Gathering
import Lamina.Proofs.Stacks
import Lamina.Proofs.Packing
import Lamina.Proofs.WindowPositions
import Lamina.Proofs.ReshapeTargets
import Lamina.Proofs.Squeezing
import Lamina.Proofs.MeanPooling
import Lamina.Proofs.Odometer
import Lamina.Proofs.Accumulating
import Lamina.Proofs.ByteForms
import Lamina.Proofs.LinkSearch
import Lamina.Proofs.PaddedLayouts
import Lamina.Proofs.FreshNames
import Lamina.Word
import Lamina.Product
import Lamina.Proofs.Words
import Lamina.Proofs.Means
