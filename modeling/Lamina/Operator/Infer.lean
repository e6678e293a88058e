import Lamina.Operator

/-!
# Output shapes

The shape of an operator's output, from the shapes of its inputs, from those input values that have
to be constant, and from its attributes. Every operator has one output.
-/

namespace Lamina

/-! ### Elementwise operators -/

/-- The shape that all operands broadcast to, combined from the left. -/
def commonShape (h : Header) (mode : Alignment) : List Shape → Except Fault Shape
  | [] => h.fail (.elementwise .noInputs)
  | first :: rest => rest.foldlM (fun acc s => Broadcast.shapes h.site mode acc s) first

/-- Checks that the statistics of a normalisation have one value per channel. -/
def checkStatistics (h : Header) (ops : Operands) (channels : Nat) : Except Fault Unit :=
  [1, 2, 3, 4].forM fun i => do
    let s ← ops.shape h i
    h.site.ensure (s.dims = [channels]) (.elementwise (.statistics i s channels))

/-- The axis a softmax begins at. A single value counts as a list of one. From opset 13 on it has to
be the last axis. -/
def softmaxAxis (h : Header) (axis : Int64) (rank : Nat) : Except Fault Nat := do
  let a ← h.axis axis (max rank 1)
  h.site.ensure (h.opset < 13 || a + 1 == max rank 1) (.elementwise (.softmaxOver a rank))
  return a

/-! ### Windowed operators -/

/-- The windows of a convolution of an input with weights. -/
def convWindows (h : Header) (group : Nat) (window : Window) (x w : Shape) :
    Except Fault (List AxisWindow) := do
  h.site.ensure (3 ≤ x.rank && w.rank == x.rank) (.window (.notConvolution x w))
  let channels ← h.site.word (w.extent 1 * group)
  h.site.ensure (x.extent 1 == channels) (.window (.channelCount (x.extent 1) w group))
  window.resolve h.site (x.dims.drop 2) (some (w.dims.drop 2))

/-- The shape of a convolution, whose bias has one value per filter. -/
def convShape (h : Header) (group : Nat) (window : Window) (ops : Operands) :
    Except Fault Shape := do
  let x ← ops.shape h 0
  let w ← ops.shape h 1
  let axes ← convWindows h group window x w
  match ops.bound? 2 with
  | some b =>
    h.site.ensure (b.shape.dims = [w.extent 0]) (.window (.biasCount b.shape (w.extent 0)))
  | none => pure ()
  return Window.outputShape x (w.extent 0) axes

/-- The windows of a pooling. -/
def poolWindows (h : Header) (window : Window) (x : Shape) : Except Fault (List AxisWindow) := do
  h.site.ensure (3 ≤ x.rank) (.window (.noSpatialAxes x))
  window.resolve h.site (x.dims.drop 2) none

/-- The shape of a pooling over all positions. -/
def globalPoolShape (h : Header) (x : Shape) : Except Fault Shape := do
  h.site.ensure (3 ≤ x.rank) (.window (.noSpatialAxes x))
  return ⟨x.dims.take 2 ++ List.replicate (x.rank - 2) 1⟩

/-! ### Matrices and recurrences -/

/-- The shape of a matrix product, to which the free term has to broadcast. -/
def gemmShape (h : Header) (params : Gemm) (ops : Operands) : Except Fault Shape := do
  let a ← ops.shape h 0
  let b ← ops.shape h 1
  let d ← params.dims h a b
  let out : Shape := ⟨[d.m, d.n]⟩
  match ops.bound? 2 with
  | none => pure ()
  | some c =>
    let s ← Broadcast.shapes h.site .trailing out c.shape
    h.site.ensure (s = out) (.matrix (.biasShape c.shape out))
  return out

/-- Checks one matrix of weights of a recurrent unit, which has four rows per hidden value. -/
def checkGates (h : Header) (ops : Operands) (i : Nat) (what : String) (hidden columns : Nat) :
    Except Fault Unit := do
  let w ← ops.shape h i
  let rows ← h.site.word (4 * hidden)
  h.site.ensure (w.dims = [1, rows, columns]) (.recurrent (.weights what w rows columns))

/-- Checks the bias of a recurrent unit, if it is bound. -/
def checkGateBias (h : Header) (ops : Operands) (hidden : Nat) : Except Fault Unit :=
  match ops.bound? 3 with
  | some b => do
    let entries ← h.site.word (8 * hidden)
    h.site.ensure (b.shape.dims = [1, entries]) (.recurrent (.bias b.shape entries))
  | none => .ok ()

/-- Checks an initial state of a recurrent unit, if it is bound. -/
def checkState (h : Header) (ops : Operands) (i batch hidden : Nat) : Except Fault Unit :=
  match ops.bound? i with
  | some s =>
    h.site.ensure (s.shape.dims = [1, batch, hidden])
      (.recurrent (.initialState s.shape batch hidden))
  | none => .ok ()

/-- The shape of a recurrent unit's sequence: steps, directions, batch, hidden values. -/
def lstmShape (h : Header) (hidden : Nat) (ops : Operands) : Except Fault Shape := do
  let x ← ops.shape h 0
  match x.dims with
  | [steps, batch, features] =>
    checkGates h ops 1 "input weights" hidden features
    checkGates h ops 2 "recurrent weights" hidden hidden
    checkGateBias h ops hidden
    checkState h ops 5 batch hidden
    checkState h ops 6 batch hidden
    return ⟨[steps, 1, batch, hidden]⟩
  | _ => h.fail (.recurrent (.notSequence x))

/-! ### Rearranging operators -/

/-- The shape of a flattening. The axis may be the rank itself. -/
def flattenShape (h : Header) (axis : Int64) (x : Shape) : Except Fault Shape := do
  let a ← if axis.toInt = x.rank then pure x.rank else h.axis axis x.rank
  return ⟨[← h.site.product (x.dims.take a), ← h.site.product (x.dims.drop a)]⟩

/-- The extents asked for, `none` standing for the one to be inferred. A zero copies the extent of
the input at the same position. -/
def requestedExtents (h : Header) (input : Shape) (position : Nat) (inferred : Bool) :
    List Int64 → Except Fault (List (Option Nat))
  | [] => .ok []
  | d :: rest => do
    let extent ←
      if d = 0 then
        match input.dims[position]? with
        | some e => pure (some e)
        | none => h.fail (.rearrange (.noExtentToCopy position))
      else if d = -1 then
        if inferred then h.fail (.rearrange .severalInferred) else pure none
      else if 0 < d then pure (some d.toInt.toNat)
      else h.fail (.rearrange (.invalidExtent d))
    let extents ← requestedExtents h input (position + 1) (inferred || extent.isNone) rest
    return extent :: extents

/-- The shape that a request for a reshaping means. -/
def reshapeTarget (h : Header) (input : Shape) (requested : List Int64) : Except Fault Shape := do
  let extents ← requestedExtents h input 0 false requested
  let known ← h.site.product (extents.map fun e => e.getD 1)
  let total ← h.site.product input.dims
  if extents.contains none && (known == 0 || total % known != 0) then
    h.fail (.rearrange (.cannotInfer input requested))
  let shape : Shape := ⟨extents.map fun e => e.getD (total / known)⟩
  let count ← h.site.product shape.dims
  if count = total then return shape
  else h.fail (.rearrange (.cannotReshape input shape))

/-- The extents requested by the node or by its second input. -/
def requestedShape (h : Header) (requested : Option (List Int64)) (ops : Operands) :
    Except Fault (List Int64) :=
  match requested with
  | some ds => .ok ds
  | none => Constant.ints <$> ops.constant h 1

/-- The axes listed by the node or by its second input. -/
def listedAxes (h : Header) (axes : Option (List Int64)) (ops : Operands) :
    Except Fault (Option (List Int64)) :=
  match axes with
  | some a => .ok (some a)
  | none => Option.map Constant.ints <$> ops.constant? h 1

/-- The axes that a squeezing drops: the listed ones, or all unit axes. -/
def squeezedAxes (h : Header) (axes : Option (List Int64)) (ops : Operands) :
    Except Fault (List Nat) := do
  let x ← ops.shape h 0
  let dropped ← match ← listedAxes h axes ops with
    | some listed => h.distinctAxes listed x.rank
    | none => pure ((List.range x.rank).filter fun a => x.extent a = 1)
  match dropped.find? fun a => x.extent a ≠ 1 with
  | some a => h.fail (.rearrange (.cannotSqueeze a x))
  | none => return dropped

/-- The shape without unit axes. -/
def squeezeShape (h : Header) (axes : Option (List Int64)) (ops : Operands) :
    Except Fault Shape := do
  let x ← ops.shape h 0
  return x.dropAxes (← squeezedAxes h axes ops)

/-- The shape with unit axes at the listed positions. -/
def unsqueezeShape (h : Header) (axes : Option (List Int64)) (ops : Operands) :
    Except Fault Shape := do
  let x ← ops.shape h 0
  match ← listedAxes h axes ops with
  | none => h.fail (.rearrange .missingAxes)
  | some listed => return x.insertAxes (← h.distinctAxes listed (x.rank + listed.length))

/-- Whether two shapes of one rank agree except along an axis. -/
def agreeExcept (axis : Nat) (a b : Shape) : Bool :=
  a.rank == b.rank && (List.range a.rank).all fun i => i == axis || a.extent i == b.extent i

/-- The axis and the shape of a concatenation. -/
def joinedShape (h : Header) (axis : Int64) : List Shape → Except Fault (Nat × Shape)
  | [] => h.fail (.elementwise .noInputs)
  | first :: rest => do
    let a ← h.axis axis first.rank
    let total ← rest.foldlM (fun n s => do
      h.site.ensure (agreeExcept a first s) (.rearrange (.cannotJoin first s a))
      h.site.word (n + s.extent a)) (first.extent a)
    return (a, first.setExtent a total)

/-- The axis and the shape of a gathering: the indices take the place of the axis. -/
def gatherShape (h : Header) (axis : Int64) (data indices : Shape) :
    Except Fault (Nat × Shape) := do
  let a ← h.axis axis data.rank
  return (a, ⟨data.dims.take a ++ indices.dims ++ data.dims.drop (a + 1)⟩)

/-- The shape that a list of integers denotes. -/
def filledShape (h : Header) (ops : Operands) : Except Fault Shape := do
  let extents ← (← ops.constant h 0).ints.mapM fun d =>
    if d.toInt < 0 then h.fail (.rearrange (.negativeExtent d)) else .ok d.toInt.toNat
  return ⟨extents⟩

/-- The bounds of a slice, from the node or from its inputs. -/
def sliceBounds (h : Header) (bounds : Option SliceBounds) (ops : Operands) :
    Except Fault SliceBounds := do
  match bounds with
  | some b => return b
  | none =>
    let starts ← ops.constant h 1
    let ends ← ops.constant h 2
    let axes ← ops.constant? h 3
    let steps ← ops.constant? h 4
    return ⟨starts.ints, ends.ints, axes.map Constant.ints, steps.map Constant.ints⟩

/-- The positions that a slice keeps. -/
def keptSlices (h : Header) (bounds : Option SliceBounds) (ops : Operands) :
    Except Fault (List AxisRange) := do
  let b ← sliceBounds h bounds ops
  b.resolve h (← ops.shape h 0)

/-- The axes that a mean runs over, in ascending order and each once. -/
def reducedAxes (h : Header) (axes : Option (List Int64)) (rank : Nat) : Except Fault (List Nat) :=
  match axes with
  | none => .ok (List.range rank)
  | some listed => dropAdjacentEqual <$> h.sortedAxes listed rank

/-- The shape of a mean: the reduced axes become unit axes or disappear. -/
def meanShape (x : Shape) (reduced : List Nat) (keepDims : Bool) : Shape :=
  if keepDims then ⟨Kernel.reducedDims x.dims reduced⟩ else x.dropAxes reduced

/-! ### All operators -/

namespace Operator

/-- The shape of the output. -/
def outputShape (op : Operator) (ops : Operands) : Except Fault Shape :=
  let h := op.header
  match op.action with
  | .identity | .activation .. => ops.shape h 0
  | .eltwise _ mode => commonShape h mode ops.shapes
  | .conv group window => convShape h group window ops
  | .pool _ window => do
    let x ← ops.shape h 0
    return Window.outputShape x (x.extent 1) (← poolWindows h window x)
  | .globalPool _ => do globalPoolShape h (← ops.shape h 0)
  | .batchNorm _ => do
    let x ← ops.shape h 0
    h.site.ensure (2 ≤ x.rank) (.elementwise (.noChannelAxis x))
    checkStatistics h ops (x.extent 1)
    return x
  | .gemm params => gemmShape h params ops
  | .matMul => do
    let a ← ops.shape h 0
    let b ← ops.shape h 1
    return (← StackDims.ofShapes h a b).output
  | .softmax axis => do
    let x ← ops.shape h 0
    discard (softmaxAxis h axis x.rank)
    return x
  | .lrn .. => do
    let x ← ops.shape h 0
    h.site.ensure (3 ≤ x.rank) (.elementwise (.noSpatialAxes x))
    return x
  | .lstm hidden _ => lstmShape h hidden ops
  | .flatten axis => do flattenShape h axis (← ops.shape h 0)
  | .reshape requested => do
    let x ← ops.shape h 0
    reshapeTarget h x (← requestedShape h requested ops)
  | .squeeze axes => squeezeShape h axes ops
  | .unsqueeze axes => unsqueezeShape h axes ops
  | .concat axis => Prod.snd <$> joinedShape h axis ops.shapes
  | .shapeOf => do return ⟨[(← ops.shape h 0).rank]⟩
  | .gather axis => do
    let data ← ops.shape h 0
    let indices ← ops.shape h 1
    return (← gatherShape h axis data indices).2
  | .constantOfShape _ => filledShape h ops
  | .constant value => .ok value.shape
  | .slice bounds => do
    let slices ← keptSlices h bounds ops
    return AxisRange.apply slices (← ops.shape h 0)
  | .reduceMean axes keepDims => do
    let x ← ops.shape h 0
    return meanShape x (← reducedAxes h axes x.rank) keepDims

end Operator

end Lamina
