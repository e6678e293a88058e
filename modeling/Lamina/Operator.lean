import Lamina.Broadcast
import Lamina.Matrix
import Lamina.Slicing
import Lamina.Window

/-!
# Operators

An operator is a node whose attributes have been read: its header and what it does.
-/

namespace Lamina

/-- An elementwise operation of several operands. -/
inductive Pointwise where
  | add
  | sub
  | mul
  | div
  | sum
deriving DecidableEq

/-- The arithmetic operation that combines two operands. -/
def Pointwise.binary : Pointwise → BinaryOp
  | add | sum => .add
  | sub => .sub
  | mul => .mul
  | div => .div

/-- What an operator does. -/
inductive Action where
  /-- Passes its input on. -/
  | identity
  /-- Combines its inputs element by element. -/
  | eltwise (op : Pointwise) (mode : Alignment)
  /-- Applies a function to each element; the bounds of a clip may be further inputs. -/
  | activation (function : Activation) (boundsAreInputs : Bool)
  /-- Convolves with constant filters. -/
  | conv (group : Nat) (window : Window)
  /-- Pools over a sliding window. -/
  | pool (kind : PoolKind) (window : Window)
  /-- Pools over all spatial positions. -/
  | globalPool (kind : PoolKind)
  /-- Normalises each channel by constant statistics. -/
  | batchNorm (epsilon : Binary32)
  /-- Multiplies two matrices and adds a third. -/
  | gemm (params : Gemm)
  /-- Multiplies stacks of matrices. -/
  | matMul
  /-- Softmax over the axes from one on. -/
  | softmax (axis : Int64)
  /-- Normalises over neighbouring channels. -/
  | lrn (size : Nat) (alpha beta bias : Binary32)
  /-- A recurrent unit of one direction. -/
  | lstm (hiddenSize : Nat) (reverse : Bool)
  /-- Joins the axes before one and those from it on. -/
  | flatten (axis : Int64)
  /-- Takes a requested shape; without one it is an input. -/
  | reshape (requested : Option (List Int64))
  /-- Drops unit axes; without a list they are an input, or all of them. -/
  | squeeze (axes : Option (List Int64))
  /-- Inserts unit axes; without a list they are an input. -/
  | unsqueeze (axes : Option (List Int64))
  /-- Joins its inputs along an axis. -/
  | concat (axis : Int64)
  /-- The extents of its input. -/
  | shapeOf
  /-- Picks positions along an axis. -/
  | gather (axis : Int64)
  /-- Fills a given shape with a value. -/
  | constantOfShape (value : Constant)
  /-- A value carried by the node. -/
  | constant (value : Constant)
  /-- Keeps ranges of positions; without bounds they are inputs. -/
  | slice (bounds : Option SliceBounds)
  /-- The mean over some axes, or over all. -/
  | reduceMean (axes : Option (List Int64)) (keepDims : Bool)

/-- A node whose attributes have been read. -/
structure Operator where
  /-- What identifies the node. -/
  header : Header
  /-- What it does. -/
  action : Action

namespace Operator

/-- Whether the outputs are known from the shapes of the inputs alone. -/
def knownFromShapes (op : Operator) : Bool :=
  match op.action with
  | .shapeOf => true
  | _ => false

/-- How an elementwise operator aligns its inputs. -/
def mode? (op : Operator) : Option Alignment :=
  match op.action with
  | .eltwise _ mode => some mode
  | _ => none

end Operator

end Lamina
