import Lamina.Constant

/-!
# Tensors of a network

A value that flows along a network is either a constant or the output of a layer. The second kind is
held by a handle: an outlet of the layer graph together with the shape and the layout its data have.
-/

namespace Lamina

/-- One output of one layer. -/
structure Outlet where
  /-- The position of the layer. -/
  layer : Nat
  /-- The position among the layer's outputs. -/
  index : Nat
deriving DecidableEq

/-- The layer's number, then the output's. -/
def Outlet.text (p : Outlet) : String := s!"#{p.layer}:{p.index}"

/-- A tensor that a layer produces at run time. -/
structure Handle where
  /-- The extents. -/
  shape : Shape
  /-- The slot of each axis. -/
  layout : Layout
  /-- Where the data come from. -/
  outlet : Outlet
deriving DecidableEq

/-- The same data seen under another shape and layout, for changes that keep the memory image. -/
def Handle.seenAs (h : Handle) (shape : Shape) (layout : Layout) : Handle :=
  ⟨shape, layout, h.outlet⟩

/-- A value of a network. -/
inductive Tensor where
  | constant (value : Constant)
  | handle (value : Handle)

namespace Tensor

/-- The extents. -/
def shape : Tensor → Shape
  | constant c => c.shape
  | handle h => h.shape

/-- The slot of each axis. -/
def layout : Tensor → Layout
  | constant c => c.layout
  | handle h => h.layout

/-- The constant, if it is one. -/
def constant? : Tensor → Option Constant
  | constant c => some c
  | handle _ => none

end Tensor

end Lamina
