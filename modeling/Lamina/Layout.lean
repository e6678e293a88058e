import Lamina.Shape

/-!
# Slots and layouts

A run-time blob has seven physical slots, and its memory is row-major over them in their fixed
order. A layout says which slot each axis of a tensor occupies; the empty layout says that nothing
has been decided yet and that the data lie in axis order. No slot is given to two axes, which is
part of the type.

The axes in memory order (`Layout.memoryOrder`) determine where an element lies. Axes of extent one
do not matter there, so two layouts may describe the same memory image: `Layout.reordersMemory`
tells when they do not.
-/

namespace Lamina

/-- A physical dimension of a run-time blob. The order of the constructors is the order in
memory. -/
inductive Slot where
  | batchLength
  | batchWidth
  | listSize
  | height
  | width
  | depth
  | channels
deriving DecidableEq, Inhabited

namespace Slot

/-- All slots in memory order. -/
def all : List Slot := [batchLength, batchWidth, listSize, height, width, depth, channels]

/-- Number of slots. -/
def total : Nat := 7

/-- Position in memory order. -/
def index : Slot → Nat
  | batchLength => 0
  | batchWidth => 1
  | listSize => 2
  | height => 3
  | width => 4
  | depth => 5
  | channels => 6

/-- The abbreviation used in texts. -/
def text : Slot → String
  | batchLength => "BL"
  | batchWidth => "BW"
  | listSize => "LS"
  | height => "H"
  | width => "W"
  | depth => "D"
  | channels => "C"

/-- The name written out. -/
def fullName : Slot → String
  | batchLength => "BatchLength"
  | batchWidth => "BatchWidth"
  | listSize => "ListSize"
  | height => "Height"
  | width => "Width"
  | depth => "Depth"
  | channels => "Channels"

/-- The slot with a given abbreviation. -/
def ofText? (s : String) : Option Slot := all.find? fun d => d.text == s

theorem mem_all (d : Slot) : d ∈ all := by cases d <;> decide

theorem index_injective {a b : Slot} (h : a.index = b.index) : a = b := by
  revert h
  cases a <;> cases b <;> decide

end Slot

/-- The first slot in memory order that is not among `used`. -/
def Slot.firstOutside (used : List Slot) : Option Slot := Slot.all.find? fun d => !used.contains d

/-- One slot per axis, no slot twice. The empty layout leaves the slots open. -/
structure Layout where
  /-- The slot of each axis. -/
  slots : List Slot
  /-- No slot is given to two axes. -/
  nodup : slots.Nodup
deriving DecidableEq

namespace Layout

/-- The layout of a tensor without decided slots. -/
def uncommitted : Layout := ⟨[], List.nodup_nil⟩

instance : Inhabited Layout := ⟨uncommitted⟩

/-- The layout with these slots, if none occurs twice. -/
def ofSlots? (slots : List Slot) : Option Layout :=
  if h : slots.Nodup then some ⟨slots, h⟩ else none

/-- Whether no slots are decided. -/
def isEmpty (l : Layout) : Bool := l.slots.isEmpty

/-- Number of axes. -/
def rank (l : Layout) : Nat := l.slots.length

/-- Whether some axis occupies the slot. -/
def contains (l : Layout) (d : Slot) : Bool := l.slots.contains d

/-- The axis that occupies a slot. -/
def position? (l : Layout) (d : Slot) : Option Nat := l.slots.idxOf? d

/-- The slot of an axis. -/
def slot? (l : Layout) (axis : Nat) : Option Slot := l.slots[axis]?

/-- Whether a list of positions has a neighbouring pair in descending order. -/
def descends : List Nat → Bool
  | a :: b :: rest => b < a || descends (b :: rest)
  | _ => false

/-- Whether memory order differs from axis order. -/
def isShuffled (l : Layout) : Bool := descends (l.slots.map Slot.index)

/-- The slots without an axis, in memory order. -/
def unused (l : Layout) : List Slot := Slot.all.filter fun d => !l.contains d

/-- The same slots given to the axes in memory order. -/
def sorted (l : Layout) : Layout where
  slots := l.slots.mergeSort fun a b => a.index ≤ b.index
  nodup := (List.mergeSort_perm l.slots _).nodup_iff.2 l.nodup

/-- The axes in the order in which they lie in memory. Without decided slots that is axis order. -/
def memoryOrder (l : Layout) (rank : Nat) : List Nat :=
  if l.isEmpty then List.range rank
  else (l.slots.zipIdx.mergeSort fun a b => a.1.index ≤ b.1.index).map Prod.snd

/-- The axes of more than one position in memory order: what the memory image depends on. -/
def imageOrder (l : Layout) (extents : List Nat) : List Nat :=
  (l.memoryOrder extents.length).filter fun axis => 1 < extents.getD axis 1

/-- Whether a tensor of these extents has different memory images under the two layouts. -/
def reordersMemory (l target : Layout) (extents : List Nat) : Bool :=
  l.imageOrder extents != target.imageOrder extents

/-- Whether the layout can describe a tensor of this rank. -/
def fits (l : Layout) (rank : Nat) : Bool := l.isEmpty || l.rank == rank

/-- The abbreviated slots in brackets. -/
def text (l : Layout) : String := Text.list (l.slots.map Slot.text)

end Layout

end Lamina
