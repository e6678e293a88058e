import Lamina.Fault
import Lamina.Layout.Assign
import Lamina.Search

/-!
# Axis roles

Before layouts are fixed, a table keeps for each value of a network which slot each of its axes is
to take. Operators pin axes to slots and link axes of different values that should take the same
one.

* Pinning (`pin`) never changes a slot once given, and never gives a slot to two axes of a value.
* Linking (`linkAxes`) is remembered, and passes a slot that is known on one side to the other side.
* Committing (`commit`) gives the remaining axes of a value their slots: the first usable one among
  the slots of axes they are linked with, directly or through others, and otherwise the first unused
  one.

Constants have no roles, and links to them are ignored.
-/

namespace Lamina

/-- What the table knows about a value. -/
structure RoleRow where
  /-- The extents of the value. -/
  shape : Shape
  /-- Whether the value is a constant. -/
  constant : Bool
  /-- The slot of each axis, as far as it is decided. -/
  roles : List (Option Slot)

/-- The roles of the axes of a network's values, and the links between axes. -/
structure Roles where
  /-- For each node, the rows of its outputs. -/
  rows : List (List RoleRow)
  /-- Linked axes. Every link is listed in both directions, and no direction twice. -/
  links : List (Axis × Axis)

/-- A computation that changes a role table, keeping what it changed when it fails. -/
abbrev RoleM := ExceptT Fault (StateM Roles)

namespace Roles

/-- The table without values. -/
def empty : Roles := ⟨[], []⟩

/-- The table with the outputs of one more node, each a shape and whether it is constant. -/
def addOutputs (t : Roles) (outputs : List (Shape × Bool)) : Roles :=
  { t with rows := t.rows ++ [outputs.map fun (s, c) => ⟨s, c, List.replicate s.rank none⟩] }

/-- The row of a value. -/
def row? (t : Roles) (v : Wire) : Option RoleRow := do
  let outputs ← t.rows[v.node]?
  outputs[v.output]?

/-- The row of a value, whose absence is a fault. -/
def row (t : Roles) (v : Wire) : Except Fault RoleRow :=
  match t.row? v with
  | some r => .ok r
  | none => Site.fail ⟨"RoleTable", ""⟩ (.role (.noRow v))

/-- The extents of a value. -/
def shape (t : Roles) (v : Wire) : Except Fault Shape := RoleRow.shape <$> t.row v

/-- Whether a value takes no part in the table: it is constant or unknown. -/
def isConstant (t : Roles) (v : Wire) : Bool := (t.row? v).all RoleRow.constant

/-- Whether every axis of a value has its slot. -/
def isComplete (t : Roles) (v : Wire) : Bool :=
  (t.row? v).any fun r => r.roles.all Option.isSome

/-- The slot of an axis. -/
def role? (t : Roles) (v : Wire) (axis : Nat) : Option Slot := do
  let r ← t.row? v
  let role ← r.roles[axis]?
  role

/-- The table with other roles for a value. -/
def setRoles (t : Roles) (v : Wire) (roles : List (Option Slot)) : Roles :=
  { t with rows := t.rows.modify v.node fun outputs => outputs.modify v.output fun r =>
      { r with roles := roles } }

/-! ### Links -/

/-- The table with a link in one direction, unless it is there. -/
def insertLink (t : Roles) (a b : Axis) : Roles :=
  if (a, b) ∈ t.links then t else { t with links := t.links ++ [(a, b)] }

/-- The axes linked with an axis, in order. -/
def peers (t : Roles) (a : Axis) : List Axis :=
  ((t.links.filter fun link => link.1 = a).map Prod.snd).mergeSort Axis.le

/-- The axes that can be reached from an axis through links, in the order of a search that goes on
from the last axis found. -/
def linkedAxes (t : Roles) (start : Axis) : List Axis :=
  Search.explore t.peers (Search.without (t.links.map Prod.snd) [start]) [start]

/-- The slots of the axes that can be reached from an axis. -/
def slotsReached (t : Roles) (start : Axis) : List Slot :=
  (t.linkedAxes start).filterMap fun a => t.role? a.value a.axis

end Roles

/-! ### Changing the table -/

namespace RoleM

/-- Pins an axis of a value to a slot, and tells whether that was news. -/
def pin (site : Site) (v : Wire) (axis : Nat) (slot : Slot) : RoleM Bool := do
  let t ← get
  let row ← t.row v
  if row.constant then return false
  else match row.roles[axis]? with
    | none => site.fail (.role (.axisOutOfRange axis row.roles.length))
    | some (some d) =>
      if d = slot then return false else site.fail (.role (.axisSettled axis v d slot))
    | some none =>
      match row.roles.idxOf? (some slot) with
      | some other => site.fail (.role (.slotTaken slot v other))
      | none =>
        set (t.setRoles v (row.roles.set axis (some slot)))
        return true

/-- Pins every axis of a value. -/
def pinAll (site : Site) (v : Wire) (slots : List Slot) : RoleM Unit := do
  let shape ← (← get).shape v
  if shape.rank ≠ slots.length then site.fail (.role (.pinRank shape.rank slots.length))
  else slots.zipIdx.forM fun (slot, axis) => discard (pin site v axis slot)

/-- Passes the slot of one axis, if it has one, to another. -/
def passRole (site : Site) (source target : Axis) : RoleM Unit := do
  match (← get).role? source.value source.axis with
  | some slot => discard (pin site target.value target.axis slot)
  | none => return

/-- Links two axes and passes what is known in both directions. -/
def linkAxes (site : Site) (a b : Axis) : RoleM Unit := do
  let t ← get
  if t.isConstant a.value || t.isConstant b.value then return
  set ((t.insertLink a b).insertLink b a)
  passRole site a b
  passRole site b a

/-- Links two values of one rank axis by axis. -/
def link (site : Site) (a b : Wire) : RoleM Unit := do
  let t ← get
  if t.isConstant a || t.isConstant b then return
  let rankA := (← t.shape a).rank
  let rankB := (← t.shape b).rank
  if rankA ≠ rankB then site.fail (.role (.linkRanks rankA rankB))
  else (List.range rankA).forM fun axis => linkAxes site ⟨a, axis⟩ ⟨b, axis⟩

/-- Links the axes of an operand with those of the result they are aligned with, where both have the
same extent greater than one. -/
def linkMatching (site : Site) (input : Wire) (offset : Nat) (output : Wire) :
    RoleM Unit := do
  let t ← get
  if t.isConstant input || t.isConstant output then return
  let inner ← t.shape input
  let outer ← t.shape output
  (List.range inner.rank).forM fun axis =>
    let target := offset + axis
    if target < outer.rank ∧ 1 < inner.extent axis ∧ inner.extent axis = outer.extent target then
      linkAxes site ⟨input, axis⟩ ⟨output, target⟩
    else return

/-- Gives the remaining axes of a value their slots, and returns its layout. A constant has the open
layout. -/
def commit (site : Site) (v : Wire) : RoleM Layout := do
  let t ← get
  let row ← t.row v
  if row.constant then return .uncommitted
  else if Slot.total < row.roles.length then
    site.fail (.role (.tooManyAxes row.roles.length))
  else
    let wanted := row.roles.zipIdx.map fun (role, axis) =>
      if role.isSome then [] else t.slotsReached ⟨v, axis⟩
    match completeSlots [] (claimSlots row.roles wanted) with
    | none => site.fail (.role .noSlotLeft)
    | some slots =>
      set (t.setRoles v (slots.map some))
      Layout.ofSlots slots

end RoleM

end Lamina
