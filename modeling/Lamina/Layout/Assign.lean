import Lamina.Layout

/-!
# Completing partial layouts

While slots are being decided, an axis either has one or is free. Two passes complete such a partial
assignment. `claimSlots` lets each free axis, from the left, take the first of its wanted slots that
is not in use, and leaves it free if there is none. `completeSlots` gives every free axis a slot:
the wanted one if it is not in use, and otherwise the first unused one.
-/

namespace Lamina

/-- The slots in use in a partial assignment. -/
def usedSlots (roles : List (Option Slot)) : List Slot := roles.filterMap id

/-- Continues `claimSlots` behind the axes in `done`. -/
def claimFrom (done : List (Option Slot)) : List (Option Slot × List Slot) → List (Option Slot)
  | [] => done
  | (some d, _) :: rest => claimFrom (done ++ [some d]) rest
  | (none, wanted) :: rest =>
    let used := usedSlots (done ++ rest.map Prod.fst)
    claimFrom (done ++ [wanted.find? fun d => !used.contains d]) rest

/-- Each free axis takes the first of its wanted slots that is not in use. -/
def claimSlots (roles : List (Option Slot)) (wanted : List (List Slot)) : List (Option Slot) :=
  claimFrom [] (roles.zip wanted)

/-- The slot for a free axis: the wanted one if it is not in use, else the first unused one. -/
def chooseSlot (used : List Slot) (wanted : Option Slot) : Option Slot :=
  match wanted.filter fun w => !used.contains w with
  | some w => some w
  | none => Slot.firstOutside used

/-- Continues `completeSlots` behind the axes in `done`. -/
def completeFrom (wanted : List Slot) (done : List Slot) : List (Option Slot) → Option (List Slot)
  | [] => some done
  | some d :: rest => completeFrom wanted (done ++ [d]) rest
  | none :: rest => do
    let d ← chooseSlot (done ++ usedSlots rest) wanted[done.length]?
    completeFrom wanted (done ++ [d]) rest

/-- Every free axis gets a slot, preferably the one `wanted` lists for it. There is no result if the
slots do not suffice. -/
def completeSlots (wanted : List Slot) (roles : List (Option Slot)) : Option (List Slot) :=
  completeFrom wanted [] roles

end Lamina
