import Lamina.Fault.Cause

/-!
# Faults

A fault is a cause at a site. Its message names the kind of fault, the site and the cause, in that
order. A fault can be reported with traces of where it was raised, one line after another.
-/

namespace Lamina

/-- What a fault is attributed to: a node, a graph input or output, or a part of the program. -/
structure Site where
  /-- The operator type of the node, or the name of the part. -/
  opType : String
  /-- The name of the node. -/
  node : String
deriving DecidableEq

/-- A cause at a site. -/
structure Fault where
  /-- Where it happened. -/
  site : Site
  /-- What happened. -/
  cause : Cause

/-- What a message starts with. -/
def FaultKind.text : FaultKind → String
  | .malformed => "malformed graph"
  | .unsupported => "unsupported"
  | .internal => "internal inconsistency"
  | .fatal => "no machine word"

namespace Fault

/-- Whose mistake the fault is. -/
def kind (f : Fault) : FaultKind := f.cause.kind

/-- The whole message. -/
def message (f : Fault) : String :=
  s!"{f.kind.text}: {f.site.opType} '{f.site.node}': {f.cause.text}"

end Fault

/-- Fails at a site for a cause. -/
def Site.fail {α : Type} (site : Site) (cause : Cause) : Except Fault α := .error ⟨site, cause⟩

/-- Fails unless a condition holds. -/
def Site.ensure (site : Site) (condition : Bool) (cause : Cause) : Except Fault Unit :=
  if condition then .ok () else site.fail cause

/-! ### Reports -/

/-- A fault with the traces it was wrapped in. -/
inductive Report where
  /-- The bare fault. -/
  | plain (fault : Fault)
  /-- A report with one more trace. -/
  | traced (inner : Report) (trace : String)

namespace Report

/-- The fault inside. -/
def fault : Report → Fault
  | plain f => f
  | traced r _ => r.fault

/-- The message followed by the traces, a line each. -/
def text : Report → String
  | plain f => f.message
  | traced r trace => r.text ++ "\n" ++ trace

end Report

/-! ### Checked layouts -/

/-- The first slot that also occurs earlier in the list. -/
def firstRepeated (seen : List Slot) : List Slot → Option Slot
  | [] => none
  | d :: ds => if seen.contains d then some d else firstRepeated (d :: seen) ds

/-- The layout with these slots; a repeated slot is an internal fault. -/
def Layout.ofSlots (slots : List Slot) : Except Fault Layout :=
  match Layout.ofSlots? slots with
  | some l => .ok l
  | none =>
    let slot := (firstRepeated [] slots).getD default
    Site.fail ⟨"TensorLayout", ""⟩ (.tensor (.repeatedSlot slot slots))

end Lamina
