import Mathlib
import Lamina.Network.Plan
import Lamina.Proofs.Inference

/-!
# Role tables

A role table describes the values of a network (`Roles.Describes`): it has a row for each of them,
with its shape, one role per axis and no slot given to two axes. Every change to a table keeps this
true. Pins and links fail at the site that asks for them and nowhere else, as long as the values
they speak of are known (`RoleM.pin_keeps`, `RoleM.linkAxes_keeps`). A committed layout has one slot
per axis (`RoleM.commit_keeps`).
-/

namespace Lamina

variable {α β : Type} {P : Fault → Prop} {facts : Facts} {site : Site} {t : Roles} {v : Wire}

/-! ### What a table says -/

namespace Roles

theorem role?_eq_some {axis : Nat} {slot : Slot} :
    t.role? v axis = some slot ↔ ∃ r, t.row? v = some r ∧ r.roles[axis]? = some (some slot) := by
  unfold role?
  cases hr : t.row? v with
  | none => simp
  | some r =>
    cases hrole : r.roles[axis]? with
    | none => simp [hrole]
    | some role => simp [hrole]

/-- A value takes part in a table if it has a row there that is not that of a constant. -/
theorem isConstant_eq_false :
    t.isConstant v = false ↔ ∃ r, t.row? v = some r ∧ r.constant = false := by
  unfold isConstant
  cases t.row? v with
  | none => simp
  | some r => simp

/-- The row that is found is the row of the value. -/
theorem row_yields (t : Roles) (v : Wire) :
    Yields (fun _ => True) (t.row v) fun r => t.row? v = some r := by
  unfold Roles.row
  cases t.row? v with
  | none => trivial
  | some r => exact .ok rfl

theorem shape_yields (t : Roles) (h : ∃ r, t.row? v = some r) :
    Yields P (t.shape v) fun _ => True := by
  obtain ⟨r, hr⟩ := h
  unfold shape row
  rw [hr]
  exact .ok trivial

theorem shape_of_live (t : Roles) (h : t.isConstant v = false) :
    Yields P (t.shape v) fun _ => True := by
  obtain ⟨r, hr, -⟩ := isConstant_eq_false.1 h
  exact t.shape_yields ⟨r, hr⟩

/-- A change of roles changes one row. -/
theorem row?_setRoles {r : RoleRow} (hr : t.row? v = some r) (roles : List (Option Slot))
    (w : Wire) :
    (t.setRoles v roles).row? w = if w = v then some { r with roles } else t.row? w := by
  obtain ⟨outputs, houtputs, hr⟩ := Option.bind_eq_some_iff.1 hr
  obtain ⟨node, output⟩ := v
  obtain ⟨node', output'⟩ := w
  dsimp only at houtputs hr
  simp only [setRoles, row?, List.getElem?_modify, Wire.mk.injEq]
  by_cases hnode : node = node'
  · subst hnode
    by_cases houtput : output = output'
    · subst houtput
      simp [houtputs, hr]
    · simp [houtputs, houtput, Ne.symm houtput]
  · simp [hnode, Ne.symm hnode]

theorem mem_insertLink {a b : Axis} {link : Axis × Axis} :
    link ∈ (t.insertLink a b).links ↔ link ∈ t.links ∨ link = (a, b) := by
  unfold insertLink
  split_ifs with hmem
  · constructor
    · exact Or.inl
    · rintro (h | rfl)
      · exact h
      · exact hmem
  · simp

@[simp] theorem row?_insertLink (t : Roles) (a b : Axis) (v : Wire) :
    (t.insertLink a b).row? v = t.row? v := by
  unfold insertLink
  split_ifs <;> rfl

end Roles

/-! ### Tables that describe what is known -/

/-- Something is known about a value. -/
def Facts.Knows (facts : Facts) (v : Wire) : Prop := ∃ op, facts.find? v = some op

/-- A row with the shape of a value, one role per axis and no slot twice. -/
structure RoleRow.Describes (r : RoleRow) (op : Operand) : Prop where
  shape : r.shape = op.shape
  constant : r.constant = op.constant.isSome
  length : r.roles.length = op.shape.rank
  nodup : (usedSlots r.roles).Nodup

/-- A table with a row for each value that is known, and for no other. -/
def Roles.Describes (t : Roles) (facts : Facts) : Prop :=
  ∀ v, Option.Rel RoleRow.Describes (t.row? v) (facts.find? v)

namespace Roles

/-- The row of a value that is known. -/
theorem Describes.row?_eq {op : Operand} (h : t.Describes facts) (hv : facts.find? v = some op) :
    ∃ r, t.row? v = some r ∧ r.Describes op := by
  have hrow := h v
  rw [hv] at hrow
  cases hr : t.row? v with
  | none => rw [hr] at hrow; cases hrow
  | some r =>
    rw [hr] at hrow
    cases hrow with
    | some hrow => exact ⟨r, rfl, hrow⟩

theorem Describes.row_yields {op : Operand} (h : t.Describes facts) (hv : facts.find? v = some op) :
    Yields P (t.row v) fun r => t.row? v = some r ∧ r.Describes op := by
  obtain ⟨r, hr, hdescribes⟩ := h.row?_eq hv
  unfold row
  rw [hr]
  exact .ok ⟨rfl, hdescribes⟩

theorem Describes.shape_yields {op : Operand} (h : t.Describes facts)
    (hv : facts.find? v = some op) : Yields P (t.shape v) fun s => s = op.shape :=
  (h.row_yields hv).map fun _ hr => hr.2.shape

/-- Only values that are known take part in a table. -/
theorem Describes.knows (h : t.Describes facts) (hv : t.isConstant v = false) : facts.Knows v := by
  obtain ⟨r, hr, -⟩ := isConstant_eq_false.1 hv
  have hrow := h v
  rw [hr] at hrow
  cases hop : facts.find? v with
  | none => rw [hop] at hrow; cases hrow
  | some op => exact ⟨op, hop⟩

/-- Roles may change as long as there is one per axis and no slot twice. -/
theorem Describes.setRoles {op : Operand} {roles : List (Option Slot)} (h : t.Describes facts)
    (hv : facts.find? v = some op) (hlength : roles.length = op.shape.rank)
    (hnodup : (usedSlots roles).Nodup) : (t.setRoles v roles).Describes facts := by
  obtain ⟨r, hr, hdescribes⟩ := h.row?_eq hv
  intro w
  rw [row?_setRoles hr]
  split
  · rename_i hw
    rw [hw, hv]
    exact .some ⟨hdescribes.shape, hdescribes.constant, hlength, hnodup⟩
  · exact h w

theorem Describes.insertLink (h : t.Describes facts) (a b : Axis) :
    (t.insertLink a b).Describes facts := by
  unfold Roles.insertLink
  split
  · exact h
  · exact h

end Roles

/-! ### Changes that keep a table in order -/

namespace RoleM

/-- Started on a table that describes what is known, a computation ends on one; its value satisfies
`Q` and its fault is one of the site. -/
def Keeps (facts : Facts) (site : Site) (x : RoleM α) (Q : α → Prop) : Prop :=
  ∀ t : Roles, t.Describes facts →
    Runs (fun f _ => f.Own site) t x fun a t' => t'.Describes facts ∧ Q a

namespace Keeps

variable {Q : α → Prop} {R : β → Prop} {x : RoleM α}

theorem pure {a : α} (h : Q a) : Keeps facts site (Pure.pure a) Q :=
  fun _ ht => Runs.pure ⟨ht, h⟩

theorem bind {f : α → RoleM β} (hx : Keeps facts site x Q)
    (hf : ∀ a, Q a → Keeps facts site (f a) R) : Keeps facts site (x >>= f) R :=
  fun t ht => (hx t ht).bind fun a t' ha => hf a ha.2 t' ha.1

theorem lift {y : Except Fault α} (h : Yields (Fault.Own site) y Q) :
    Keeps facts site (liftM y) Q :=
  fun _ ht => Runs.lift (h.imp fun _ ha => ⟨ht, ha⟩)

/-- A result first, then a computation. -/
theorem lift_bind {y : Except Fault α} {f : α → RoleM β} (h : Yields (Fault.Own site) y Q)
    (hf : ∀ a, Q a → Keeps facts site (f a) R) : Keeps facts site (liftM y >>= f) R :=
  (lift h).bind hf

theorem fail {cause : Cause} (h : cause.isNetwork = false) :
    Keeps facts site (liftM (site.fail cause : Except Fault α)) Q := lift (.own h)

/-- A look at the table. -/
theorem read {f : Roles → RoleM β}
    (hf : ∀ t : Roles, t.Describes facts → Keeps facts site (f t) R) :
    Keeps facts site (MonadState.get >>= f) R :=
  fun t ht => Runs.get_bind (hf t ht t ht)

theorem write {t : Roles} (ht : t.Describes facts) :
    Keeps facts site (MonadStateOf.set t) fun _ => True := fun _ _ => Runs.set ⟨ht, trivial⟩

theorem discard (h : Keeps facts site x Q) :
    Keeps facts site (Functor.discard x) fun _ => True :=
  fun t ht => (h t ht).map fun _ _ ha => ⟨ha.1, trivial⟩

theorem forM {f : α → RoleM PUnit} {l : List α}
    (h : ∀ a ∈ l, Keeps facts site (f a) fun _ => True) :
    Keeps facts site (l.forM f) fun _ => True := by
  intro t ht
  have hrun := Runs.forM (P := fun f _ => f.Own site) (I := fun t => Roles.Describes t facts)
    (fun a ha t ht => (h a ha t ht).imp fun _ _ h => h.1) ht
  exact hrun.imp fun _ _ h => ⟨h, trivial⟩

end Keeps

/-! ### Pins and links -/

/-- A pin gives a slot that no other axis of the value has. -/
theorem pin_keeps (hv : facts.Knows v) (axis : Nat) (slot : Slot) :
    Keeps facts site (pin site v axis slot) fun _ => True := by
  obtain ⟨op, hop⟩ := hv
  refine .read fun t ht => ?_
  refine .lift_bind (ht.row_yields hop) fun r ⟨_, hr⟩ => ?_
  split
  · exact .pure trivial
  · split
    · exact .fail rfl
    · split
      · exact .pure trivial
      · exact .fail rfl
    · split
      · exact .fail rfl
      -- the axis is free and no other has the slot
      · rename_i hnew
        have hset : (t.setRoles v (r.roles.set axis (some slot))).Describes facts :=
          ht.setRoles hop (by rw [List.length_set, hr.length])
            (nodup_usedSlots_set hr.nodup (List.idxOf?_eq_none_iff.1 hnew) axis)
        exact (Keeps.write hset).bind fun _ _ => .pure trivial

theorem passRole_keeps (source : Axis) {target : Axis} (htarget : facts.Knows target.value) :
    Keeps facts site (passRole site source target) fun _ => True := by
  refine .read fun t ht => ?_
  split
  · exact (pin_keeps htarget _ _).discard
  · exact .pure trivial

/-- A value that takes no part in the table is left alone, whatever the axes are. -/
theorem linkAxes_keeps (a b : Axis) : Keeps facts site (linkAxes site a b) fun _ => True := by
  refine .read fun t ht => ?_
  split
  · exact .pure trivial
  · rename_i hconstant
    rw [Bool.not_eq_true, Bool.or_eq_false_iff] at hconstant
    refine (Keeps.write ((ht.insertLink a b).insertLink b a)).bind fun _ _ => ?_
    refine (passRole_keeps a (ht.knows hconstant.2)).bind fun _ _ => ?_
    exact passRole_keeps b (ht.knows hconstant.1)

/-- **A committed layout has one slot per axis.** -/
theorem commit_keeps {op : Operand} (hv : facts.find? v = some op) :
    Keeps facts site (commit site v) fun l => op.constant = none → l.rank = op.shape.rank := by
  refine .read fun t ht => .lift_bind (ht.row_yields hv) fun r ⟨_, hr⟩ => ?_
  split
  · rename_i hconstant
    refine .pure fun hnone => ?_
    rw [hr.constant, hnone] at hconstant
    cases hconstant
  · split
    · exact .fail rfl
    · dsimp only
      split
      · exact .fail rfl
      · rename_i slots hslots
        obtain ⟨hnodup, hlength⟩ := completeSlots_claimSlots_spec hr.nodup (by simp) hslots
        have hrank : slots.length = op.shape.rank := hlength.trans hr.length
        have hset : (t.setRoles v (slots.map some)).Describes facts :=
          ht.setRoles hv (by rw [List.length_map, hrank]) (by rwa [usedSlots_map_some])
        refine (Keeps.write hset).bind fun _ _ => ?_
        refine .lift ((Layout.ofSlots_rank_yields hnodup).imp fun l hl _ => ?_)
        rw [hl, hrank]

end RoleM

/-! ### Wishes of the operators -/

/-- Wires whose values are known. -/
structure Wiring.Known (facts : Facts) (w : Wiring) : Prop where
  inputs : ∀ v, some v ∈ w.inputs → facts.Knows v
  output : ∃ v, w.outputs[0]? = some v ∧ facts.Knows v

/-- The slots of a softmax are distinct, one per axis. -/
theorem softmaxSlots_yields (h : Header) (axis : Int64) (rank : Nat) :
    Yields (Fault.Own h.site) (softmaxSlots h axis rank) fun slots =>
      slots.Nodup ∧ slots.length = rank := by
  unfold softmaxSlots
  refine (softmaxAxis_yields h axis rank).bind fun a _ => ?_
  refine (Yields.ensure_own rfl).bind fun _ hfew => .pure ?_
  rw [Bool.and_eq_true, decide_eq_true_eq, decide_eq_true_eq] at hfew
  obtain ⟨hbatch, htrailing⟩ := hfew
  have hle : min a rank ≤ rank := min_le_right _ _
  generalize min a rank = batch at hbatch htrailing hle ⊢
  obtain ⟨trailing, rfl⟩ := Nat.exists_eq_add_of_le hle
  rw [Nat.add_sub_cancel_left] at htrailing ⊢
  -- there are few slots on either side of the axis, so only few cases are left
  interval_cases batch <;> interval_cases trailing <;> decide

end Lamina
