import Mathlib
import Lamina.Proofs.Wishes

/-!
# Roles are given for good

A role table starts empty and is then asked for one change after another, in any order, by anyone,
and whether or not a change fails half way (`RoleCall`, `Roles.after`).

**Theorem** (`Roles.after_spec`): the table is in order after every sequence of changes
(`Roles.Sound`), and a role that an axis has been given at some point is the role that it has ever
after. A pin that fails changes nothing.

Only three kinds of steps write to a table: outputs are added, the roles of one value are filled in,
a link is entered in both directions. Each leads from a table in order to one that keeps its roles
(`Roles.Leads`). Pins, joins and commits are put together from these (`RoleM.Safe`), and everything
else comes down to pins and joins (`RoleM.Plans.safe`).
-/

namespace Lamina

variable {α β : Type} {t t' t'' : Roles} {v : Wire} {r : RoleRow}

/-! ### Tables in order -/

/-- A row that is in order. -/
structure RoleRow.Sound (r : RoleRow) : Prop where
  /-- There is one place for a role per axis. -/
  length : r.roles.length = r.shape.rank
  /-- No slot is given to two axes. -/
  nodup : (usedSlots r.roles).Nodup
  /-- A constant has no role at all. -/
  constant : r.constant = true → ∀ role ∈ r.roles, role = none

/-- A table that is in order. -/
structure Roles.Sound (t : Roles) : Prop where
  /-- Every row is in order. -/
  rows : ∀ v r, t.row? v = some r → r.Sound
  /-- Links go both ways. -/
  symmetric : ∀ a b, (a, b) ∈ t.links → (b, a) ∈ t.links
  /-- Only values that exist and are not constant are linked. -/
  linked : ∀ a b, (a, b) ∈ t.links → ∃ r, t.row? a.value = some r ∧ r.constant = false

/-- Every role of one table is a role of another. -/
def Roles.Retains (t t' : Roles) : Prop :=
  ∀ v axis slot, t.role? v axis = some slot → t'.role? v axis = some slot

/-- One table leads to another: the second is in order and has the roles of the first. -/
structure Roles.Leads (t t' : Roles) : Prop where
  sound : t'.Sound
  retains : t.Retains t'

namespace Roles

theorem sound_empty : empty.Sound where
  rows v r h := by simp [empty, row?] at h
  symmetric a b h := by simp [empty] at h
  linked a b h := by simp [empty] at h

theorem Retains.trans (h : t.Retains t') (h' : t'.Retains t'') : t.Retains t'' := by
  intro v axis slot hslot
  exact h' v axis slot (h v axis slot hslot)

theorem Sound.leads_self (h : t.Sound) : t.Leads t := ⟨h, fun _ _ _ hslot => hslot⟩

theorem Leads.trans (h : t.Leads t') (h' : t'.Leads t'') : t.Leads t'' :=
  ⟨h'.sound, h.retains.trans h'.retains⟩

/-! ### The three ways to change a table -/

/-- The row of an output that has just been added. -/
def freshRow (output : Shape × Bool) : RoleRow :=
  ⟨output.1, output.2, List.replicate output.1.rank none⟩

theorem row?_addOutputs (t : Roles) (outputs : List (Shape × Bool)) (v : Wire) :
    (t.addOutputs outputs).row? v =
      if v.node = t.rows.length then (outputs[v.output]?).map freshRow else t.row? v := by
  unfold addOutputs row?
  rw [List.getElem?_append]
  by_cases hlt : v.node < t.rows.length
  · rw [if_pos hlt, if_neg hlt.ne]
  · rw [if_neg hlt, List.getElem?_eq_none (not_lt.1 hlt)]
    by_cases heq : v.node = t.rows.length
    · rw [if_pos heq, heq, Nat.sub_self, List.getElem?_cons_zero]
      exact List.getElem?_map
    · have hpos : v.node - t.rows.length ≠ 0 := by omega
      rw [if_neg heq, List.getElem?_singleton, if_neg hpos]

/-- Adding outputs touches no row that is there. -/
theorem row?_addOutputs_of_some (hr : t.row? v = some r) (outputs : List (Shape × Bool)) :
    (t.addOutputs outputs).row? v = some r := by
  rw [row?_addOutputs, if_neg, hr]
  intro heq
  rw [row?, heq, List.getElem?_eq_none (Nat.le_refl _)] at hr
  cases hr

theorem sound_freshRow (output : Shape × Bool) : (freshRow output).Sound where
  length := List.length_replicate
  nodup := by simp [freshRow]
  constant _ role hrole := List.eq_of_mem_replicate hrole

theorem Sound.addOutputs (h : t.Sound) (outputs : List (Shape × Bool)) :
    t.Leads (t.addOutputs outputs) := by
  refine ⟨⟨?_, h.symmetric, ?_⟩, ?_⟩
  · intro v r hr
    rw [row?_addOutputs] at hr
    split_ifs at hr with hnode
    · obtain ⟨output, -, rfl⟩ := Option.map_eq_some_iff.1 hr
      exact sound_freshRow output
    · exact h.rows v r hr
  · intro a b hab
    obtain ⟨r, hr, hconstant⟩ := h.linked a b hab
    exact ⟨r, row?_addOutputs_of_some hr outputs, hconstant⟩
  · intro v axis slot hslot
    obtain ⟨r, hr, hrole⟩ := role?_eq_some.1 hslot
    exact role?_eq_some.2 ⟨r, row?_addOutputs_of_some hr outputs, hrole⟩

/-- The free axes of a value that is not constant can be given slots that no other axis of it
has. -/
theorem Sound.setRoles {roles : List (Option Slot)} (h : t.Sound) (hr : t.row? v = some r)
    (hconstant : r.constant = false) (hlength : roles.length = r.roles.length)
    (hnodup : (usedSlots roles).Nodup)
    (hkept : ∀ (axis : Nat) (slot : Slot),
      r.roles[axis]? = some (some slot) → roles[axis]? = some (some slot)) :
    t.Leads (t.setRoles v roles) := by
  refine ⟨⟨?_, h.symmetric, ?_⟩, ?_⟩
  · intro w r' hr'
    rw [row?_setRoles hr] at hr'
    split_ifs at hr' with hw
    · obtain rfl := Option.some.inj hr'
      refine ⟨hlength.trans (h.rows v r hr).length, hnodup, ?_⟩
      intro htrue
      rw [hconstant] at htrue
      cases htrue
    · exact h.rows w r' hr'
  · intro a b hab
    obtain ⟨r', hr', hconstant'⟩ := h.linked a b hab
    by_cases hw : a.value = v
    · exact ⟨{ r with roles }, by rw [row?_setRoles hr, if_pos hw], hconstant⟩
    · exact ⟨r', by rw [row?_setRoles hr, if_neg hw, hr'], hconstant'⟩
  · intro w axis slot hslot
    obtain ⟨r', hr', hrole⟩ := role?_eq_some.1 hslot
    by_cases hw : w = v
    · subst hw
      obtain rfl := Option.some.inj (hr.symm.trans hr')
      exact role?_eq_some.2 ⟨{ r with roles }, by rw [row?_setRoles hr, if_pos rfl],
        hkept axis slot hrole⟩
    · exact role?_eq_some.2 ⟨r', by rw [row?_setRoles hr, if_neg hw, hr'], hrole⟩

/-- Values that take part in the table can be linked. -/
theorem Sound.insertLinks {a b : Axis} (h : t.Sound) (ha : t.isConstant a.value = false)
    (hb : t.isConstant b.value = false) : t.Leads ((t.insertLink a b).insertLink b a) := by
  have hrow : ∀ v, ((t.insertLink a b).insertLink b a).row? v = t.row? v := by simp
  have hlinks : ∀ link, link ∈ ((t.insertLink a b).insertLink b a).links ↔
      link ∈ t.links ∨ link = (a, b) ∨ link = (b, a) := by
    intro link
    rw [mem_insertLink, mem_insertLink, or_assoc]
  refine ⟨⟨?_, ?_, ?_⟩, ?_⟩
  · intro v r hr
    rw [hrow] at hr
    exact h.rows v r hr
  · intro x y hxy
    rw [hlinks] at hxy ⊢
    rcases hxy with hxy | hxy | hxy
    · exact .inl (h.symmetric x y hxy)
    · cases hxy
      exact .inr (.inr rfl)
    · cases hxy
      exact .inr (.inl rfl)
  · intro x y hxy
    rw [hrow]
    rcases (hlinks _).1 hxy with hxy | hxy | hxy
    · exact h.linked x y hxy
    · cases hxy
      exact isConstant_eq_false.1 ha
    · cases hxy
      exact isConstant_eq_false.1 hb
  · intro v axis slot hslot
    obtain ⟨r, hr, hrole⟩ := role?_eq_some.1 hslot
    exact role?_eq_some.2 ⟨r, (hrow v).trans hr, hrole⟩

end Roles

/-! ### Computations that only ever add to a table -/

namespace RoleM

/-- Started on a table in order, a computation leaves one behind that has the same roles and perhaps
more, whether or not it fails. -/
def Safe (x : RoleM α) : Prop :=
  ∀ t : Roles, t.Sound → Runs (fun _ t' => t.Leads t') t x fun _ t' => t.Leads t'

namespace Safe

variable {x : RoleM α}

theorem pure (a : α) : Safe (Pure.pure a) := fun _ ht => Runs.pure ht.leads_self

theorem lift (y : Except Fault α) : Safe (liftM y) := by
  intro t ht
  apply Runs.lift
  cases y with
  | ok a => exact ht.leads_self
  | error f => exact ht.leads_self

theorem bind {f : α → RoleM β} (hx : Safe x) (hf : ∀ a, Safe (f a)) : Safe (x >>= f) := by
  intro t ht
  refine (hx t ht).bind ?_
  intro a t' hleads
  -- what the second part keeps of the table in between, it keeps of the first table
  exact (hf a t' hleads.sound).mono (fun _ _ h => hleads.trans h) fun _ _ h => hleads.trans h

/-- A look at the table. -/
theorem read {f : Roles → RoleM β} (hf : ∀ t, Safe (f t)) : Safe (MonadState.get >>= f) :=
  fun t ht => Runs.get_bind (hf t t ht)

theorem discard (hx : Safe x) : Safe (Functor.discard x) := fun t ht => (hx t ht).map fun _ _ h => h

theorem forM {f : α → RoleM PUnit} (hf : ∀ a, Safe (f a)) (l : List α) : Safe (l.forM f) := by
  induction l with
  | nil => exact pure _
  | cons a l ih => exact (hf a).bind fun _ => ih

end Safe

variable (site : Site)

/-- What a computation leaves behind if all that it may leave behind is in order. -/
theorem leads_of_safe {x : RoleM α} (hx : Safe x) (ht : t.Sound) : t.Leads (x.run.run t).2 := by
  have hruns := hx t ht
  unfold Runs at hruns
  split at hruns
  · rename_i hrun
    rw [hrun]
    exact hruns
  · rename_i hrun
    rw [hrun]
    exact hruns

theorem pin_safe (v : Wire) (axis : Nat) (slot : Slot) : Safe (pin site v axis slot) := by
  intro t ht
  refine Runs.get_bind (Runs.lift_bind ((t.row_yields v).mono (fun _ _ => ht.leads_self)
    fun _ h => h) ?_)
  intro r hr
  split
  · exact Runs.pure ht.leads_self
  · rename_i hconstant
    split
    · exact Runs.lift ht.leads_self
    · split
      · exact Runs.pure ht.leads_self
      · exact Runs.lift ht.leads_self
    · rename_i hfree
      split
      · exact Runs.lift ht.leads_self
      · rename_i hnew
        refine Runs.bind (Q := fun _ t' => t.Leads t') (Runs.set ?_) fun _ _ h => Runs.pure h
        have hslot : some slot ∉ r.roles := List.idxOf?_eq_none_iff.1 hnew
        refine ht.setRoles hr (by simpa using hconstant) List.length_set
          (nodup_usedSlots_set (ht.rows v r hr).nodup hslot axis) ?_
        intro other d hother
        have hne : axis ≠ other := by
          rintro rfl
          rw [hfree] at hother
          cases hother
        rwa [List.getElem?_set_ne hne]

theorem passRole_safe (source target : Axis) : Safe (passRole site source target) := by
  refine .read fun t => ?_
  split
  · exact (pin_safe site _ _ _).discard
  · exact .pure _

theorem linkAxes_safe (a b : Axis) : Safe (linkAxes site a b) := by
  intro t ht
  refine Runs.get_bind ?_
  split
  · exact Runs.pure ht.leads_self
  · rename_i hconstant
    rw [Bool.not_eq_true, Bool.or_eq_false_iff] at hconstant
    refine Runs.bind (Q := fun _ t' => t.Leads t')
      (Runs.set (ht.insertLinks hconstant.1 hconstant.2)) ?_
    intro _ t' hleads
    have hpass : Safe (do passRole site a b; passRole site b a) :=
      (passRole_safe site a b).bind fun _ => passRole_safe site b a
    exact (hpass t' hleads.sound).mono (fun _ _ h => hleads.trans h) fun _ _ h => hleads.trans h

/-- Committing fills in the axes that are free. -/
theorem commit_safe (v : Wire) : Safe (commit site v) := by
  intro t ht
  refine Runs.get_bind (Runs.lift_bind ((t.row_yields v).mono (fun _ _ => ht.leads_self)
    fun _ h => h) ?_)
  intro r hr
  split
  · exact Runs.pure ht.leads_self
  · rename_i hconstant
    split
    · exact Runs.lift ht.leads_self
    · dsimp only
      split
      · exact Runs.lift ht.leads_self
      · rename_i slots hslots
        obtain ⟨hnodup, hlength⟩ :=
          completeSlots_claimSlots_spec (ht.rows v r hr).nodup (by simp) hslots
        refine Runs.bind (Q := fun _ t' => t.Leads t') (Runs.set ?_) ?_
        · refine ht.setRoles hr (by simpa using hconstant) (by simpa using hlength)
            (by rwa [usedSlots_map_some]) ?_
          intro axis slot hslot
          rw [List.getElem?_map,
            completeSlots_keeps hslots (claimSlots_keeps (by simp) hslot)]
          rfl
        · intro _ t' hleads
          apply Runs.lift
          cases Layout.ofSlots slots with
          | ok l => exact hleads
          | error f => exact hleads

theorem grant_safe (r : Request) : Safe (grant site r) := by
  cases r with
  | pin v axis slot => exact (pin_safe site v axis slot).discard
  | join a b => exact linkAxes_safe site a b
  | refuse f => exact .lift _

/-- Whoever asks for a list of requests only ever adds to a table. -/
theorem Plans.safe {w : Wiring} {x : RoleM Unit} {Q : Roles → List Request → Prop}
    (h : ∀ t, Plans site w t x (Q t)) : Safe x := by
  intro t ht
  obtain ⟨l, hl, -⟩ := h t
  exact hl.runs (Safe.forM (grant_safe site) l t ht)

/-- A pin that fails changes nothing; one that succeeds gives the axis its slot, unless the value is
constant. -/
theorem pin_spec (t : Roles) (v : Wire) (axis : Nat) (slot : Slot) :
    Runs (fun _ t' => t' = t) t (pin site v axis slot)
      fun _ t' => t.isConstant v = false → t'.role? v axis = some slot := by
  refine Runs.get_bind (Runs.lift_bind ((t.row_yields v).mono (fun _ _ => rfl) fun _ h => h) ?_)
  intro r hr
  split
  · rename_i hconstant
    refine Runs.pure fun hfalse => ?_
    obtain ⟨r', hr', hconstant'⟩ := Roles.isConstant_eq_false.1 hfalse
    obtain rfl := Option.some.inj (hr.symm.trans hr')
    rw [hconstant] at hconstant'
    cases hconstant'
  · split
    · exact Runs.lift rfl
    · rename_i current hcurrent
      split
      · rename_i heq
        exact Runs.pure fun _ => Roles.role?_eq_some.2 ⟨r, hr, heq ▸ hcurrent⟩
      · exact Runs.lift rfl
    · rename_i hfree
      split
      · exact Runs.lift rfl
      · refine Runs.bind (Q := fun _ t' => t'.role? v axis = some slot) (Runs.set ?_)
          fun _ _ h => Runs.pure fun _ => h
        have haxis : axis < r.roles.length := (List.getElem?_eq_some_iff.1 hfree).1
        exact Roles.role?_eq_some.2 ⟨_, by rw [Roles.row?_setRoles hr, if_pos rfl],
          List.getElem?_set_self haxis⟩

end RoleM

/-! ### Sequences of changes -/

/-- What can be asked of a role table. -/
inductive RoleCall where
  /-- One more node, with the shapes of its outputs and whether they are constant. -/
  | addOutputs (outputs : List (Shape × Bool))
  | pin (site : Site) (v : Wire) (axis : Nat) (slot : Slot)
  | pinAll (site : Site) (v : Wire) (slots : List Slot)
  | linkAxes (site : Site) (a b : Axis)
  | link (site : Site) (a b : Wire)
  | linkMatching (site : Site) (input : Wire) (offset : Nat) (output : Wire)
  | commit (site : Site) (v : Wire)
  /-- The wishes of an operator for its wires. -/
  | propagate (op : Operator) (w : Wiring)

/-- The table that a change leaves behind, whether or not it fails. -/
def RoleCall.apply (t : Roles) : RoleCall → Roles
  | addOutputs outputs => t.addOutputs outputs
  | pin site v axis slot => ((RoleM.pin site v axis slot).run.run t).2
  | pinAll site v slots => ((RoleM.pinAll site v slots).run.run t).2
  | linkAxes site a b => ((RoleM.linkAxes site a b).run.run t).2
  | link site a b => ((RoleM.link site a b).run.run t).2
  | linkMatching site input offset output =>
    ((RoleM.linkMatching site input offset output).run.run t).2
  | commit site v => ((RoleM.commit site v).run.run t).2
  | propagate op w => ((op.propagate w).run.run t).2

theorem RoleCall.apply_leads (call : RoleCall) (ht : t.Sound) : t.Leads (call.apply t) := by
  cases call with
  | addOutputs outputs => exact ht.addOutputs outputs
  | pin site v axis slot => exact RoleM.leads_of_safe (RoleM.pin_safe site v axis slot) ht
  | pinAll site v slots =>
    -- whose wires lead to the value does not matter
    have hsafe : RoleM.Safe (RoleM.pinAll site v slots) :=
      RoleM.Plans.safe site (w := ⟨[some v], []⟩) fun _ =>
        RoleM.pinAll_plans (.inl List.mem_cons_self) slots
    exact RoleM.leads_of_safe hsafe ht
  | linkAxes site a b => exact RoleM.leads_of_safe (RoleM.linkAxes_safe site a b) ht
  | link site a b =>
    have hsafe : RoleM.Safe (RoleM.link site a b) :=
      RoleM.Plans.safe site (w := ⟨[], []⟩) fun _ => RoleM.link_plans a b
    exact RoleM.leads_of_safe hsafe ht
  | linkMatching site input offset output =>
    have hsafe : RoleM.Safe (RoleM.linkMatching site input offset output) :=
      RoleM.Plans.safe site (w := ⟨[], []⟩) fun _ =>
        RoleM.linkMatching_exactly input offset output
    exact RoleM.leads_of_safe hsafe ht
  | commit site v => exact RoleM.leads_of_safe (RoleM.commit_safe site v) ht
  | propagate op w => exact RoleM.leads_of_safe (RoleM.Plans.safe _ (op.propagate_plans w)) ht

namespace Roles

/-- The table after a sequence of changes to the empty one. -/
def after (calls : List RoleCall) : Roles := calls.foldl RoleCall.apply .empty

theorem foldl_leads (calls : List RoleCall) (ht : t.Sound) :
    t.Leads (calls.foldl RoleCall.apply t) := by
  induction calls generalizing t with
  | nil => exact ht.leads_self
  | cons call calls ih =>
    have hstep := call.apply_leads ht
    exact hstep.trans (ih hstep.sound)

/-- **Roles are given for good.** After every sequence of changes, failed ones included, the table
is in order: rows have one role per axis, no slot twice and no role for a constant; links go both
ways, between values that exist and are not constant. Whatever comes later, a role that has been
given stays. A pin that fails leaves the table as it was, and one that succeeds gives the axis its
slot, unless the value is constant. -/
theorem after_spec (calls : List RoleCall) :
    (after calls).Sound ∧
    (∀ later : List RoleCall, (after calls).Retains (after (calls ++ later))) ∧
    ∀ (site : Site) (t t' : Roles) (v : Wire) (axis : Nat) (slot : Slot),
      (∀ f, (RoleM.pin site v axis slot).run.run t = (.error f, t') → t' = t) ∧
      (∀ changed, (RoleM.pin site v axis slot).run.run t = (.ok changed, t') →
        t.isConstant v = false → t'.role? v axis = some slot) := by
  have hsound : (after calls).Sound := (foldl_leads calls sound_empty).sound
  refine ⟨hsound, ?_, ?_⟩
  · intro later
    have hleads := foldl_leads later hsound
    rw [after, after, List.foldl_append]
    exact hleads.retains
  · intro site t t' v axis slot
    have hpin := RoleM.pin_spec site t v axis slot
    exact ⟨fun f hrun => hpin.fault hrun, fun changed hrun => hpin.value hrun⟩

/-- A matrix whose rows are pinned and whose columns are not: a second pin of the rows fails and
leaves the first in force, and so does everything else. -/
theorem after_pinned_rows :
    let calls : List RoleCall :=
      [.addOutputs [(⟨[2, 3]⟩, false)], .pin ⟨"RoleTable", ""⟩ ⟨0, 0⟩ 0 .batchWidth,
        .pin ⟨"RoleTable", ""⟩ ⟨0, 0⟩ 0 .channels]
    (after calls).role? ⟨0, 0⟩ 0 = some .batchWidth ∧
    ∀ later, (after (calls ++ later)).role? ⟨0, 0⟩ 0 = some .batchWidth := by
  intro calls
  have hrole : (after calls).role? ⟨0, 0⟩ 0 = some .batchWidth := by decide
  exact ⟨hrole, fun later => (after_spec calls).2.1 later ⟨0, 0⟩ 0 .batchWidth hrole⟩

end Roles

end Lamina
