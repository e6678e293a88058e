import Mathlib
import Lamina.Proofs.Permanence
import Lamina.Proofs.Search

/-!
# Committing a value

A commit looks for the slots that the free axes of a value want: those of the axes that each is
linked with, directly or through others (`Roles.mem_slotsReached`). All wishes are collected before
the first slot is given. Then the axes claim from the left, and what is still free is filled up.

Everything that a commit does is in one equation (`RoleM.commit_run`). A value that is committed
wants nothing any more, so that a second commit finds everything in place (`RoleM.commit_again`).

**Theorem** (`Roles.after_commit`): in every table that can come about, a commit fails if and only
if the value is unknown or has more axes than there are slots, and changes nothing then. Otherwise
the value gets a layout that keeps its roles, and nothing else changes. An axis that was free gets a
slot of an axis that it is linked with, unless other axes of the value have all of these.
-/

namespace Lamina

open Relation

variable {t t' : Roles} {v : Wire} {r : RoleRow}

/-! ### Links and the slots behind them -/

namespace Roles

/-- Two axes are linked. -/
def Linked (t : Roles) (a b : Axis) : Prop := (a, b) ∈ t.links

theorem linked_congr (h : t'.links = t.links) : t'.Linked = t.Linked := by
  funext a b
  rw [Linked, Linked, h]

theorem mem_peers {a b : Axis} : b ∈ t.peers a ↔ t.Linked a b := by
  unfold peers Linked
  rw [(List.mergeSort_perm _ _).mem_iff, List.mem_map]
  constructor
  · rintro ⟨⟨a', b'⟩, hmem, rfl⟩
    rw [List.mem_filter, decide_eq_true_eq] at hmem
    obtain ⟨hmem, rfl⟩ := hmem
    exact hmem
  · intro hmem
    exact ⟨(a, b), by simpa using hmem, rfl⟩

/-- The search through the links takes every link that does not lead back to its start. -/
theorem edgeInto_peers {start a b : Axis} :
    Search.EdgeInto t.peers (Search.without (t.links.map Prod.snd) [start]) a b ↔
      t.Linked a b ∧ b ≠ start := by
  unfold Search.EdgeInto
  rw [mem_peers, Search.mem_without, List.mem_singleton]
  constructor
  · rintro ⟨hlink, -, hne⟩
    exact ⟨hlink, hne⟩
  · rintro ⟨hlink, hne⟩
    exact ⟨hlink, List.mem_map.2 ⟨(a, b), hlink, rfl⟩, hne⟩

/-- **The axes that a search through the links finds** are those that a chain of links leads to. -/
theorem mem_linkedAxes {a b : Axis} :
    b ∈ t.linkedAxes a ↔ b ≠ a ∧ TransGen t.Linked a b := by
  have hedge : Search.EdgeInto t.peers (Search.without (t.links.map Prod.snd) [a]) =
      fun c d => t.Linked c d ∧ d ≠ a := by
    funext c d
    exact propext edgeInto_peers
  rw [linkedAxes, Search.mem_explore, hedge]
  constructor
  · rintro ⟨s, hs, hway⟩
    obtain rfl := List.mem_singleton.1 hs
    have hlast : b ≠ s := by
      rcases TransGen.tail'_iff.1 hway with ⟨c, -, -, hne⟩
      exact hne
    exact ⟨hlast, TransGen.mono (fun _ _ h => h.1) _ _ hway⟩
  · rintro ⟨hne, hway⟩
    -- a chain that comes back to its start can be cut off there
    have hcut : b = a ∨ TransGen (fun c d => t.Linked c d ∧ d ≠ a) a b := by
      clear hne
      induction hway with
      | @single c hlink =>
        by_cases hc : c = a
        · exact .inl hc
        · exact .inr (.single ⟨hlink, hc⟩)
      | @tail c d _ hlink ih =>
        by_cases hd : d = a
        · exact .inl hd
        · rcases ih with rfl | hway
          · exact .inr (.single ⟨hlink, hd⟩)
          · exact .inr (hway.tail ⟨hlink, hd⟩)
    exact ⟨a, List.mem_singleton_self a, hcut.resolve_left hne⟩

theorem mem_slotsReached {a : Axis} {d : Slot} :
    d ∈ t.slotsReached a ↔
      ∃ b, b ≠ a ∧ TransGen t.Linked a b ∧ t.role? b.value b.axis = some d := by
  unfold slotsReached
  rw [List.mem_filterMap]
  constructor
  · rintro ⟨b, hb, hd⟩
    obtain ⟨hne, hway⟩ := mem_linkedAxes.1 hb
    exact ⟨b, hne, hway, hd⟩
  · rintro ⟨b, hne, hway, hd⟩
    exact ⟨b, mem_linkedAxes.2 ⟨hne, hway⟩, hd⟩

/-- The slots that the axes of a value want: those behind their links, if they are free. -/
def wanted (t : Roles) (v : Wire) (roles : List (Option Slot)) : List (List Slot) :=
  roles.zipIdx.map fun e => if e.1.isSome then [] else t.slotsReached ⟨v, e.2⟩

@[simp] theorem length_wanted (t : Roles) (v : Wire) (roles : List (Option Slot)) :
    (t.wanted v roles).length = roles.length := by
  simp [wanted]

theorem getElem?_wanted {roles : List (Option Slot)} {axis : Nat}
    (h : roles[axis]? = some none) :
    (t.wanted v roles)[axis]? = some (t.slotsReached ⟨v, axis⟩) := by
  simp [wanted, h]

theorem setRoles_self (h : t.row? v = some r) : t.setRoles v r.roles = t := by
  obtain ⟨rows, links⟩ := t
  obtain ⟨outputs, houtputs, hr⟩ := Option.bind_eq_some_iff.1 h
  unfold setRoles
  congr 1
  apply List.ext_getElem?
  intro node
  rw [List.getElem?_modify]
  split_ifs with hnode
  · subst hnode
    have houtputs' : rows[v.node]? = some outputs := houtputs
    rw [houtputs']
    apply congrArg some
    apply List.ext_getElem?
    intro output
    rw [List.getElem?_modify]
    split_ifs with houtput
    · subst houtput
      rw [hr]
      rfl
    · simp
  · simp

end Roles

/-! ### What a commit does -/

namespace RoleM

open Roles

theorem commit_unknown (h : t.row? v = none) (site : Site) :
    (commit site v).run.run t = (.error ⟨⟨"RoleTable", ""⟩, .role (.noRow v)⟩, t) := by
  have hrow : t.row v = .error ⟨⟨"RoleTable", ""⟩, .role (.noRow v)⟩ := by
    rw [row, h]
    rfl
  unfold commit
  rw [run_get_bind]
  apply run_bind_error
  rw [hrow]
  rfl

theorem run_row (h : t.row? v = some r) :
    (liftM (t.row v) : RoleM RoleRow).run.run t = (.ok r, t) := by
  have hrow : t.row v = .ok r := by rw [row, h]
  rw [hrow]
  rfl

theorem commit_constant (h : t.row? v = some r) (hconstant : r.constant = true) (site : Site) :
    (commit site v).run.run t = (.ok .uncommitted, t) := by
  unfold commit
  rw [run_get_bind, run_bind_ok (run_row h), if_pos hconstant]
  rfl

theorem commit_too_long (h : t.row? v = some r) (hlive : r.constant = false)
    (hrank : Slot.total < r.roles.length) (site : Site) :
    (commit site v).run.run t = (.error ⟨site, .role (.tooManyAxes r.roles.length)⟩, t) := by
  unfold commit
  rw [run_get_bind, run_bind_ok (run_row h), hlive, if_neg Bool.false_ne_true, if_pos hrank]
  rfl

/-- **What a commit does** to a value that is not constant and has slots enough. -/
theorem commit_run (h : t.row? v = some r) (hlive : r.constant = false)
    (hrank : r.roles.length ≤ Slot.total) (hnodup : (usedSlots r.roles).Nodup) :
    ∃ l : Layout,
      completeSlots [] (claimSlots r.roles (t.wanted v r.roles)) = some l.slots ∧
        ∀ site, (commit site v).run.run t = (.ok l, t.setRoles v (l.slots.map some)) := by
  have hlength : r.roles.length = (t.wanted v r.roles).length := by simp
  obtain ⟨-, hclaimed⟩ := claimSlots_spec hnodup hlength
  have hsome : (completeSlots [] (claimSlots r.roles (t.wanted v r.roles))).isSome :=
    isSome_completeSlots (hclaimed.trans_le hrank)
  obtain ⟨slots, hslots⟩ := Option.isSome_iff_exists.1 hsome
  obtain ⟨hdistinct, -⟩ := completeSlots_claimSlots_spec hnodup hlength hslots
  refine ⟨⟨slots, hdistinct⟩, hslots, ?_⟩
  intro site
  unfold commit
  rw [run_get_bind, run_bind_ok (run_row h), hlive, if_neg Bool.false_ne_true,
    if_neg (not_lt.2 hrank)]
  dsimp only
  unfold wanted at hslots
  simp only [hslots, Layout.ofSlots_eq_ok hdistinct]
  rfl

/-- A value whose axes all have slots has its layout already. -/
theorem commit_again {l : Layout} (h : t.row? v = some r) (hlive : r.constant = false)
    (hroles : r.roles = l.slots.map some) (site : Site) :
    (commit site v).run.run t = (.ok l, t) := by
  have hrank : r.roles.length ≤ Slot.total := by
    rw [hroles, List.length_map]
    exact l.rank_le_total
  have hnodup : (usedSlots r.roles).Nodup := by
    rw [hroles, usedSlots_map_some]
    exact l.nodup
  obtain ⟨l', hslots, hrun⟩ := commit_run h hlive hrank hnodup
  have hclaimed : claimSlots r.roles (t.wanted v r.roles) = l.slots.map some := by
    have hlength : l.slots.length = (t.wanted v r.roles).length := by simp [hroles]
    rw [← claimSlots_map_some hlength, hroles]
  rw [hclaimed, completeSlots_map_some] at hslots
  obtain rfl : l = l' := Layout.ext_slots (Option.some.inj hslots)
  rw [hrun site, ← hroles, setRoles_self h]

end RoleM

/-! ### Commits in every table -/

namespace Roles

/-- What a commit has done to a table: the value has a layout, and nothing else has changed. -/
structure Committed (t : Roles) (v : Wire) (r : RoleRow) (l : Layout) (t' : Roles) : Prop where
  /-- The layout has one slot per axis. -/
  rank : l.rank = r.shape.rank
  /-- Roles are kept. -/
  keeps : ∀ (axis : Nat) (d : Slot), r.roles[axis]? = some (some d) → l.slots[axis]? = some d
  /-- The roles are those of the layout now. -/
  row : t'.row? v = some { r with roles := l.slots.map some }
  /-- The other values are untouched. -/
  others : ∀ w, w ≠ v → t'.row? w = t.row? w
  /-- So are the links. -/
  links : t'.links = t.links
  /-- A second commit changes nothing. -/
  again : ∀ site, (RoleM.commit site v).run.run t' = (.ok l, t')
  /-- A free axis gets a slot that it is linked with, unless other axes have all of these. -/
  follows : ∀ axis : Nat, r.roles[axis]? = some none →
    (∃ b d, TransGen t.Linked ⟨v, axis⟩ b ∧ t.role? b.value b.axis = some d ∧
      l.slots[axis]? = some d) ∨
    ∀ b d, TransGen t.Linked ⟨v, axis⟩ b → t.role? b.value b.axis = some d →
      ∃ other ≠ axis, l.slots[other]? = some d

/-- Where the slots of a committed value come from. -/
theorem committed_of_slots {l : Layout} (h : t.row? v = some r) (hlive : r.constant = false)
    (hsound : r.Sound)
    (hslots : completeSlots [] (claimSlots r.roles (t.wanted v r.roles)) = some l.slots) :
    t.Committed v r l (t.setRoles v (l.slots.map some)) := by
  have hlength : r.roles.length = (t.wanted v r.roles).length := by simp
  obtain ⟨-, hrank⟩ := completeSlots_claimSlots_spec hsound.nodup hlength hslots
  have hrow : (t.setRoles v (l.slots.map some)).row? v =
      some { r with roles := l.slots.map some } := by
    rw [row?_setRoles h, if_pos rfl]
  constructor
  case rank => exact hrank.trans hsound.length
  case keeps =>
    intro axis d hd
    exact completeSlots_keeps hslots (claimSlots_keeps hlength hd)
  case row => exact hrow
  case others =>
    intro w hw
    rw [row?_setRoles h, if_neg hw]
  case links => rfl
  case again => exact RoleM.commit_again hrow hlive rfl
  case follows =>
    intro axis hfree
    rcases claimSlots_free hfree (getElem?_wanted (t := t) (v := v) hfree) with
      ⟨d, hd, hclaimed⟩ | hgone
    · obtain ⟨b, -, hway, hrole⟩ := mem_slotsReached.1 hd
      exact .inl ⟨b, d, hway, hrole, completeSlots_keeps hslots hclaimed⟩
    · right
      intro b d hway hrole
      have hne : b ≠ ⟨v, axis⟩ := by
        rintro rfl
        obtain ⟨r', hr', hrole⟩ := role?_eq_some.1 hrole
        obtain rfl := Option.some.inj (h.symm.trans hr')
        rw [hfree] at hrole
        cases hrole
      obtain ⟨other, hother, hclaimed⟩ := hgone d (mem_slotsReached.2 ⟨b, hne, hway, hrole⟩)
      exact ⟨other, hother, completeSlots_keeps hslots hclaimed⟩

theorem exists_committed (ht : t.Sound) (h : t.row? v = some r) (hlive : r.constant = false)
    (hrank : r.shape.rank ≤ Slot.total) (site : Site) :
    ∃ l t', (RoleM.commit site v).run.run t = (.ok l, t') ∧ t.Committed v r l t' := by
  have hrow := ht.rows v r h
  rw [← hrow.length] at hrank
  obtain ⟨l, hslots, hrun⟩ := RoleM.commit_run h hlive hrank hrow.nodup
  exact ⟨l, _, hrun site, committed_of_slots h hlive hrow hslots⟩

/-- All that can happen in a commit. -/
theorem commit_cases (ht : t.Sound) (site : Site) (v : Wire) :
    (t.row? v = none ∧
      (RoleM.commit site v).run.run t = (.error ⟨⟨"RoleTable", ""⟩, .role (.noRow v)⟩, t)) ∨
    ∃ r, t.row? v = some r ∧
      ((r.constant = true ∧ (RoleM.commit site v).run.run t = (.ok .uncommitted, t)) ∨
        (r.constant = false ∧ Slot.total < r.shape.rank ∧
          (RoleM.commit site v).run.run t =
            (.error ⟨site, .role (.tooManyAxes r.shape.rank)⟩, t)) ∨
        (r.constant = false ∧ r.shape.rank ≤ Slot.total ∧
          ∃ l t', (RoleM.commit site v).run.run t = (.ok l, t') ∧ t.Committed v r l t')) := by
  rcases hr : t.row? v with _ | r
  · exact .inl ⟨rfl, RoleM.commit_unknown hr site⟩
  · right
    refine ⟨r, rfl, ?_⟩
    rcases hconstant : r.constant with _ | _
    · right
      by_cases hrank : Slot.total < r.shape.rank
      · left
        have hlength := (ht.rows v r hr).length
        have hrun := RoleM.commit_too_long hr hconstant (hlength ▸ hrank) site
        rw [hlength] at hrun
        exact ⟨rfl, hrank, hrun⟩
      · right
        exact ⟨rfl, not_lt.1 hrank, exists_committed ht hr hconstant (not_lt.1 hrank) site⟩
    · exact .inl ⟨rfl, RoleM.commit_constant hr hconstant site⟩

theorem not_fails {x : RoleM Layout} {l : Layout} (h : x.run.run t = (.ok l, t')) :
    ¬ ∃ f t'', x.run.run t = (.error f, t'') := by
  rintro ⟨f, t'', hfault⟩
  have hsame := congrArg Prod.fst (h.symm.trans hfault)
  cases hsame

/-- **What a commit does, in every table that can come about.** It fails if and only if the value
has no row, which is a fault of the compiler, or is not constant and has more axes than there are
slots, which is not supported; the table stays as it was. A constant gets the open layout and
nothing changes either. Every other value gets a layout, as `Committed` says. -/
theorem after_commit (calls : List RoleCall) (site : Site) (v : Wire) :
    ((∃ f t', (RoleM.commit site v).run.run (after calls) = (.error f, t')) ↔
      (after calls).row? v = none ∨
        ∃ r, (after calls).row? v = some r ∧ r.constant = false ∧ Slot.total < r.shape.rank) ∧
    ((after calls).row? v = none →
      ∃ f, (RoleM.commit site v).run.run (after calls) = (.error f, after calls) ∧
        f.kind = .internal) ∧
    ∀ r, (after calls).row? v = some r →
      (r.constant = true →
        (RoleM.commit site v).run.run (after calls) = (.ok .uncommitted, after calls)) ∧
      (r.constant = false → Slot.total < r.shape.rank →
        ∃ f, (RoleM.commit site v).run.run (after calls) = (.error f, after calls) ∧
          f.kind = .unsupported) ∧
      (r.constant = false → r.shape.rank ≤ Slot.total →
        ∃ l t', (RoleM.commit site v).run.run (after calls) = (.ok l, t') ∧
          (after calls).Committed v r l t') := by
  have ht : (after calls).Sound := (foldl_leads calls sound_empty).sound
  generalize after calls = t at ht ⊢
  have htooLong : ∀ r, t.row? v = some r → r.constant = false → Slot.total < r.shape.rank →
      ∃ f, (RoleM.commit site v).run.run t = (.error f, t) ∧ f.kind = .unsupported := by
    intro r hr hlive hrank
    rw [← (ht.rows v r hr).length] at hrank
    exact ⟨_, RoleM.commit_too_long hr hlive hrank site, rfl⟩
  refine ⟨⟨?_, ?_⟩, ?_, ?_⟩
  · intro hfails
    rcases commit_cases ht site v with ⟨hr, -⟩ | ⟨r, hr, ⟨-, hrun⟩ | ⟨hlive, hrank, -⟩ |
      ⟨-, -, l, t', hrun, -⟩⟩
    · exact .inl hr
    · exact absurd hfails (not_fails hrun)
    · exact .inr ⟨r, hr, hlive, hrank⟩
    · exact absurd hfails (not_fails hrun)
  · rintro (hr | ⟨r, hr, hlive, hrank⟩)
    · exact ⟨_, _, RoleM.commit_unknown hr site⟩
    · obtain ⟨f, hrun, -⟩ := htooLong r hr hlive hrank
      exact ⟨f, t, hrun⟩
  · intro hr
    exact ⟨_, RoleM.commit_unknown hr site, rfl⟩
  · intro r hr
    refine ⟨fun hconstant => RoleM.commit_constant hr hconstant site, htooLong r hr, ?_⟩
    intro hlive hrank
    exact exists_committed ht hr hlive hrank site

/-- A matrix whose columns are linked with a vector and pinned after that, and a constant. -/
def linkedColumns : List RoleCall :=
  [.addOutputs [(⟨[5, 7]⟩, false)], .addOutputs [(⟨[7]⟩, false), (⟨[9]⟩, true)],
    .linkAxes ⟨"Squeeze", "column"⟩ ⟨⟨0, 0⟩, 1⟩ ⟨⟨1, 0⟩, 0⟩,
    .pin ⟨"Gemm", "product"⟩ ⟨0, 0⟩ 1 .width]

/-- The vector gets the slot of the columns, the constant none, and there is no third value. -/
theorem after_commit_linkedColumns :
    (∃ l t', (RoleM.commit ⟨"Session", ""⟩ ⟨1, 0⟩).run.run (after linkedColumns) = (.ok l, t') ∧
      l.slots = [.width] ∧
      (after linkedColumns).Committed ⟨1, 0⟩ ⟨⟨[7]⟩, false, [none]⟩ l t') ∧
    (RoleM.commit ⟨"Session", ""⟩ ⟨1, 1⟩).run.run (after linkedColumns) =
      (.ok .uncommitted, after linkedColumns) ∧
    ∃ f, (RoleM.commit ⟨"Session", ""⟩ ⟨1, 2⟩).run.run (after linkedColumns) =
      (.error f, after linkedColumns) ∧ f.kind = .internal := by
  have hvector : (after linkedColumns).row? ⟨1, 0⟩ = some ⟨⟨[7]⟩, false, [none]⟩ := by rfl
  have hconstant : (after linkedColumns).row? ⟨1, 1⟩ = some ⟨⟨[9]⟩, true, [none]⟩ := by rfl
  have hunknown : (after linkedColumns).row? ⟨1, 2⟩ = none := by rfl
  have hslots : ((RoleM.commit ⟨"Session", ""⟩ ⟨1, 0⟩).run.run
      (after linkedColumns)).1.map Layout.slots = .ok [.width] := by cbv
  obtain ⟨-, -, hknown⟩ := after_commit linkedColumns ⟨"Session", ""⟩ ⟨1, 0⟩
  obtain ⟨l, t', hrun, hcommitted⟩ := (hknown _ hvector).2.2 rfl (by decide)
  rw [hrun] at hslots
  refine ⟨⟨l, t', hrun, Except.ok.inj hslots, hcommitted⟩, ?_, ?_⟩
  · exact ((after_commit linkedColumns ⟨"Session", ""⟩ ⟨1, 1⟩).2.2 _ hconstant).1 rfl
  · exact (after_commit linkedColumns ⟨"Session", ""⟩ ⟨1, 2⟩).2.1 hunknown

end Roles

end Lamina
