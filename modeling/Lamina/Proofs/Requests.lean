import Mathlib
import Lamina.Proofs.Roles

/-!
# Requests to a role table

What operators ask of a role table comes down to three requests: pin an axis to a slot, join two
axes, or refuse (`Request`). A request that is met already is granted without changing the table,
and a request that has been granted is met (`RoleM.grant_met`, `RoleM.grant_spec`). Granting a list
leaves a table as it is if and only if every request of the list is met there
(`RoleM.grantAll_self_iff`).

Whether all requests are met *after* a list has been granted depends on the list. A pin stays met.
A join is met as soon as it is granted, but a later request may give a slot to one of its axes.

* If no later request changes an axis of a join, everything is met after one pass
  (`RoleM.met_of_settling`).
* If every axis is joined with one other axis at most, which takes what it is given and passes it on
  (`Starry`), one pass brings all that is known to these centres (`RoleM.fed_of_starry`), and a
  second one takes it back to the others (`RoleM.met_of_fed`).
-/

namespace Lamina

variable {α β : Type} {s s' t t' : Roles}

/-! ### What a table says of an axis -/

namespace Roles

/-- The slot of an axis. -/
def roleAt (t : Roles) (a : Axis) : Option Slot := t.role? a.value a.axis

/-- What a table says of its values apart from their roles. -/
def frame (t : Roles) (v : Wire) : Option (Shape × Bool) :=
  (t.row? v).map fun r => (r.shape, r.constant)

theorem shape_congr (h : s.frame = t.frame) (v : Wire) : s.shape v = t.shape v := by
  have hv := congrFun h v
  unfold frame at hv
  unfold shape row
  rcases hs : s.row? v with _ | r <;> rcases ht : t.row? v with _ | r'
  · rfl
  · simp [hs, ht] at hv
  · simp [hs, ht] at hv
  · simp only [hs, ht, Option.map_some, Option.some.injEq, Prod.mk.injEq] at hv
    exact congrArg Except.ok hv.1

/-- The frame tells which values are constant. -/
theorem isConstant_eq (t : Roles) (v : Wire) : t.isConstant v = (t.frame v).all Prod.snd := by
  unfold isConstant frame
  rw [Option.all_map]

theorem isConstant_congr (h : s.frame = t.frame) (v : Wire) : s.isConstant v = t.isConstant v := by
  rw [isConstant_eq, isConstant_eq, h]

/-- Two axes of values that take part in the table. -/
def Live (t : Roles) (a b : Axis) : Prop :=
  t.isConstant a.value = false ∧ t.isConstant b.value = false

theorem live_congr (h : s.frame = t.frame) (a b : Axis) : s.Live a b ↔ t.Live a b := by
  unfold Live
  rw [isConstant_congr h, isConstant_congr h]

/-- Linking changes no row. -/
@[simp] theorem roleAt_insertLink (t : Roles) (a b c : Axis) :
    (t.insertLink a b).roleAt c = t.roleAt c := by
  unfold roleAt role?
  rw [row?_insertLink]

@[simp] theorem frame_insertLink (t : Roles) (a b : Axis) :
    (t.insertLink a b).frame = t.frame := by
  funext v
  unfold frame
  rw [row?_insertLink]

theorem insertLink_of_mem {a b : Axis} (h : (a, b) ∈ t.links) : t.insertLink a b = t := by
  unfold insertLink
  rw [if_pos h]

theorem frame_setRoles {v : Wire} {r : RoleRow} (hr : t.row? v = some r)
    (roles : List (Option Slot)) : (t.setRoles v roles).frame = t.frame := by
  funext w
  unfold frame
  rw [row?_setRoles hr]
  by_cases hw : w = v
  · rw [if_pos hw, hw, hr]
    rfl
  · rw [if_neg hw]

/-- A free axis that is given a slot. -/
theorem roleAt_setRoles {v : Wire} {r : RoleRow} {axis : Nat} (hr : t.row? v = some r)
    (hfree : r.roles[axis]? = some none) (slot : Slot) (c : Axis) :
    (t.setRoles v (r.roles.set axis (some slot))).roleAt c =
      if c = ⟨v, axis⟩ then some slot else t.roleAt c := by
  obtain ⟨w, i⟩ := c
  have haxis : axis < r.roles.length := (List.getElem?_eq_some_iff.1 hfree).1
  simp only [roleAt, role?, row?_setRoles hr, Axis.mk.injEq]
  by_cases hw : w = v
  · subst hw
    by_cases hi : i = axis
    · subst hi
      simp [haxis]
    · simp [hi, hr, List.getElem?_set_ne (Ne.symm hi)]
  · simp [hw]

/-- One table follows another: the same values, all of its roles and links. -/
structure Follows (s t : Roles) : Prop where
  /-- The values are the same. -/
  frame : s.frame = t.frame
  /-- Roles are kept. -/
  roles : ∀ a slot, t.roleAt a = some slot → s.roleAt a = some slot
  /-- Links are kept. -/
  links : ∀ link ∈ t.links, link ∈ s.links

theorem Follows.refl (t : Roles) : t.Follows t := ⟨rfl, fun _ _ h => h, fun _ h => h⟩

theorem Follows.trans {u : Roles} (h : s.Follows t) (h' : t.Follows u) : s.Follows u where
  frame := h.frame.trans h'.frame
  roles a slot ha := h.roles a slot (h'.roles a slot ha)
  links link hlink := h.links link (h'.links link hlink)

/-- Two tables that follow each other have the same roles. -/
theorem Follows.roleAt_eq (h : s.Follows t) (h' : t.Follows s) (a : Axis) :
    s.roleAt a = t.roleAt a := by
  rcases hs : s.roleAt a with _ | slot
  · rcases ht : t.roleAt a with _ | slot
    · rfl
    · rw [h.roles a slot ht] at hs
      cases hs
  · exact (h'.roles a slot hs).symm

end Roles

/-! ### Requests -/

/-- What is asked of a role table. -/
inductive Request where
  /-- An axis is to take a slot. -/
  | pin (v : Wire) (axis : Nat) (slot : Slot)
  /-- Two axes are to take the same slot. -/
  | join (a b : Axis)
  /-- Nothing can be asked. -/
  | refuse (f : Fault)

/-- A request that a table fulfils. -/
inductive Roles.Meets (t : Roles) : Request → Prop where
  | pinned {v : Wire} {axis : Nat} {slot : Slot} :
    t.roleAt ⟨v, axis⟩ = some slot → Meets t (.pin v axis slot)
  | constant {v : Wire} {axis : Nat} {slot : Slot} {shape : Shape} :
    t.frame v = some (shape, true) → Meets t (.pin v axis slot)
  | joined {a b : Axis} : (a, b) ∈ t.links → (b, a) ∈ t.links → t.roleAt a = t.roleAt b →
    Meets t (.join a b)
  | apart {a b : Axis} : ¬ t.Live a b → Meets t (.join a b)

/-- The axes that granting a request may give a slot to. Axes of one value never share a slot, so a
join between them gives none. -/
inductive Request.Changes : Request → Axis → Prop where
  | pin (v : Wire) (axis : Nat) (slot : Slot) : Changes (.pin v axis slot) ⟨v, axis⟩
  | left {a b : Axis} : a.value ≠ b.value → Changes (.join a b) a
  | right {a b : Axis} : a.value ≠ b.value → Changes (.join a b) b

namespace RoleM

variable (site : Site)

/-- Grants a request. -/
def grant : Request → RoleM Unit
  | .pin v axis slot => discard (pin site v axis slot)
  | .join a b => linkAxes site a b
  | .refuse f => liftM (Except.error f)

/-- Grants requests one after another. -/
def grantAll (requests : List Request) : RoleM Unit := requests.forM (grant site)

/-- Started on one table, a computation succeeds and leaves another. -/
def Takes (x : RoleM Unit) (t t' : Roles) : Prop := x.run.run t = (.ok (), t')

variable {site}

theorem Takes.of_runs {x : RoleM Unit} (h : Runs (fun _ _ => False) t x fun _ t' => t' = t) :
    Takes x t t := by
  obtain ⟨_, _, hrun, rfl⟩ := h.exists_ok
  exact hrun

theorem Takes.unique {x : RoleM Unit} {t₁ t₂ : Roles} (h₁ : Takes x t t₁) (h₂ : Takes x t t₂) :
    t₁ = t₂ :=
  (Prod.ext_iff.1 (h₁.symm.trans h₂)).2

/-! ### One request -/

/-- What a pin does to a table that accepts it. -/
structure Pinning (t : Roles) (v : Wire) (axis : Nat) (slot : Slot) (t' : Roles) : Prop where
  /-- The request is met. -/
  meets : t'.Meets (.pin v axis slot)
  /-- Nothing is lost. -/
  follows : t'.Follows t
  /-- No link is entered. -/
  links : t'.links = t.links
  /-- No other axis changes. -/
  others : ∀ c, c ≠ ⟨v, axis⟩ → t'.roleAt c = t.roleAt c
  /-- A slot that an axis of the value has is not given again. -/
  taken : ∀ axis', t.roleAt ⟨v, axis'⟩ = some slot → ∀ c, t'.roleAt c = t.roleAt c

theorem Pinning.of_meets {v : Wire} {axis : Nat} {slot : Slot} (h : t.Meets (.pin v axis slot)) :
    Pinning t v axis slot t :=
  ⟨h, .refl t, rfl, fun _ _ => rfl, fun _ _ _ => rfl⟩

theorem pin_takes (v : Wire) (axis : Nat) (slot : Slot) (t : Roles) :
    Runs (fun _ _ => True) t (pin site v axis slot) fun _ t' => Pinning t v axis slot t' := by
  refine Runs.get_bind (Runs.lift_bind ((t.row_yields v).mono (fun _ _ => trivial)
    fun _ h => h) ?_)
  intro r hr
  split
  · rename_i hconstant
    have hframe : t.frame v = some (r.shape, true) := by simp [Roles.frame, hr, hconstant]
    exact Runs.pure (.of_meets (.constant hframe))
  · split
    · exact Runs.lift trivial
    · rename_i current hcurrent
      split
      · rename_i heq
        exact Runs.pure (.of_meets (.pinned (Roles.role?_eq_some.2 ⟨r, hr, heq ▸ hcurrent⟩)))
      · exact Runs.lift trivial
    · rename_i hfree
      split
      · exact Runs.lift trivial
      · rename_i hnew
        have hslot : some slot ∉ r.roles := List.idxOf?_eq_none_iff.1 hnew
        have hroles := Roles.roleAt_setRoles hr hfree slot
        refine Runs.bind (Q := fun _ t' => t' = t.setRoles v (r.roles.set axis (some slot)))
          (Runs.set rfl) ?_
        rintro _ _ rfl
        apply Runs.pure
        refine ⟨.pinned ?_, ⟨Roles.frame_setRoles hr _, ?_, fun _ h => h⟩, rfl, ?_, ?_⟩
        · rw [hroles, if_pos rfl]
        · intro c slot' hc
          rw [hroles, if_neg, hc]
          rintro rfl
          simp [Roles.roleAt, Roles.role?, hr, hfree] at hc
        · intro c hc
          rw [hroles, if_neg hc]
        · intro axis' haxis'
          obtain ⟨r', hr', hrole⟩ := Roles.role?_eq_some.1 haxis'
          obtain rfl := Option.some.inj (hr.symm.trans hr')
          exact absurd (List.mem_of_getElem? hrole) hslot

/-- What passing a slot on does: the target has what the source has, or else what it had. Within a
value nothing is passed on. -/
theorem passRole_takes {x y : Axis} (hy : t.isConstant y.value = false) :
    Runs (fun _ _ => True) t (passRole site x y) fun _ t' =>
      t'.Follows t ∧ t'.links = t.links ∧
        (∀ c, t'.roleAt c = if c = y then (t.roleAt x).or (t.roleAt y) else t.roleAt c) ∧
        (x.value = y.value → ∀ c, t'.roleAt c = t.roleAt c) := by
  refine Runs.get_bind ?_
  split
  · rename_i slot hslot
    replace hslot : t.roleAt x = some slot := hslot
    refine Runs.map (pin_takes y.value y.axis slot t) ?_
    intro _ t' hpin
    have hrole : t'.roleAt y = some slot := by
      rcases hpin.meets with hrole | hframe
      · exact hrole
      · rw [hpin.follows.frame] at hframe
        simp [Roles.isConstant_eq, hframe] at hy
    refine ⟨hpin.follows, hpin.links, ?_, ?_⟩
    · intro c
      by_cases hc : c = y
      · rw [if_pos hc, hc, hslot, hrole, Option.some_or]
      · rw [if_neg hc]
        exact hpin.others c hc
    · intro hvalue
      exact hpin.taken x.axis (hvalue ▸ hslot)
  · rename_i hnone
    replace hnone : t.roleAt x = none := hnone
    apply Runs.pure
    refine ⟨.refl t, rfl, ?_, fun _ _ => rfl⟩
    intro c
    by_cases hc : c = y
    · rw [if_pos hc, hc, hnone, Option.none_or]
    · rw [if_neg hc]

/-- What a join that is accepted does: it is entered, both axes have what one of them had, and no
other axis changes. Within a value no axis changes. -/
theorem linkAxes_takes {a b : Axis} (hlive : t.Live a b) :
    Runs (fun _ _ => True) t (linkAxes site a b) fun _ t' =>
      t'.Follows t ∧ (a, b) ∈ t'.links ∧ (b, a) ∈ t'.links ∧
        (∀ c, t'.roleAt c =
          if c = a ∨ c = b then (t.roleAt a).or (t.roleAt b) else t.roleAt c) ∧
        (a.value = b.value → ∀ c, t'.roleAt c = t.roleAt c) := by
  refine Runs.get_bind ?_
  rw [hlive.1, hlive.2]
  refine Runs.bind (Q := fun _ t' => t' = (t.insertLink a b).insertLink b a) (Runs.set rfl) ?_
  rintro _ t₀ ht₀
  have hmem : ∀ link, link ∈ t₀.links ↔ link ∈ t.links ∨ link = (a, b) ∨ link = (b, a) := by
    intro link
    rw [ht₀, Roles.mem_insertLink, Roles.mem_insertLink, or_assoc]
  have hroles₀ : ∀ c, t₀.roleAt c = t.roleAt c := by simp [ht₀]
  have hfollows₀ : t₀.Follows t := by
    refine ⟨by simp [ht₀], ?_, fun link hlink => (hmem link).2 (.inl hlink)⟩
    intro c slot hc
    rwa [hroles₀]
  have hb : t₀.isConstant b.value = false :=
    (Roles.isConstant_congr hfollows₀.frame _).trans hlive.2
  refine (passRole_takes hb).bind ?_
  rintro _ t₁ ⟨hfollows₁, hlinks₁, hroles₁, hsame₁⟩
  have ha : t₁.isConstant a.value = false :=
    (Roles.isConstant_congr (hfollows₁.frame.trans hfollows₀.frame) _).trans hlive.1
  refine (passRole_takes ha).imp ?_
  rintro _ t₂ ⟨hfollows₂, hlinks₂, hroles₂, hsame₂⟩
  simp only [hroles₀] at hroles₁ hsame₁
  refine ⟨hfollows₂.trans (hfollows₁.trans hfollows₀), ?_, ?_, ?_, ?_⟩
  · rw [hlinks₂, hlinks₁, hmem]
    exact .inr (.inl rfl)
  · rw [hlinks₂, hlinks₁, hmem]
    exact .inr (.inr rfl)
  · -- what has been passed to `b` comes back to `a`
    have hback : ((t.roleAt a).or (t.roleAt b)).or (t₁.roleAt a) =
        (t.roleAt a).or (t.roleAt b) := by
      rw [hroles₁ a]
      split
      · exact Option.or_self
      · rcases t.roleAt a with _ | slot
        · exact Option.or_none
        · rfl
    intro c
    rw [hroles₂, hroles₁ b, if_pos rfl, hback]
    by_cases hca : c = a
    · rw [if_pos hca, if_pos (.inl hca)]
    · rw [if_neg hca, hroles₁ c]
      simp only [hca, false_or]
  · intro hvalue c
    rw [hsame₂ hvalue.symm c, hsame₁ hvalue c]

/-- A join with a constant is passed over. -/
theorem linkAxes_apart {a b : Axis} (hlive : ¬ t.Live a b) : Takes (linkAxes site a b) t t := by
  apply Takes.of_runs
  refine Runs.get_bind ?_
  split
  · exact Runs.pure rfl
  · rename_i hconstant
    rw [Bool.not_eq_true, Bool.or_eq_false_iff] at hconstant
    exact absurd hconstant hlive

/-- **A request that is granted is met**, the table follows the one before, and only the axes of the
request may have changed. -/
theorem grant_spec {r : Request} (h : Takes (grant site r) t t') :
    t'.Meets r ∧ t'.Follows t ∧ ∀ c, ¬ r.Changes c → t'.roleAt c = t.roleAt c := by
  rcases r with ⟨v, axis, slot⟩ | ⟨a, b⟩ | f
  · have hruns : Runs (fun _ _ => True) t (grant site (.pin v axis slot))
        fun _ t' => Pinning t v axis slot t' := (pin_takes v axis slot t).map fun _ _ h => h
    have hpin := hruns.value h
    refine ⟨hpin.meets, hpin.follows, ?_⟩
    intro c hc
    apply hpin.others
    rintro rfl
    exact hc (.pin v axis slot)
  · by_cases hlive : t.Live a b
    · obtain ⟨hfollows, hab, hba, hroles, hsame⟩ := (linkAxes_takes hlive).value h
      refine ⟨.joined hab hba ?_, hfollows, ?_⟩
      · rw [hroles, hroles, if_pos (.inl rfl), if_pos (.inr rfl)]
      · intro c hc
        by_cases hvalue : a.value = b.value
        · exact hsame hvalue c
        · rw [hroles, if_neg]
          rintro (rfl | rfl)
          · exact hc (.left hvalue)
          · exact hc (.right hvalue)
    · obtain rfl := (linkAxes_apart hlive).unique h
      exact ⟨.apart hlive, .refl t, fun _ _ => rfl⟩
  · cases h

theorem pin_met {v : Wire} {axis : Nat} {slot : Slot} (h : t.Meets (.pin v axis slot)) :
    Runs (fun _ _ => False) t (pin site v axis slot) fun _ t' => t' = t := by
  obtain ⟨r, hr, hmet⟩ : ∃ r, t.row? v = some r ∧
      (r.constant = true ∨ r.roles[axis]? = some (some slot)) := by
    rcases h with hrole | hframe
    · obtain ⟨r, hr, hslot⟩ := Roles.role?_eq_some.1 hrole
      exact ⟨r, hr, .inr hslot⟩
    · obtain ⟨r, hr, hconstant⟩ := Option.map_eq_some_iff.1 hframe
      exact ⟨r, hr, .inl (Prod.ext_iff.1 hconstant).2⟩
  have hrow : t.row v = .ok r := by rw [Roles.row, hr]
  refine Runs.get_bind (Runs.lift_bind (Yields.of_eq_ok (Q := fun r' => r' = r) hrow rfl) ?_)
  rintro _ rfl
  split
  · exact Runs.pure rfl
  · rename_i hconstant
    rw [hmet.resolve_left hconstant]
    dsimp only
    rw [if_pos rfl]
    exact Runs.pure rfl

theorem passRole_met {x y : Axis} (h : t.roleAt x = t.roleAt y) :
    Runs (fun _ _ => False) t (passRole site x y) fun _ t' => t' = t := by
  refine Runs.get_bind ?_
  split
  · rename_i slot hslot
    have hy : t.roleAt y = some slot := h.symm.trans hslot
    exact (pin_met (.pinned hy)).map fun _ _ ht' => ht'
  · exact Runs.pure rfl

/-- **A request that is met is granted without a change.** -/
theorem grant_met {r : Request} (h : t.Meets r) : Takes (grant site r) t t := by
  rcases r with ⟨v, axis, slot⟩ | ⟨a, b⟩ | f
  · exact Takes.of_runs ((pin_met h).map fun _ _ ht' => ht')
  · rcases h with - | - | ⟨hab, hba, hroles⟩ | hlive
    · by_cases hlive : t.Live a b
      · apply Takes.of_runs
        refine Runs.get_bind ?_
        rw [hlive.1, hlive.2]
        refine Runs.bind (Q := fun _ t' => t' = t) (Runs.set ?_) ?_
        · rw [Roles.insertLink_of_mem hab, Roles.insertLink_of_mem hba]
        · rintro _ _ rfl
          refine (passRole_met hroles).bind ?_
          rintro _ _ rfl
          exact passRole_met hroles.symm
      · exact linkAxes_apart hlive
    · exact linkAxes_apart hlive
  · rcases h with - | - | - | -

/-! ### Lists of requests -/

theorem grantAll_nil : Takes (grantAll site []) t t' ↔ t' = t := by
  constructor
  · intro h
    cases h
    rfl
  · rintro rfl
    rfl

theorem grantAll_cons {r : Request} {rest : List Request} :
    Takes (grantAll site (r :: rest)) t t' ↔
      ∃ u, Takes (grant site r) t u ∧ Takes (grantAll site rest) u t' := by
  have hcons : grantAll site (r :: rest) = grant site r >>= fun _ => grantAll site rest := rfl
  rw [hcons]
  constructor
  · intro h
    rcases hrun : (grant site r).run.run t with ⟨f | _, u⟩
    · rw [Takes, run_bind_error hrun] at h
      cases h
    · rw [Takes, run_bind_ok hrun] at h
      exact ⟨u, hrun, h⟩
  · rintro ⟨u, hrun, h⟩
    exact (run_bind_ok hrun).trans h

theorem grantAll_spec {requests : List Request} (h : Takes (grantAll site requests) t t') :
    t'.Follows t ∧ ∀ c, (∀ r ∈ requests, ¬ r.Changes c) → t'.roleAt c = t.roleAt c := by
  induction requests generalizing t with
  | nil =>
    obtain rfl := grantAll_nil.1 h
    exact ⟨.refl t', fun _ _ => rfl⟩
  | cons r rest ih =>
    obtain ⟨u, hr, hrest⟩ := grantAll_cons.1 h
    obtain ⟨-, hfollows, hroles⟩ := grant_spec hr
    obtain ⟨hfollows', hroles'⟩ := ih hrest
    refine ⟨hfollows'.trans hfollows, ?_⟩
    intro c hc
    rw [hroles' c fun r' hr' => hc r' (List.mem_cons_of_mem _ hr'),
      hroles c (hc r List.mem_cons_self)]

/-- What was granted was not refused, and joins have been entered. -/
theorem entered_of_grantAll {requests : List Request} (h : Takes (grantAll site requests) t t') :
    ∀ r ∈ requests, (∀ f, r ≠ .refuse f) ∧
      ∀ a b, r = .join a b → t'.Live a b → (a, b) ∈ t'.links ∧ (b, a) ∈ t'.links := by
  induction requests generalizing t with
  | nil => exact fun r hr => absurd hr List.not_mem_nil
  | cons r rest ih =>
    obtain ⟨u, hr, hrest⟩ := grantAll_cons.1 h
    have hfollows := (grantAll_spec hrest).1
    intro r' hr'
    rcases List.mem_cons.1 hr' with rfl | hr'
    · constructor
      · rintro f rfl
        cases hr
      · rintro a b rfl hlive
        rcases (grant_spec hr).1 with - | - | ⟨hab, hba, -⟩ | hapart
        · exact ⟨hfollows.links _ hab, hfollows.links _ hba⟩
        · exact absurd ((Roles.live_congr hfollows.frame a b).1 hlive) hapart
    · exact ih hrest r' hr'

/-- A request stays met as long as the axes of a join stay as they are. -/
theorem meets_of_follows {r : Request} (h : s.Meets r) (hfollows : t.Follows s)
    (hroles : ∀ a b, r = .join a b → t.roleAt a = s.roleAt a ∧ t.roleAt b = s.roleAt b) :
    t.Meets r := by
  rcases h with hrole | hframe | ⟨hab, hba, hsame⟩ | hlive
  · exact .pinned (hfollows.roles _ _ hrole)
  · exact .constant (hfollows.frame ▸ hframe)
  · obtain ⟨ha, hb⟩ := hroles _ _ rfl
    exact .joined (hfollows.links _ hab) (hfollows.links _ hba) (by rw [ha, hb, hsame])
  · exact .apart (mt (Roles.live_congr hfollows.frame _ _).1 hlive)

/-- **Granting changes nothing if and only if everything is met.** -/
theorem grantAll_self_iff {requests : List Request} :
    Takes (grantAll site requests) t t ↔ ∀ r ∈ requests, t.Meets r := by
  constructor
  · intro h
    -- the table in between has no role that the last one lacks, and the last is the first
    suffices hall : ∀ s, s.Follows t → Takes (grantAll site requests) s t →
        ∀ r ∈ requests, t.Meets r from hall t (.refl t) h
    clear h
    induction requests with
    | nil =>
      intro s _ _ r hr
      exact absurd hr List.not_mem_nil
    | cons r rest ih =>
      intro s hs h
      obtain ⟨u, hr, hrest⟩ := grantAll_cons.1 h
      obtain ⟨hmet, hus, -⟩ := grant_spec hr
      have hut : u.Follows t := hus.trans hs
      have htu : t.Follows u := (grantAll_spec hrest).1
      intro r' hr'
      rcases List.mem_cons.1 hr' with rfl | hr'
      · apply meets_of_follows hmet htu
        intro a b _
        exact ⟨htu.roleAt_eq hut a, htu.roleAt_eq hut b⟩
      · exact ih u hut hrest r' hr'
  · intro h
    induction requests with
    | nil => exact grantAll_nil.2 rfl
    | cons r rest ih =>
      refine grantAll_cons.2 ⟨t, grant_met (h r List.mem_cons_self), ih ?_⟩
      intro r' hr'
      exact h r' (List.mem_cons_of_mem _ hr')

/-! ### Lists that settle in one pass -/

/-- No later request changes an axis of a join. -/
def Settling (requests : List Request) : Prop :=
  requests.Pairwise fun r r' => ∀ a b, r = .join a b → ¬ r'.Changes a ∧ ¬ r'.Changes b

/-- **Such a list is met once it has been granted.** -/
theorem met_of_settling {requests : List Request} (hsettling : Settling requests)
    (h : Takes (grantAll site requests) t t') : ∀ r ∈ requests, t'.Meets r := by
  induction requests generalizing t with
  | nil => exact fun r hr => absurd hr List.not_mem_nil
  | cons r rest ih =>
    obtain ⟨hhead, hrest⟩ := List.pairwise_cons.1 hsettling
    obtain ⟨u, hr, htail⟩ := grantAll_cons.1 h
    obtain ⟨hfollows, hroles⟩ := grantAll_spec htail
    intro r' hr'
    rcases List.mem_cons.1 hr' with rfl | hr'
    · apply meets_of_follows (grant_spec hr).1 hfollows
      intro a b hjoin
      exact ⟨hroles a fun r' hr' => (hhead r' hr' a b hjoin).1,
        hroles b fun r' hr' => (hhead r' hr' a b hjoin).2⟩
    · exact ih hrest htail r' hr'

/-! ### Lists of joins with centres -/

/-- Every axis is joined with one other axis at most, a centre. A centre that is itself joined with
something is joined with itself. -/
structure Starry (requests : List Request) : Prop where
  /-- Nothing is pinned. -/
  noPin : ∀ v axis slot, Request.pin v axis slot ∉ requests
  /-- An axis has one centre. -/
  centre : ∀ a b b', .join a b ∈ requests → .join a b' ∈ requests → b = b'
  /-- A centre has no centre but itself. -/
  rooted : ∀ a b a', .join a b ∈ requests → .join a' a ∈ requests → a = b

/-- Centres know what is known of the axes that are joined with them. -/
def Fed (t : Roles) (requests : List Request) : Prop :=
  ∀ a b, .join a b ∈ requests → t.Live a b → ∀ slot, t.roleAt a = some slot →
    t.roleAt b = some slot

/-- One more join feeds its centre, and the others stay fed. -/
theorem Fed.grant {requests passed : List Request} {r : Request} (hstarry : Starry requests)
    (hpassed : passed ⊆ requests) (hr : r ∈ requests) (hfed : Fed t passed)
    (h : Takes (grant site r) t t') : Fed t' (passed ++ [r]) := by
  obtain ⟨hmet, hfollows, hroles⟩ := grant_spec h
  intro x y hxy hlive slot hx
  have hnew : r = .join x y → t'.roleAt y = some slot := by
    rintro rfl
    rcases hmet with - | - | ⟨-, -, hsame⟩ | hapart
    · exact hsame ▸ hx
    · exact absurd hlive hapart
  rcases List.mem_append.1 hxy with hold | hlast
  · by_cases ht : t.roleAt x = some slot
    · have hlive' := (Roles.live_congr hfollows.frame x y).1 hlive
      exact hfollows.roles y slot (hfed x y hold hlive' slot ht)
    · -- the axis has just got its slot: from its centre, or as a centre
      have hchanges : r.Changes x := by
        by_contra hsame
        exact ht (hroles x hsame ▸ hx)
      rcases hchanges with _ | hvalue | hvalue
      · exact absurd hr (hstarry.noPin _ _ _)
      · exact hnew (congrArg _ (hstarry.centre _ _ _ hr (hpassed hold)))
      · exact hstarry.rooted _ _ _ (hpassed hold) hr ▸ hx
  · exact hnew (List.mem_singleton.1 hlast).symm

/-- **After one pass the centres know everything.** -/
theorem fed_of_starry {requests : List Request} (hstarry : Starry requests)
    (h : Takes (grantAll site requests) t t') : Fed t' requests := by
  suffices hrun : ∀ rest passed t, requests = passed ++ rest → Fed t passed →
      Takes (grantAll site rest) t t' → Fed t' requests by
    refine hrun requests [] t rfl ?_ h
    intro a b hab
    exact absurd hab List.not_mem_nil
  intro rest
  induction rest with
  | nil =>
    intro passed t hsplit hfed hrun
    obtain rfl := grantAll_nil.1 hrun
    rwa [hsplit, List.append_nil]
  | cons r rest ih =>
    intro passed t hsplit hfed hrun
    obtain ⟨u, hr, hrest⟩ := grantAll_cons.1 hrun
    have hmem : r ∈ requests := by simp [hsplit]
    have hpassed : passed ⊆ requests := by simp [hsplit]
    exact ih (passed ++ [r]) u (by simp [hsplit]) (hfed.grant hstarry hpassed hmem hr) hrest

/-- Axes without slots get none from each other. -/
theorem roleAt_of_join {a b : Axis} (h : Takes (grant site (.join a b)) t t')
    (ha : t.roleAt a = none) (hb : t.roleAt b = none) (c : Axis) : t'.roleAt c = t.roleAt c := by
  by_cases hlive : t.Live a b
  · obtain ⟨-, -, -, hroles, -⟩ := (linkAxes_takes hlive).value h
    rw [hroles, ha, hb]
    by_cases hc : c = a ∨ c = b
    · rw [if_pos hc]
      rcases hc with rfl | rfl
      · exact ha.symm
      · exact hb.symm
    · rw [if_neg hc]
  · obtain rfl := (linkAxes_apart hlive).unique h
    rfl

/-- A centre without a slot that knows everything gets none. -/
theorem centre_free_of_fed {requests : List Request} {r : Request} {x y : Axis}
    (hstarry : Starry requests) (hfed : Fed t requests) (hr : r ∈ requests)
    (hxy : .join x y ∈ requests) (h : Takes (grant site r) t t') (hy : t.roleAt y = none) :
    t'.roleAt y = none := by
  by_cases hchanges : r.Changes y
  · rcases hchanges with _ | hvalue | hvalue
    · exact absurd hr (hstarry.noPin _ _ _)
    · exact absurd (congrArg Axis.value (hstarry.rooted _ _ _ hr hxy)) hvalue
    · rename_i a
      by_cases hlive : t.Live a y
      · -- what the other axis has, the centre would have too
        have ha : t.roleAt a = none := by
          rcases ha : t.roleAt a with _ | slot
          · rfl
          · rw [hfed a y hr hlive slot ha] at hy
            cases hy
        exact (roleAt_of_join h ha hy y).trans hy
      · obtain rfl := (linkAxes_apart hlive).unique h
        exact hy
  · exact ((grant_spec h).2.2 y hchanges).trans hy

/-- Centres that know everything do not change any more, so a join stays met. -/
theorem meets_of_fed {requests : List Request} {r r' : Request} (hstarry : Starry requests)
    (hfed : Fed t requests) (hr : r ∈ requests) (hr' : r' ∈ requests)
    (h : Takes (grant site r) t t') (hmet : t.Meets r') : t'.Meets r' := by
  have hfollows := (grant_spec h).2.1
  have hfed' : Fed t' (requests ++ [r]) := hfed.grant hstarry (List.Subset.refl _) hr h
  rcases hmet with hrole | hframe | ⟨hxy, hyx, hsame⟩ | hlive
  · exact absurd hr' (hstarry.noPin _ _ _)
  · exact absurd hr' (hstarry.noPin _ _ _)
  · rename_i x y
    by_cases hlive : t'.Live x y
    · refine .joined (hfollows.links _ hxy) (hfollows.links _ hyx) ?_
      rcases hy : t.roleAt y with _ | slot
      · have hcentre := centre_free_of_fed hstarry hfed hr hr' h hy
        rcases hx : t'.roleAt x with _ | slot
        · exact hcentre.symm
        · rw [← hx, hfed' x y (List.mem_append_left _ hr') hlive slot hx, hx]
      · rw [hfollows.roles y slot hy, hfollows.roles x slot (hsame.trans hy)]
    · exact .apart hlive
  · exact .apart (mt (Roles.live_congr hfollows.frame _ _).1 hlive)

/-- **A pass that starts with centres that know everything meets all requests.** -/
theorem met_of_fed {requests : List Request} (hstarry : Starry requests) (hfed : Fed t requests)
    (h : Takes (grantAll site requests) t t') : ∀ r ∈ requests, t'.Meets r := by
  suffices hrun : ∀ rest passed t, requests = passed ++ rest → Fed t requests →
      (∀ r ∈ passed, t.Meets r) → Takes (grantAll site rest) t t' →
      ∀ r ∈ requests, t'.Meets r by
    refine hrun requests [] t rfl hfed ?_ h
    intro r hr
    exact absurd hr List.not_mem_nil
  intro rest
  induction rest with
  | nil =>
    intro passed t hsplit hfed hmet hrun
    obtain rfl := grantAll_nil.1 hrun
    rwa [hsplit, List.append_nil]
  | cons r rest ih =>
    intro passed t hsplit hfed hmet hrun
    obtain ⟨u, hr, hrest⟩ := grantAll_cons.1 hrun
    have hmem : r ∈ requests := by simp [hsplit]
    have hpassed : passed ⊆ requests := by simp [hsplit]
    have hfed' : Fed u requests := by
      intro a b hab
      exact hfed.grant hstarry (List.Subset.refl _) hmem hr a b (List.mem_append_left _ hab)
    refine ih (passed ++ [r]) u (by simp [hsplit]) hfed' ?_ hrest
    intro r' hr'
    rcases List.mem_append.1 hr' with hr' | hr'
    · exact meets_of_fed hstarry hfed hmem (hpassed hr') hr (hmet r' hr')
    · exact List.mem_singleton.1 hr' ▸ (grant_spec hr).1

end RoleM

end Lamina
