import Mathlib
import Lamina.Proofs.Committing

/-!
# Families of linked values

Values that are passed on unchanged are linked axis by axis. Such a family wants one slot for each
of its axes, as far as some value of the family has been given one (`Roles.Family`).

Whichever value of a family is committed, its axes claim exactly these slots
(`Roles.Family.claimSlots_eq`), and the remaining ones are filled up in the same way. Afterwards the
family is still a family, with the whole layout wanted (`Roles.Family.commit`), and the layout is
what it is filled up to. So the wishes of a family change with every commit, while the layout that
they lead to does not: that is the invariant of a sequence of commits (`Roles.Family.commits`).

**Theorem** (`Roles.family_layout`): all values of a family get the same layout, in whatever order
they are committed and whatever else is committed in between.
-/

namespace Lamina

open Relation

variable {t t' : Roles} {V : Set Wire} {rank : Nat} {p : Nat → Option Slot} {v : Wire} {r : RoleRow}

namespace Roles

/-- A family of values of one rank: links stay within it and join like axes of all its values, and
`p` has the slots that its axes have been given. -/
structure Family (t : Roles) (V : Set Wire) (rank : Nat) (p : Nat → Option Slot) : Prop where
  /-- The values are not constant and have one rank. -/
  values : ∀ v ∈ V, ∃ r, t.row? v = some r ∧ r.constant = false ∧ r.shape.rank = rank
  /-- A link leads to the same axis of a value of the family. -/
  closed : ∀ v ∈ V, ∀ axis b, t.Linked ⟨v, axis⟩ b → b.value ∈ V ∧ b.axis = axis
  /-- On each axis, links lead from every value to every other. -/
  connected : ∀ v ∈ V, ∀ w ∈ V, ∀ axis < rank, ReflTransGen t.Linked ⟨v, axis⟩ ⟨w, axis⟩
  /-- All roles are those of `p`. -/
  roles : ∀ v ∈ V, ∀ axis d, t.role? v axis = some d → p axis = some d
  /-- No slot is given to two axes. -/
  injective : ∀ i j d, p i = some d → p j = some d → i = j
  /-- There is nothing in `p` that no value has. -/
  given : ∀ axis d, p axis = some d → ∃ v ∈ V, ∃ e, t.role? v axis = some e

/-! ### What the axes of a family claim -/

namespace Family

/-- Links do not lead out of a family. -/
theorem way_within (h : t.Family V rank p) (hv : v ∈ V) {axis : Nat} {b : Axis}
    (hway : TransGen t.Linked ⟨v, axis⟩ b) : b.value ∈ V ∧ b.axis = axis := by
  induction hway with
  | single hlink => exact h.closed v hv axis _ hlink
  | @tail b c _ hlink ih =>
    obtain ⟨hb, rfl⟩ := ih
    exact h.closed b.value hb b.axis c hlink

/-- The slots behind the links of an axis are the one that the family has for it. -/
theorem eq_of_reached (h : t.Family V rank p) (hv : v ∈ V) {axis : Nat} {d : Slot}
    (hd : d ∈ t.slotsReached ⟨v, axis⟩) : p axis = some d := by
  obtain ⟨b, -, hway, hrole⟩ := mem_slotsReached.1 hd
  obtain ⟨hb, rfl⟩ := h.way_within hv hway
  exact h.roles b.value hb b.axis d hrole

/-- A slot that the family has for an axis is behind the links of each value that does not have
it. -/
theorem reached_of_eq (h : t.Family V rank p) (hv : v ∈ V) {axis : Nat} {d : Slot}
    (haxis : axis < rank) (hd : p axis = some d) (hfree : t.role? v axis = none) :
    d ∈ t.slotsReached ⟨v, axis⟩ := by
  obtain ⟨w, hw, e, he⟩ := h.given axis d hd
  obtain rfl : d = e := Option.some.inj (hd.symm.trans (h.roles w hw axis e he))
  have hne : (⟨w, axis⟩ : Axis) ≠ ⟨v, axis⟩ := by
    intro heq
    obtain rfl : w = v := congrArg Axis.value heq
    rw [hfree] at he
    cases he
  have hway : TransGen t.Linked ⟨v, axis⟩ ⟨w, axis⟩ :=
    (reflTransGen_iff_eq_or_transGen.1 (h.connected v hv w hw axis haxis)).resolve_left hne
  exact mem_slotsReached.2 ⟨⟨w, axis⟩, hne, hway, he⟩

/-- Only slots that the family has are claimed. -/
theorem eq_of_claimed (h : t.Family V rank p) (hv : v ∈ V) (hr : t.row? v = some r) {axis : Nat}
    {d : Slot} (hd : (claimSlots r.roles (t.wanted v r.roles))[axis]? = some (some d)) :
    p axis = some d := by
  rcases claimSlots_origin (by simp) hd with hrole | ⟨ws, hfree, hws, hmem⟩
  · exact h.roles v hv axis d (role?_eq_some.2 ⟨r, hr, hrole⟩)
  · rw [getElem?_wanted hfree] at hws
    obtain rfl := Option.some.inj hws
    exact h.eq_of_reached hv hmem

theorem length_roles (h : t.Family V rank p) (hv : v ∈ V) (hr : t.row? v = some r)
    (hsound : r.Sound) : r.roles.length = rank := by
  obtain ⟨r', hr', -, hshape⟩ := h.values v hv
  obtain rfl := Option.some.inj (hr.symm.trans hr')
  rw [hsound.length, hshape]

/-- Every slot that the family has is claimed. -/
theorem claimed_of_eq (h : t.Family V rank p) (hv : v ∈ V) (hr : t.row? v = some r)
    (hsound : r.Sound) {axis : Nat} {d : Slot} (haxis : axis < rank) (hd : p axis = some d) :
    (claimSlots r.roles (t.wanted v r.roles))[axis]? = some (some d) := by
  rcases hrole : r.roles[axis]? with _ | _ | e
  · rw [List.getElem?_eq_none_iff, h.length_roles hv hr hsound] at hrole
    omega
  · have hfree : t.role? v axis = none := by simp [role?, hr, hrole]
    rcases claimSlots_free hrole (getElem?_wanted (t := t) (v := v) hrole) with
      ⟨e, he, hclaimed⟩ | hgone
    · obtain rfl : d = e := Option.some.inj (hd.symm.trans (h.eq_of_reached hv he))
      exact hclaimed
    · -- no other axis can have it, since the family has it for this one
      obtain ⟨other, hother, hclaimed⟩ := hgone d (h.reached_of_eq hv haxis hd hfree)
      exact absurd (h.injective other axis d (h.eq_of_claimed hv hr hclaimed) hd) hother
  · have he : p axis = some e := h.roles v hv axis e (role?_eq_some.2 ⟨r, hr, hrole⟩)
    obtain rfl : d = e := Option.some.inj (hd.symm.trans he)
    exact claimSlots_keeps (by simp) hrole

/-- **The axes of a value claim what the family has**, whichever value it is. -/
theorem claimSlots_eq (h : t.Family V rank p) (hv : v ∈ V) (hr : t.row? v = some r)
    (hsound : r.Sound) :
    claimSlots r.roles (t.wanted v r.roles) = (List.range rank).map p := by
  have hlength : r.roles.length = (t.wanted v r.roles).length := by simp
  obtain ⟨-, hclaimed⟩ := claimSlots_spec hsound.nodup hlength
  rw [h.length_roles hv hr hsound] at hclaimed
  apply List.ext_getElem?
  intro axis
  by_cases haxis : axis < rank
  · have hlist : ((List.range rank).map p)[axis]? = some (p axis) := by simp [haxis]
    rw [hlist]
    rcases hp : p axis with _ | d
    · rcases hx : (claimSlots r.roles (t.wanted v r.roles))[axis]? with _ | _ | d
      · rw [List.getElem?_eq_none_iff] at hx
        omega
      · rfl
      · have hd := h.eq_of_claimed hv hr hx
        rw [hp] at hd
        cases hd
    · exact h.claimed_of_eq hv hr hsound haxis hp
  · have hlist : ((List.range rank).map p)[axis]? = none := by simpa using haxis
    rw [hlist, List.getElem?_eq_none]
    omega

end Family

/-! ### Commits of a family -/

/-- The slots that a family gets: those that it has, and the first ones left for the other axes. -/
def filling (rank : Nat) (p : Nat → Option Slot) : Option (List Slot) :=
  completeSlots [] ((List.range rank).map p)

theorem getElem?_map_range {axis : Nat} {d : Slot} (haxis : axis < rank) (hd : p axis = some d) :
    ((List.range rank).map p)[axis]? = some (some d) := by
  simp [haxis, hd]

theorem nodup_usedSlots_map_range (h : ∀ i j d, p i = some d → p j = some d → i = j) :
    (usedSlots ((List.range rank).map p)).Nodup := by
  rw [usedSlots, List.filterMap_map]
  exact List.nodup_range.filterMap fun i j d hi hj => h i j d hi hj

/-- What is filled up already stays as it is. -/
theorem filling_slots {l : Layout} (hrank : l.rank = rank) :
    filling rank (l.slots[·]?) = some l.slots := by
  have hlist : ((List.range rank).map fun axis => l.slots[axis]?) = l.slots.map some := by
    apply List.ext_getElem?
    intro axis
    by_cases haxis : axis < l.slots.length
    · have haxis' : axis < rank := hrank ▸ haxis
      simp [haxis, haxis']
    · have haxis' : ¬ axis < rank := hrank ▸ haxis
      simp [haxis', not_lt.1 haxis]
  rw [filling, hlist, completeSlots_map_some]

namespace Family

/-- A family is determined by its rows and the links. -/
theorem congr (h : t.Family V rank p) (hlinks : t'.links = t.links)
    (hrows : ∀ v ∈ V, t'.row? v = t.row? v) : t'.Family V rank p := by
  have hlinked := linked_congr hlinks
  have hrole : ∀ v ∈ V, ∀ axis, t'.role? v axis = t.role? v axis := by
    intro v hv axis
    rw [role?, role?, hrows v hv]
  constructor
  case values =>
    intro v hv
    rw [hrows v hv]
    exact h.values v hv
  case closed =>
    rw [hlinked]
    exact h.closed
  case connected =>
    rw [hlinked]
    exact h.connected
  case roles =>
    intro v hv axis d hd
    rw [hrole v hv] at hd
    exact h.roles v hv axis d hd
  case injective => exact h.injective
  case given =>
    intro axis d hd
    obtain ⟨v, hv, e, he⟩ := h.given axis d hd
    exact ⟨v, hv, e, by rw [hrole v hv, he]⟩

theorem lt_rank (h : t.Family V rank p) (ht : t.Sound) {axis : Nat} {d : Slot}
    (hd : p axis = some d) : axis < rank := by
  obtain ⟨v, hv, e, he⟩ := h.given axis d hd
  obtain ⟨r, hr, hrole⟩ := role?_eq_some.1 he
  rw [← h.length_roles hv hr (ht.rows v r hr)]
  exact (List.getElem?_eq_some_iff.1 hrole).1

/-- There is a layout for a family to be filled up to. -/
theorem exists_filling (h : t.Family V rank p) (hrank : rank ≤ Slot.total) :
    ∃ l : Layout, filling rank p = some l.slots := by
  have hused : (usedSlots ((List.range rank).map p)).Nodup :=
    nodup_usedSlots_map_range h.injective
  have hsome : (completeSlots [] ((List.range rank).map p)).isSome :=
    isSome_completeSlots (by simpa using hrank)
  obtain ⟨slots, hslots⟩ := Option.isSome_iff_exists.1 hsome
  exact ⟨⟨slots, (completeSlots_spec hused hslots).1⟩, hslots⟩

/-- **A commit of a value of the family** gives it what the family is filled up to, and leaves a
family that has this for all of its axes. -/
theorem commit (h : t.Family V rank p) (ht : t.Sound) (hrank : rank ≤ Slot.total) (hv : v ∈ V) :
    ∃ l t', filling rank p = some l.slots ∧
      (∀ site, (RoleM.commit site v).run.run t = (.ok l, t')) ∧
      (∀ axis, t'.role? v axis = l.slots[axis]?) ∧ l.rank = rank ∧
      t'.Family V rank (l.slots[·]?) := by
  obtain ⟨r, hr, hlive, hshape⟩ := h.values v hv
  have hrow := ht.rows v r hr
  have hlength : r.roles.length ≤ Slot.total := (h.length_roles hv hr hrow).trans_le hrank
  obtain ⟨l, hslots, hrun⟩ := RoleM.commit_run hr hlive hlength hrow.nodup
  have hc := committed_of_slots hr hlive hrow hslots
  rw [h.claimSlots_eq hv hr hrow] at hslots
  generalize t.setRoles v (l.slots.map some) = t' at hrun hc
  have hrole : ∀ axis, t'.role? v axis = l.slots[axis]? := by
    intro axis
    simp only [role?, hc.row, Option.bind_eq_bind, Option.bind_some, List.getElem?_map]
    rcases l.slots[axis]? with _ | d <;> rfl
  have hlinked := linked_congr hc.links
  refine ⟨l, t', hslots, hrun, hrole, hc.rank.trans hshape, ?_⟩
  constructor
  case values =>
    intro w hw
    by_cases hwv : w = v
    · subst hwv
      exact ⟨_, hc.row, hlive, hshape⟩
    · rw [hc.others w hwv]
      exact h.values w hw
  case closed =>
    rw [hlinked]
    exact h.closed
  case connected =>
    rw [hlinked]
    exact h.connected
  case roles =>
    intro w hw axis d hd
    by_cases hwv : w = v
    · rw [hwv, hrole] at hd
      exact hd
    · rw [role?, hc.others w hwv] at hd
      have hp := h.roles w hw axis d hd
      exact completeSlots_keeps hslots (getElem?_map_range (h.lt_rank ht hp) hp)
  case injective => exact fun _ _ _ hi hj => l.axis_unique hi hj
  case given =>
    intro axis d hd
    exact ⟨v, hv, d, (hrole axis).trans hd⟩

end Family

/-- Commits as calls. -/
def commits (values : List (Site × Wire)) : List RoleCall :=
  values.map fun c => .commit c.1 c.2

/-- A commit of a value outside of the family does not concern it. -/
theorem Family.commit_other (h : t.Family V rank p) (ht : t.Sound) (hv : v ∉ V) (site : Site) :
    (RoleCall.apply t (.commit site v)).Family V rank p := by
  have hdone : ∀ {x t'}, (RoleM.commit site v).run.run t = (x, t') →
      RoleCall.apply t (.commit site v) = t' := by
    intro x t' hrun
    rw [RoleCall.apply, hrun]
  rcases commit_cases ht site v with ⟨-, hrun⟩ | ⟨r, -, ⟨-, hrun⟩ | ⟨-, -, hrun⟩ |
    ⟨-, -, l, t', hrun, hc⟩⟩
  · rwa [hdone hrun]
  · rwa [hdone hrun]
  · rwa [hdone hrun]
  · rw [hdone hrun]
    apply h.congr hc.links
    intro w hw
    apply hc.others w
    rintro rfl
    exact hv hw

/-- **Commits change what a family has, but not what it is filled up to.** -/
theorem Family.commits {slots : List Slot} (h : t.Family V rank p) (ht : t.Sound)
    (hrank : rank ≤ Slot.total) (hslots : filling rank p = some slots)
    (values : List (Site × Wire)) :
    ∃ q, ((Roles.commits values).foldl RoleCall.apply t).Family V rank q ∧
      filling rank q = some slots := by
  induction values generalizing t p with
  | nil => exact ⟨p, h, hslots⟩
  | cons c values ih =>
    obtain ⟨site, v⟩ := c
    have hsound := ((RoleCall.commit site v).apply_leads ht).sound
    by_cases hv : v ∈ V
    · obtain ⟨l, t', hl, hrun, -, hlrank, hfamily⟩ := h.commit ht hrank hv
      have happly : RoleCall.apply t (.commit site v) = t' := by rw [RoleCall.apply, hrun site]
      rw [happly] at hsound
      have hsame : filling rank (l.slots[·]?) = some slots := by
        rw [filling_slots hlrank, ← hl, hslots]
      have hrest := ih hfamily hsound hsame
      rwa [← happly] at hrest
    · exact ih (h.commit_other ht hv site) hsound hslots

/-- A value that has the layout keeps it. -/
theorem Family.role?_of_commits {l : Layout} (h : t.Family V rank (l.slots[·]?)) (ht : t.Sound)
    (hrank : rank ≤ Slot.total) (hlrank : l.rank = rank) (hv : v ∈ V)
    (hrole : ∀ axis, t.role? v axis = l.slots[axis]?) (values : List (Site × Wire)) (axis : Nat) :
    ((Roles.commits values).foldl RoleCall.apply t).role? v axis = l.slots[axis]? := by
  have hleads := foldl_leads (Roles.commits values) ht
  obtain ⟨q, hfamily, hq⟩ := h.commits ht hrank (filling_slots hlrank) values
  rcases hd : ((Roles.commits values).foldl RoleCall.apply t).role? v axis with _ | d
  · rcases he : l.slots[axis]? with _ | e
    · rfl
    · rw [hleads.retains v axis e ((hrole axis).trans he)] at hd
      cases hd
  · have hqd := hfamily.roles v hv axis d hd
    have haxis := hfamily.lt_rank hleads.sound hqd
    exact (completeSlots_keeps hq (getElem?_map_range haxis hqd)).symm

/-! ### One layout for a family -/

theorem after_append (calls more : List RoleCall) :
    after (calls ++ more) = more.foldl RoleCall.apply (after calls) := List.foldl_append

end Roles

/-- A layout that has given slots and is filled up from the left with the first ones left. -/
structure Layout.Fills (l : Layout) (rank : Nat) (p : Nat → Option Slot) : Prop where
  /-- There is one slot per axis. -/
  rank_eq : l.rank = rank
  /-- Given slots stay. -/
  given : ∀ axis d, p axis = some d → l.slots[axis]? = some d
  /-- Every other axis has a slot that is neither given nor taken further left, and all slots before
  it are. -/
  first : ∀ axis d, p axis = none → l.slots[axis]? = some d →
    (∀ other, p other ≠ some d) ∧ (∀ other < axis, l.slots[other]? ≠ some d) ∧
      ∀ e : Slot, e.index < d.index →
        (∃ other, p other = some e) ∨ ∃ other < axis, l.slots[other]? = some e

namespace Roles

theorem fills_of_filling {l : Layout} (hlt : ∀ axis d, p axis = some d → axis < rank)
    (hinjective : ∀ i j d, p i = some d → p j = some d → i = j)
    (h : filling rank p = some l.slots) : l.Fills rank p := by
  have hrank : l.rank = rank := by
    have hlength := (completeSlots_spec (nodup_usedSlots_map_range hinjective) h).2
    rwa [List.length_map, List.length_range] at hlength
  have hgiven : ∀ axis d, p axis = some d → l.slots[axis]? = some d := by
    intro axis d hd
    exact completeSlots_keeps h (getElem?_map_range (hlt axis d hd) hd)
  refine ⟨hrank, hgiven, ?_⟩
  intro axis d hfree hd
  have haxis : axis < rank := hrank ▸ (List.getElem?_eq_some_iff.1 hd).1
  refine ⟨?_, ?_, ?_⟩
  · intro other hother
    obtain rfl := l.axis_unique (hgiven other d hother) hd
    rw [hfree] at hother
    cases hother
  · intro other hlt hother
    exact hlt.ne (l.axis_unique hother hd)
  · intro e he
    have hrole : ((List.range rank).map p)[axis]? = some none := by simp [haxis, hfree]
    rcases completeSlots_first h hrole hd he with htaken | hin
    · exact .inr htaken
    · obtain ⟨other, -, hother⟩ := List.mem_map.1 hin
      exact .inl ⟨other, hother⟩

/-- **One layout for a family.** Let a family have the slots `p`, in a table that can come about.
Then there is a layout, which has these slots and is filled up with the first ones left, such that
every commit of a value of the family succeeds with it, no matter which values were committed
before, of the family or not; and the value has the layout ever after. -/
theorem family_layout (calls : List RoleCall) (V : Set Wire) (rank : Nat) (p : Nat → Option Slot)
    (hrank : rank ≤ Slot.total) (h : (after calls).Family V rank p) :
    ∃ l : Layout, l.Fills rank p ∧
      ∀ (before later : List (Site × Wire)) (site : Site), ∀ v ∈ V,
        (∃ t', (RoleM.commit site v).run.run (after (calls ++ commits before)) = (.ok l, t')) ∧
        ∀ axis, (after (calls ++ commits (before ++ (site, v) :: later))).role? v axis =
          l.slots[axis]? := by
  have ht : (after calls).Sound := (foldl_leads calls sound_empty).sound
  obtain ⟨l, hl⟩ := h.exists_filling hrank
  refine ⟨l, fills_of_filling (fun axis d => h.lt_rank ht) h.injective hl, ?_⟩
  intro before later site v hv
  have hsound : (after (calls ++ commits before)).Sound := (foldl_leads _ sound_empty).sound
  obtain ⟨q, hfamily, hq⟩ := h.commits ht hrank hl before
  rw [← after_append] at hfamily
  obtain ⟨l', t', hl', hrun, hrole, hlrank, hfamily'⟩ := hfamily.commit hsound hrank hv
  obtain rfl : l = l' := Layout.ext_slots (Option.some.inj (hq.symm.trans hl'))
  have happly : RoleCall.apply (after (calls ++ commits before)) (.commit site v) = t' := by
    rw [RoleCall.apply, hrun site]
  have hlater : after (calls ++ commits (before ++ (site, v) :: later)) =
      (commits later).foldl RoleCall.apply t' := by
    rw [← happly, after_append, after_append]
    simp [commits]
  have hsound' : t'.Sound := happly ▸ (RoleCall.apply_leads _ hsound).sound
  refine ⟨⟨t', hrun site⟩, ?_⟩
  rw [hlater]
  exact hfamily'.role?_of_commits hsound' hrank hlrank hv hrole later

/-- Two matrices that are linked, one of which has its rows pinned after that, and a vector. -/
def twins : List RoleCall :=
  [.addOutputs [(⟨[4, 6]⟩, false)], .addOutputs [(⟨[4, 6]⟩, false)], .addOutputs [(⟨[8]⟩, false)],
    .link ⟨"Relu", "twin"⟩ ⟨0, 0⟩ ⟨1, 0⟩, .pin ⟨"Conv", "rows"⟩ ⟨1, 0⟩ 0 .channels]

/-- What is known of the twins. -/
def twinSlots (axis : Nat) : Option Slot := if axis = 0 then some .channels else none

theorem twinSlots_eq_some {axis : Nat} {d : Slot} :
    twinSlots axis = some d ↔ axis = 0 ∧ d = .channels := by
  unfold twinSlots
  split_ifs with h
  · simp [h, eq_comm]
  · simp [h]

theorem twins_family : (after twins).Family {⟨0, 0⟩, ⟨1, 0⟩} 2 twinSlots := by
  have hlinks : ∀ link ∈ (after twins).links,
      (link.2.value = ⟨0, 0⟩ ∨ link.2.value = ⟨1, 0⟩) ∧ link.2.axis = link.1.axis := by decide
  have hjoined : ∀ axis < 2, (after twins).Linked ⟨⟨0, 0⟩, axis⟩ ⟨⟨1, 0⟩, axis⟩ ∧
      (after twins).Linked ⟨⟨1, 0⟩, axis⟩ ⟨⟨0, 0⟩, axis⟩ := by
    unfold Linked
    decide
  have hfirst : (after twins).row? ⟨0, 0⟩ = some ⟨⟨[4, 6]⟩, false, [none, none]⟩ := by rfl
  have hsecond : (after twins).row? ⟨1, 0⟩ =
      some ⟨⟨[4, 6]⟩, false, [some .channels, none]⟩ := by rfl
  constructor
  case values =>
    rintro v (rfl | rfl)
    · exact ⟨_, hfirst, rfl, rfl⟩
    · exact ⟨_, hsecond, rfl, rfl⟩
  case closed =>
    intro v _ axis b hlink
    exact hlinks _ hlink
  case connected =>
    rintro v (rfl | rfl) w (rfl | rfl) axis haxis
    · exact .refl
    · exact .single (hjoined axis haxis).1
    · exact .single (hjoined axis haxis).2
    · exact .refl
  case roles =>
    rintro v (rfl | rfl) axis d hd
    · simp only [role?, hfirst] at hd
      rcases axis with _ | _ | axis <;> simp at hd
    · simp only [role?, hsecond] at hd
      rcases axis with _ | _ | axis <;> simp at hd
      exact twinSlots_eq_some.2 ⟨rfl, hd.symm⟩
  case injective =>
    intro i j d hi hj
    rw [(twinSlots_eq_some.1 hi).1, (twinSlots_eq_some.1 hj).1]
  case given =>
    intro axis d hd
    obtain ⟨rfl, rfl⟩ := twinSlots_eq_some.1 hd
    exact ⟨⟨1, 0⟩, .inr rfl, .channels, role?_eq_some.2 ⟨_, hsecond, rfl⟩⟩

/-- The twins get the pinned slot for their rows and the first one for their columns, whichever
comes first and with the vector in between. -/
theorem twins_layout :
    ∃ l : Layout, l.slots[0]? = some .channels ∧ l.slots[1]? = some .batchLength ∧
      (∃ t', (RoleM.commit ⟨"", ""⟩ ⟨0, 0⟩).run.run
        (after (twins ++ commits [(⟨"", ""⟩, ⟨1, 0⟩), (⟨"", ""⟩, ⟨2, 0⟩)])) = (.ok l, t')) ∧
      ∃ t', (RoleM.commit ⟨"", ""⟩ ⟨1, 0⟩).run.run
        (after (twins ++ commits [(⟨"", ""⟩, ⟨0, 0⟩)])) = (.ok l, t') := by
  obtain ⟨l, hfills, hcommit⟩ := family_layout twins _ 2 twinSlots (by decide) twins_family
  have hcolumns : l.slots[1]? = some .batchLength := by
    have hlength : l.slots.length = 2 := hfills.rank_eq
    have hlt : 1 < l.slots.length := by omega
    obtain ⟨-, -, hbefore⟩ := hfills.first 1 l.slots[1] rfl (List.getElem?_eq_getElem hlt)
    rw [List.getElem?_eq_getElem hlt]
    by_contra hne
    have hindex : Slot.index .batchLength < l.slots[1].index := by
      revert hne
      cases l.slots[1] <;> decide
    -- the slot before would be given or taken
    rcases hbefore .batchLength hindex with ⟨other, hother⟩ | ⟨other, hother, htaken⟩
    · cases (twinSlots_eq_some.1 hother).2
    · obtain rfl : other = 0 := by omega
      rw [hfills.given 0 .channels rfl] at htaken
      cases htaken
  refine ⟨l, hfills.given 0 .channels rfl, hcolumns, ?_, ?_⟩
  · exact (hcommit _ [] _ ⟨0, 0⟩ (.inl rfl)).1
  · exact (hcommit _ [] _ ⟨1, 0⟩ (.inr rfl)).1

end Roles

end Lamina
