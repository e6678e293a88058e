import Mathlib
import Lamina.Fault
import Lamina.Layout.Assign
import Lamina.Proofs.Outcome

/-!
# Layouts: no slot twice, one slot per axis

A partial assignment is sound if its slots in use are distinct. Both ways of completing one keep
this true and keep its length: `claimSlots` (`claimSlots_spec`), which may leave axes free, and
`completeSlots` (`completeSlots_spec`), which gives every axis a slot or has no result. So what they
give can always be made a layout, of a rank that is known beforehand.

Which slot a free axis gets is known as well: one that it wants unless other axes have all of these
(`claimSlots_free`, `completeSlots_choice`), and otherwise the first one that is left
(`completeSlots_first`).
-/

namespace Lamina

variable {P : Fault → Prop}

/-- Sorting by a key leaves the keys in ascending order. -/
theorem pairwise_sorted_by {α : Type} (key : α → Nat) (l : List α) :
    (l.mergeSort fun a b => key a ≤ key b).Pairwise fun a b => key a ≤ key b := by
  have htrans : ∀ a b c, decide (key a ≤ key b) = true → decide (key b ≤ key c) = true →
      decide (key a ≤ key c) = true := by
    intro a b c hab hbc
    exact decide_eq_true ((of_decide_eq_true hab).trans (of_decide_eq_true hbc))
  have htotal : ∀ a b, (decide (key a ≤ key b) || decide (key b ≤ key a)) = true := by
    intro a b
    simpa using Nat.le_total (key a) (key b)
  exact (List.pairwise_mergeSort htrans htotal l).imp fun hle => of_decide_eq_true hle

/-! ### Layouts -/

theorem Layout.ofSlots_eq_ok {slots : List Slot} (h : slots.Nodup) :
    Layout.ofSlots slots = .ok ⟨slots, h⟩ := by
  rw [Layout.ofSlots, Layout.ofSlots?, dif_pos h]

theorem Layout.ofSlots_yields {slots : List Slot} (h : slots.Nodup) :
    Yields P (Layout.ofSlots slots) fun l => l.slots = slots :=
  .of_eq_ok (Layout.ofSlots_eq_ok h) rfl

/-- A layout of distinct slots has one for each axis. -/
theorem Layout.ofSlots_rank_yields {slots : List Slot} (h : slots.Nodup) :
    Yields P (Layout.ofSlots slots) fun l => l.rank = slots.length :=
  (Layout.ofSlots_yields h).imp fun _ hl => congrArg List.length hl

@[simp] theorem Layout.rank_sorted (l : Layout) : l.sorted.rank = l.rank :=
  List.length_mergeSort l.slots

theorem Layout.fits_of_rank {l : Layout} {rank : Nat} (h : l.rank = rank) : l.fits rank = true := by
  simp [Layout.fits, h]

/-- The axes in memory order are all axes, each once. -/
theorem Layout.memoryOrder_perm {l : Layout} {rank : Nat} (h : l.fits rank = true) :
    (l.memoryOrder rank).Perm (List.range rank) := by
  unfold Layout.memoryOrder
  split
  · exact List.Perm.refl _
  · rename_i hempty
    have hrank : l.slots.length = rank := by
      simpa [Layout.fits, hempty, Layout.rank] using h
    refine ((List.mergeSort_perm _ _).map _).trans ?_
    rw [List.zipIdx_map_snd, hrank, List.range_eq_range']

/-- There are not more axes than slots. -/
theorem Layout.rank_le_total (l : Layout) : l.rank ≤ Slot.total :=
  (List.subperm_of_subset l.nodup fun d _ => d.mem_all).length_le

theorem Layout.nodup_take_all (n : Nat) : (Slot.all.take n).Nodup :=
  (by decide : Slot.all.Nodup).sublist (List.take_sublist n Slot.all)

/-- A layout is determined by its slots. -/
theorem Layout.ext_slots {l l' : Layout} (h : l.slots = l'.slots) : l = l' := by
  cases l
  cases l'
  subst h
  rfl

/-- A layout gives a slot to one axis only. -/
theorem Layout.axis_unique {l : Layout} {i j : Nat} {d : Slot} (hi : l.slots[i]? = some d)
    (hj : l.slots[j]? = some d) : i = j := by
  obtain ⟨hlt, -⟩ := List.getElem?_eq_some_iff.1 hi
  exact (List.getElem?_inj hlt l.nodup).1 (hi.trans hj.symm)

theorem Layout.position?_eq_some {l : Layout} {d : Slot} {axis : Nat} :
    l.position? d = some axis ↔ l.slots[axis]? = some d := by
  unfold position?
  rw [List.idxOf?_eq_some_iff, List.getElem?_eq_some_iff]
  constructor
  · rintro ⟨hlt, hd, -⟩
    exact ⟨hlt, hd⟩
  · rintro ⟨hlt, hd⟩
    refine ⟨hlt, hd, fun j hj hsame => hj.ne ?_⟩
    exact l.nodup.getElem_inj_iff.1 (hsame.trans hd.symm)

/-! ### Slots in use -/

@[simp] theorem usedSlots_nil : usedSlots [] = [] := rfl

@[simp] theorem usedSlots_some (d : Slot) (roles : List (Option Slot)) :
    usedSlots (some d :: roles) = d :: usedSlots roles := rfl

@[simp] theorem usedSlots_none (roles : List (Option Slot)) :
    usedSlots (none :: roles) = usedSlots roles := rfl

@[simp] theorem usedSlots_append (a b : List (Option Slot)) :
    usedSlots (a ++ b) = usedSlots a ++ usedSlots b := List.filterMap_append

@[simp] theorem usedSlots_replicate_none (n : Nat) : usedSlots (List.replicate n none) = [] := by
  simp [usedSlots]

@[simp] theorem usedSlots_map_some (slots : List Slot) : usedSlots (slots.map some) = slots := by
  simp [usedSlots]

theorem mem_usedSlots {d : Slot} {roles : List (Option Slot)} :
    d ∈ usedSlots roles ↔ some d ∈ roles := by
  simp [usedSlots]

/-- A slot that is not in use can be given to every axis. -/
theorem nodup_usedSlots_set {roles : List (Option Slot)} {slot : Slot}
    (h : (usedSlots roles).Nodup) (hnew : some slot ∉ roles) (axis : Nat) :
    (usedSlots (roles.set axis (some slot))).Nodup := by
  by_cases haxis : axis < roles.length
  · have hrest : (usedSlots (roles.take axis ++ roles.drop (axis + 1))).Sublist
        (usedSlots roles) := by
      refine List.Sublist.filterMap _ ?_
      conv_rhs => rw [← List.take_append_drop axis roles]
      exact (List.drop_sublist_drop_left _ (Nat.le_succ axis)).append_left _
    have hout : slot ∉ usedSlots (roles.take axis ++ roles.drop (axis + 1)) := fun hin =>
      hnew (mem_usedSlots.1 (hrest.mem hin))
    rw [List.set_eq_take_append_cons_drop, if_pos haxis, usedSlots_append, usedSlots_some,
      List.nodup_middle, List.nodup_cons, ← usedSlots_append]
    exact ⟨hout, h.sublist hrest⟩
  · rwa [List.set_eq_of_length_le (not_lt.1 haxis)]

/-- At the other axes it does not matter what one axis has. -/
theorem getElem?_fill_of_ne {done rest : List (Option Slot)} {axis : Nat} (x y : Option Slot)
    (h : axis ≠ done.length) : (done ++ x :: rest)[axis]? = (done ++ y :: rest)[axis]? := by
  rw [List.getElem?_append, List.getElem?_append]
  split_ifs with hlt
  · rfl
  · obtain ⟨k, hk⟩ : ∃ k, axis - done.length = k + 1 := ⟨axis - done.length - 1, by omega⟩
    simp [hk]

/-- Filling a free axis leaves the slots of the others. -/
theorem getElem?_fill {done rest : List (Option Slot)} {axis : Nat} {d : Slot} (new : Option Slot)
    (h : (done ++ none :: rest)[axis]? = some (some d)) :
    (done ++ new :: rest)[axis]? = some (some d) := by
  by_cases haxis : axis = done.length
  · simp [haxis] at h
  · rwa [getElem?_fill_of_ne new none haxis]

/-! ### Claiming -/

theorem notMem_of_find? {used wanted : List Slot} {d : Slot}
    (h : (wanted.find? fun d => !used.contains d) = some d) : d ∉ used := by
  have := List.find?_some h
  simpa using this

/-- A claim adds a slot that is not in use, or none. -/
theorem claimFrom_spec (done : List (Option Slot)) (rest : List (Option Slot × List Slot))
    (h : (usedSlots (done ++ rest.map Prod.fst)).Nodup) :
    (usedSlots (claimFrom done rest)).Nodup ∧
      (claimFrom done rest).length = done.length + rest.length := by
  fun_induction claimFrom done rest with
  | case1 done => exact ⟨by simpa using h, rfl⟩
  | case2 done d wanted rest ih =>
    obtain ⟨hnodup, hlength⟩ := ih (by simpa using h)
    refine ⟨hnodup, hlength.trans ?_⟩
    simp only [List.length_append, List.length_cons, List.length_nil]
    omega
  | case3 done wanted rest used ih =>
    have hused : (usedSlots (done ++ [wanted.find? fun d => !used.contains d] ++
        rest.map Prod.fst)).Nodup := by
      cases hfind : wanted.find? fun d => !used.contains d with
      | none => simpa using h
      | some d =>
        have hout : d ∉ used := notMem_of_find? hfind
        simp only [List.map_cons, usedSlots_append, usedSlots_none] at h
        simp only [usedSlots_append, usedSlots_some, List.append_assoc,
          List.singleton_append]
        rw [List.nodup_middle, List.nodup_cons, ← usedSlots_append]
        exact ⟨hout, by simpa using h⟩
    obtain ⟨hnodup, hlength⟩ := ih hused
    refine ⟨hnodup, hlength.trans ?_⟩
    simp only [List.length_append, List.length_cons, List.length_nil]
    omega

/-- Claiming keeps the slots distinct and the axes as many as they are. -/
theorem claimSlots_spec {roles : List (Option Slot)} {wanted : List (List Slot)}
    (h : (usedSlots roles).Nodup) (hlength : roles.length = wanted.length) :
    (usedSlots (claimSlots roles wanted)).Nodup ∧
      (claimSlots roles wanted).length = roles.length := by
  have hroles : (roles.zip wanted).map Prod.fst = roles := List.map_fst_zip hlength.le
  obtain ⟨hnodup, hlen⟩ := claimFrom_spec [] (roles.zip wanted) (by simpa [hroles] using h)
  refine ⟨hnodup, hlen.trans ?_⟩
  rw [List.length_zip, hlength]
  simp

/-- A slot that is in use stays where it is. -/
theorem claimFrom_keeps (done : List (Option Slot)) (rest : List (Option Slot × List Slot))
    {axis : Nat} {d : Slot} (h : (done ++ rest.map Prod.fst)[axis]? = some (some d)) :
    (claimFrom done rest)[axis]? = some (some d) := by
  fun_induction claimFrom done rest with
  | case1 done => simpa using h
  | case2 done e wanted rest ih => exact ih (by simpa using h)
  | case3 done wanted rest used ih =>
    apply ih
    rw [List.append_assoc]
    exact getElem?_fill _ h

theorem claimSlots_keeps {roles : List (Option Slot)} {wanted : List (List Slot)} {axis : Nat}
    {d : Slot} (hlength : roles.length = wanted.length) (h : roles[axis]? = some (some d)) :
    (claimSlots roles wanted)[axis]? = some (some d) := by
  apply claimFrom_keeps
  rwa [List.nil_append, List.map_fst_zip hlength.le]

/-- A slot that is claimed was in use, or was wanted by the free axis that has it now. -/
theorem claimFrom_origin (done : List (Option Slot)) (rest : List (Option Slot × List Slot))
    {axis : Nat} {d : Slot} (h : (claimFrom done rest)[axis]? = some (some d)) :
    (done ++ rest.map Prod.fst)[axis]? = some (some d) ∨
      ∃ k ws, axis = done.length + k ∧ rest[k]? = some (none, ws) ∧ d ∈ ws := by
  fun_induction claimFrom done rest with
  | case1 done => exact .inl (by simpa using h)
  | case2 done e wanted rest ih =>
    rcases ih h with hin | ⟨k, ws, rfl, hk, hd⟩
    · exact .inl (by simpa using hin)
    · exact .inr ⟨k + 1, ws, by simp; omega, hk, hd⟩
  | case3 done wanted rest used ih =>
    rcases ih h with hin | ⟨k, ws, rfl, hk, hd⟩
    · rw [List.append_assoc, List.singleton_append] at hin
      by_cases haxis : axis = done.length
      · have hfound : (wanted.find? fun d => !used.contains d) = some d := by
          simpa [haxis] using hin
        exact .inr ⟨0, wanted, haxis, rfl, List.mem_of_find?_eq_some hfound⟩
      · left
        rw [List.map_cons, ← hin]
        exact getElem?_fill_of_ne none _ haxis
    · exact .inr ⟨k + 1, ws, by simp; omega, hk, hd⟩

/-- A free axis claims a slot that it wants, unless all of them have gone to other axes. -/
theorem claimFrom_free (done : List (Option Slot)) (rest : List (Option Slot × List Slot)) :
    ∀ k ws, rest[k]? = some (none, ws) →
      (∃ d ∈ ws, (claimFrom done rest)[done.length + k]? = some (some d)) ∨
        ∀ d ∈ ws, ∃ other ≠ done.length + k, (claimFrom done rest)[other]? = some (some d) := by
  fun_induction claimFrom done rest with
  | case1 done => simp
  | case2 done e wanted rest ih =>
    intro k ws h
    cases k with
    | zero => simp at h
    | succ k =>
      have hrest := ih k ws h
      rwa [List.length_append, List.length_singleton, Nat.add_assoc, Nat.add_comm 1 k] at hrest
  | case3 done wanted rest used ih =>
    intro k ws h
    cases k with
    | succ k =>
      have hrest := ih k ws h
      rwa [List.length_append, List.length_singleton, Nat.add_assoc, Nat.add_comm 1 k] at hrest
    | zero =>
      obtain rfl : wanted = ws := by simpa using h
      rcases hfind : wanted.find? fun d => !used.contains d with _ | d
      · right
        intro d hd
        -- a wanted slot that was not found is in use somewhere else
        have hused : d ∈ used := by
          simpa using List.find?_eq_none.1 hfind d hd
        obtain ⟨i, hi⟩ := List.mem_iff_getElem?.1 (mem_usedSlots.1 hused)
        rw [List.getElem?_append] at hi
        split_ifs at hi with hlt
        · refine ⟨i, by omega, claimFrom_keeps _ _ ?_⟩
          rw [List.append_assoc, List.getElem?_append_left hlt]
          exact hi
        · refine ⟨i + 1, by omega, claimFrom_keeps _ _ ?_⟩
          rw [List.append_assoc, List.getElem?_append_right (by omega), Nat.succ_sub (by omega)]
          exact hi
      · left
        refine ⟨d, List.mem_of_find?_eq_some hfind, claimFrom_keeps _ _ ?_⟩
        simp

theorem claimSlots_origin {roles : List (Option Slot)} {wanted : List (List Slot)} {axis : Nat}
    {d : Slot} (hlength : roles.length = wanted.length)
    (h : (claimSlots roles wanted)[axis]? = some (some d)) :
    roles[axis]? = some (some d) ∨
      ∃ ws, roles[axis]? = some none ∧ wanted[axis]? = some ws ∧ d ∈ ws := by
  rcases claimFrom_origin _ _ h with hin | ⟨k, ws, rfl, hk, hd⟩
  · rw [List.nil_append, List.map_fst_zip hlength.le] at hin
    exact .inl hin
  · obtain ⟨hrole, hws⟩ := List.getElem?_zip_eq_some.1 hk
    rw [List.length_nil, Nat.zero_add]
    exact .inr ⟨ws, hrole, hws, hd⟩

theorem claimSlots_free {roles : List (Option Slot)} {wanted : List (List Slot)} {axis : Nat}
    {ws : List Slot} (hfree : roles[axis]? = some none) (hwanted : wanted[axis]? = some ws) :
    (∃ d ∈ ws, (claimSlots roles wanted)[axis]? = some (some d)) ∨
      ∀ d ∈ ws, ∃ other ≠ axis, (claimSlots roles wanted)[other]? = some (some d) := by
  have h := claimFrom_free [] (roles.zip wanted) axis ws
    (List.getElem?_zip_eq_some.2 ⟨hfree, hwanted⟩)
  rwa [List.length_nil, Nat.zero_add] at h

/-- Without free axes nothing is claimed. -/
theorem claimSlots_map_some {slots : List Slot} {wanted : List (List Slot)}
    (h : slots.length = wanted.length) : claimSlots (slots.map some) wanted = slots.map some := by
  have hfrom : ∀ (done : List (Option Slot)) (slots : List Slot) (wanted : List (List Slot)),
      slots.length = wanted.length →
        claimFrom done ((slots.map some).zip wanted) = done ++ slots.map some := by
    intro done slots
    induction slots generalizing done with
    | nil => simp [claimFrom]
    | cons d slots ih =>
      intro wanted hlength
      cases wanted with
      | nil => simp at hlength
      | cons ws wanted =>
        rw [List.map_cons, List.zip_cons_cons, claimFrom, ih _ _ (by simpa using hlength),
          List.append_assoc]
        rfl
  exact hfrom [] slots wanted h

/-! ### Completing -/

theorem chooseSlot_notMem {used : List Slot} {wanted : Option Slot} {d : Slot}
    (h : chooseSlot used wanted = some d) : d ∉ used := by
  unfold chooseSlot at h
  split at h
  · rename_i w hw
    obtain rfl := Option.some.inj h
    have := (Option.filter_eq_some_iff.1 hw).2
    simpa using this
  · exact notMem_of_find? h

/-- One axis: it keeps the slot that it has, or is free and one is chosen for it. -/
theorem completeFrom_cons {wanted done slots : List Slot} {role : Option Slot}
    {rest : List (Option Slot)} (h : completeFrom wanted done (role :: rest) = some slots) :
    ∃ c, (role = some c ∨
        role = none ∧ chooseSlot (done ++ usedSlots rest) wanted[done.length]? = some c) ∧
      completeFrom wanted (done ++ [c]) rest = some slots := by
  cases role with
  | some c => exact ⟨c, .inl rfl, h⟩
  | none =>
    obtain ⟨c, hc, hrest⟩ := Option.bind_eq_some_iff.1 h
    exact ⟨c, .inr ⟨rfl, hc⟩, hrest⟩

theorem completeFrom_spec {wanted done slots : List Slot} {roles : List (Option Slot)}
    (h : (done ++ usedSlots roles).Nodup) (hslots : completeFrom wanted done roles = some slots) :
    slots.Nodup ∧ slots.length = done.length + roles.length := by
  induction roles generalizing done with
  | nil =>
    obtain rfl := Option.some.inj hslots
    exact ⟨by simpa using h, rfl⟩
  | cons role rest ih =>
    obtain ⟨c, hrole, hrun⟩ := completeFrom_cons hslots
    have hused : (done ++ [c] ++ usedSlots rest).Nodup := by
      rcases hrole with rfl | ⟨rfl, hc⟩
      · simpa using h
      · rw [List.append_assoc, List.singleton_append, List.nodup_middle, List.nodup_cons]
        exact ⟨chooseSlot_notMem hc, by simpa using h⟩
    obtain ⟨hnodup, hlength⟩ := ih hused hrun
    refine ⟨hnodup, hlength.trans ?_⟩
    simp only [List.length_append, List.length_cons, List.length_nil]
    omega

theorem completeFrom_keeps {wanted done slots : List Slot} {roles : List (Option Slot)} {axis : Nat}
    {d : Slot} (hslots : completeFrom wanted done roles = some slots)
    (h : (done.map some ++ roles)[axis]? = some (some d)) : slots[axis]? = some d := by
  induction roles generalizing done with
  | nil =>
    obtain rfl := Option.some.inj hslots
    simpa using h
  | cons role rest ih =>
    obtain ⟨c, hrole, hrun⟩ := completeFrom_cons hslots
    apply ih hrun
    rw [List.map_append, List.append_assoc]
    rcases hrole with rfl | ⟨rfl, -⟩
    · exact h
    · exact getElem?_fill (some c) h

/-- A slot that is in use stays where it is. -/
theorem completeSlots_keeps {wanted slots : List Slot} {roles : List (Option Slot)} {axis : Nat}
    {d : Slot} (hslots : completeSlots wanted roles = some slots)
    (h : roles[axis]? = some (some d)) : slots[axis]? = some d :=
  completeFrom_keeps hslots (by simpa using h)

/-- As long as not all slots are in use, there is one that is not. -/
theorem isSome_chooseSlot {used : List Slot} (h : used.length < Slot.total) (wanted : Option Slot) :
    (chooseSlot used wanted).isSome := by
  unfold chooseSlot
  split
  · rfl
  · rw [Slot.firstOutside, List.find?_isSome]
    by_contra hnone
    push Not at hnone
    have hsubset : Slot.all ⊆ used := by
      intro d hd
      simpa using hnone d hd
    have hlength := (List.subperm_of_subset (by decide : Slot.all.Nodup) hsubset).length_le
    exact absurd h (not_lt.2 hlength)

theorem isSome_completeFrom {wanted done : List Slot} {roles : List (Option Slot)}
    (h : done.length + roles.length ≤ Slot.total) : (completeFrom wanted done roles).isSome := by
  induction roles generalizing done with
  | nil => rfl
  | cons role rest ih =>
    have hrest (d : Slot) : (completeFrom wanted (done ++ [d]) rest).isSome := by
      apply ih
      simp only [List.length_append, List.length_cons, List.length_nil] at h ⊢
      omega
    cases role with
    | some d => exact hrest d
    | none =>
      have hused : (done ++ usedSlots rest).length < Slot.total := by
        have : (usedSlots rest).length ≤ rest.length := List.length_filterMap_le id rest
        simp only [List.length_append, List.length_cons] at h ⊢
        omega
      obtain ⟨d, hd⟩ := Option.isSome_iff_exists.1 (isSome_chooseSlot hused wanted[done.length]?)
      rw [completeFrom, hd]
      exact hrest d

/-- An assignment can be completed if there are not more axes than slots. -/
theorem isSome_completeSlots {wanted : List Slot} {roles : List (Option Slot)}
    (h : roles.length ≤ Slot.total) : (completeSlots wanted roles).isSome :=
  isSome_completeFrom (by simpa using h)

/-- A completed assignment has distinct slots, one per axis. -/
theorem completeSlots_spec {wanted slots : List Slot} {roles : List (Option Slot)}
    (h : (usedSlots roles).Nodup) (hslots : completeSlots wanted roles = some slots) :
    slots.Nodup ∧ slots.length = roles.length := by
  have hstart : ([] ++ usedSlots roles).Nodup := h
  obtain ⟨hnodup, hlength⟩ := completeFrom_spec hstart hslots
  exact ⟨hnodup, by simpa using hlength⟩

/-- So has one that is completed after its axes have claimed what they want. -/
theorem completeSlots_claimSlots_spec {wanted slots : List Slot} {roles : List (Option Slot)}
    {claims : List (List Slot)} (h : (usedSlots roles).Nodup)
    (hlength : roles.length = claims.length)
    (hslots : completeSlots wanted (claimSlots roles claims) = some slots) :
    slots.Nodup ∧ slots.length = roles.length := by
  obtain ⟨hclaimed, hroles⟩ := claimSlots_spec h hlength
  obtain ⟨hnodup, hrank⟩ := completeSlots_spec hclaimed hslots
  exact ⟨hnodup, hrank.trans hroles⟩

/-- An assignment without free axes is complete. -/
theorem completeSlots_map_some (wanted slots : List Slot) :
    completeSlots wanted (slots.map some) = some slots := by
  have hfrom : ∀ done, completeFrom wanted done (slots.map some) = some (done ++ slots) := by
    induction slots with
    | nil => simp [completeFrom]
    | cons d slots ih =>
      intro done
      rw [List.map_cons, completeFrom, ih, List.append_assoc]
      rfl
  exact hfrom []

/-- The first slot outside of some comes before all others outside. -/
theorem mem_of_lt_firstOutside {used : List Slot} {d e : Slot}
    (h : Slot.firstOutside used = some d) (hlt : e.index < d.index) : e ∈ used := by
  obtain ⟨-, front, back, hall, hfront⟩ := List.find?_eq_some_iff_append.1 h
  have hsorted : Slot.all.Pairwise fun a b => a.index < b.index := by decide
  have he := e.mem_all
  rw [hall] at hsorted he
  rcases List.mem_append.1 he with he | he
  · simpa using hfront e he
  · rcases List.mem_cons.1 he with rfl | he
    · exact absurd hlt (lt_irrefl _)
    · have hback := (List.pairwise_cons.1 (List.pairwise_append.1 hsorted).2.1).1 e he
      exact absurd hlt (Nat.lt_asymm hback)

/-- The slot for a free axis is the wanted one, unless this is in use, and so are all slots before
the one that is chosen. -/
theorem chooseSlot_choice {used : List Slot} {wanted : Option Slot} {d : Slot}
    (h : chooseSlot used wanted = some d) :
    wanted = some d ∨ ∀ e, wanted = some e ∨ e.index < d.index → e ∈ used := by
  unfold chooseSlot at h
  split at h
  · rename_i w hw
    obtain rfl := Option.some.inj h
    exact .inl (Option.filter_eq_some_iff.1 hw).1
  · rename_i hnone
    refine .inr fun e he => ?_
    rcases he with rfl | hlt
    · simpa [Option.filter] using hnone
    · exact mem_of_lt_firstOutside h hlt

theorem completeFrom_choice {wanted done slots : List Slot} {roles : List (Option Slot)} {k : Nat}
    {d : Slot} (hslots : completeFrom wanted done roles = some slots) (hk : roles[k]? = some none)
    (hd : slots[done.length + k]? = some d) :
    wanted[done.length + k]? = some d ∨
      ∀ e, wanted[done.length + k]? = some e ∨ e.index < d.index →
        (∃ i < done.length + k, slots[i]? = some e) ∨ some e ∈ roles := by
  induction roles generalizing done k with
  | nil => simp at hk
  | cons role rest ih =>
    obtain ⟨c, hrole, hrun⟩ := completeFrom_cons hslots
    cases k with
    | zero =>
      obtain rfl : role = none := by simpa using hk
      have hc : chooseSlot (done ++ usedSlots rest) wanted[done.length]? = some c := by
        simpa using hrole
      have hkept : slots[done.length]? = some c := completeFrom_keeps hrun (by simp)
      obtain rfl : c = d := by
        rw [Nat.add_zero, hkept] at hd
        exact Option.some.inj hd
      refine (chooseSlot_choice hc).imp_right fun h e he => ?_
      rcases List.mem_append.1 (h e he) with hdone | hlater
      · obtain ⟨i, hlength, hi⟩ := List.mem_iff_getElem.1 hdone
        left
        refine ⟨i, hlength, completeFrom_keeps hrun ?_⟩
        simp [List.getElem?_append, hlength, hi]
      · exact .inr (List.mem_cons_of_mem _ (mem_usedSlots.1 hlater))
    | succ k =>
      have hshift : (done ++ [c]).length + k = done.length + (k + 1) := by
        simp
        omega
      have hrest := ih hrun hk (by rwa [hshift])
      rw [hshift] at hrest
      exact hrest.imp_right fun h e he => (h e he).imp_right (List.mem_cons_of_mem _)

/-- **A free axis gets the slot that is wanted for it**, unless this belongs to an axis further left
or was in use, and then the first slot of which neither is true. -/
theorem completeSlots_choice {wanted slots : List Slot} {roles : List (Option Slot)} {axis : Nat}
    {d : Slot} (hslots : completeSlots wanted roles = some slots) (hfree : roles[axis]? = some none)
    (hd : slots[axis]? = some d) :
    wanted[axis]? = some d ∨ ∀ e, wanted[axis]? = some e ∨ e.index < d.index →
      (∃ other < axis, slots[other]? = some e) ∨ some e ∈ roles := by
  have h := completeFrom_choice hslots hfree (by simpa using hd)
  simpa using h

/-- **A free axis gets the first slot that is left**: those before it belong to axes further left,
or were in use. -/
theorem completeSlots_first {slots : List Slot} {roles : List (Option Slot)} {axis : Nat}
    {d e : Slot} (hslots : completeSlots [] roles = some slots) (hfree : roles[axis]? = some none)
    (hd : slots[axis]? = some d) (hlt : e.index < d.index) :
    (∃ other < axis, slots[other]? = some e) ∨ some e ∈ roles := by
  rcases completeSlots_choice hslots hfree hd with hwanted | h
  · simp at hwanted
  · exact h e (.inr hlt)

end Lamina
