import Mathlib
import Lamina.Operator.Lower
import Lamina.Proofs.Conversions
import Lamina.Proofs.Inference

/-!
# Unit axes in memory

Axes of one position can be dropped from a shape, from a layout and from every index alike
(`dropFrom`), and put in again, and every element stays where it is: the slots that change hands
have one position in any case (`Layout.address_drop`). In axis order the elements stay as they are,
too (`Buffer.inAxisOrder_drop`).

Which axes to drop is found out from the two shapes alone, by matching the extents of the shorter
one from the left. These need not be the axes that were meant. But they are unit axes, and without
them the longer shape is the shorter one (`dropFrom_leftoverAxes`), which is all that matters here.
-/

namespace Lamina

variable {α : Type} {axis : Nat} {axes : List Nat}

/-! ### Dropping positions -/

/-- The entries of a list, counted from `axis` on, whose positions are not among some axes. -/
def dropFrom (axis : Nat) (l : List α) (axes : List Nat) : List α :=
  ((l.zipIdx axis).filter fun e => !axes.contains e.2).map Prod.fst

theorem dropPositions_eq (l : List α) (axes : List Nat) :
    dropPositions l axes = dropFrom 0 l axes := rfl

@[simp] theorem dropFrom_nil : dropFrom axis ([] : List α) axes = [] := rfl

theorem dropFrom_cons_of_mem (h : axis ∈ axes) (a : α) (l : List α) :
    dropFrom axis (a :: l) axes = dropFrom (axis + 1) l axes := by
  simp [dropFrom, h]

theorem dropFrom_cons_of_notMem (h : axis ∉ axes) (a : α) (l : List α) :
    dropFrom axis (a :: l) axes = a :: dropFrom (axis + 1) l axes := by
  simp [dropFrom, h]

/-- How much is left depends on the length only. -/
theorem length_dropFrom {β : Type} {l : List α} {l' : List β} (h : l.length = l'.length) :
    (dropFrom axis l axes).length = (dropFrom axis l' axes).length := by
  induction l generalizing axis l' with
  | nil =>
    obtain rfl : l' = [] := List.eq_nil_of_length_eq_zero h.symm
    rfl
  | cons a l ih =>
    cases l' with
    | nil => simp at h
    | cons b l' =>
      have hrest : l.length = l'.length := by simpa using h
      by_cases hin : axis ∈ axes
      · rw [dropFrom_cons_of_mem hin, dropFrom_cons_of_mem hin]
        exact ih hrest
      · rw [dropFrom_cons_of_notMem hin, dropFrom_cons_of_notMem hin]
        simpa using ih hrest

/-- Positions before the list do not matter. -/
theorem dropFrom_cons_of_lt {other : Nat} (h : other < axis) (l : List α) :
    dropFrom axis l (other :: axes) = dropFrom axis l axes := by
  unfold dropFrom
  congr 1
  apply List.filter_congr
  rintro ⟨a, i⟩ hi
  have hle : axis ≤ i := (List.mk_mem_zipIdx_iff_le_and_getElem?_sub.1 hi).1
  have hne : ¬ i = other := by omega
  simp [hne]

/-! ### The axes that are left over -/

/-- A unit axis in front may be matched with any other. -/
theorem DropsUnits.tail {short long : List Nat} (h : DropsUnits (1 :: short) long) :
    DropsUnits short long := by
  generalize hall : 1 :: short = all at h
  induction h with
  | nil => cases hall
  | keep d h =>
    obtain ⟨rfl, rfl⟩ := List.cons.inj hall
    exact h.drop
  | drop _ ih => exact (ih hall).drop

theorem getElem?_cons_of_lt {a : Nat} (h : axis + 1 ≤ a) (d : α) (l : List α) :
    (d :: l)[a - axis]? = l[a - (axis + 1)]? := by
  obtain ⟨k, rfl⟩ := Nat.exists_eq_add_of_le h
  have hshift : axis + 1 + k - axis = k + 1 := by omega
  have hshift' : axis + 1 + k - (axis + 1) = k := by omega
  rw [hshift, hshift', List.getElem?_cons_succ]

/-- The extents that are kept, by position. -/
theorem dropFrom_eq_map (dims : List Nat) :
    dropFrom axis dims axes =
      ((List.range' axis dims.length).filter fun a => !axes.contains a).map
        fun a => dims.getD (a - axis) 1 := by
  induction dims generalizing axis with
  | nil => rfl
  | cons d dims ih =>
    have hshift : ((List.range' (axis + 1) dims.length).filter fun a => !axes.contains a).map
          (fun a => (d :: dims).getD (a - axis) 1) =
        ((List.range' (axis + 1) dims.length).filter fun a => !axes.contains a).map
          fun a => dims.getD (a - (axis + 1)) 1 := by
      apply List.map_congr_left
      intro a ha
      have hle : axis + 1 ≤ a := (List.mem_range'_1.1 (List.mem_filter.1 ha).1).1
      rw [List.getD_eq_getElem?_getD, getElem?_cons_of_lt hle, List.getD_eq_getElem?_getD]
    rw [List.length_cons, List.range'_succ]
    by_cases hin : axis ∈ axes
    · rw [dropFrom_cons_of_mem hin, List.filter_cons_of_neg (by simpa using hin), hshift, ih]
    · rw [dropFrom_cons_of_notMem hin, List.filter_cons_of_pos (by simpa using hin),
        List.map_cons, hshift, ih, Nat.sub_self, List.getD_cons_zero]

theorem Shape.dims_dropAxes (s : Shape) (axes : List Nat) :
    (s.dropAxes axes).dims = dropFrom 0 s.dims axes := by
  rw [dropFrom_eq_map, ← List.range_eq_range']
  rfl

/-- **What a match from the left leaves over** are unit axes, and what it does not leave over is the
shorter list. -/
theorem dropFrom_leftoverAxes {short long : List Nat} (h : DropsUnits short long) (axis : Nat) :
    dropFrom axis long (leftoverAxes axis short long) = short ∧
      ∀ a ∈ leftoverAxes axis short long, axis ≤ a ∧ long[a - axis]? = some 1 := by
  induction long generalizing short axis with
  | nil =>
    cases h
    simp [leftoverAxes]
  | cons d long ih =>
    -- a unit axis that is left over, in front of a match of the rest
    have hover : ∀ {short : List Nat}, DropsUnits short long →
        dropFrom axis (1 :: long) (axis :: leftoverAxes (axis + 1) short long) = short ∧
          ∀ a ∈ axis :: leftoverAxes (axis + 1) short long,
            axis ≤ a ∧ (1 :: long)[a - axis]? = some 1 := by
      intro short hrest
      obtain ⟨hkept, hunit⟩ := ih hrest (axis + 1)
      constructor
      · rw [dropFrom_cons_of_mem List.mem_cons_self, dropFrom_cons_of_lt (Nat.lt_succ_self axis)]
        exact hkept
      · intro a ha
        rcases List.mem_cons.1 ha with rfl | ha
        · simp
        · obtain ⟨hle, hone⟩ := hunit a ha
          rw [getElem?_cons_of_lt hle]
          exact ⟨by omega, hone⟩
    cases short with
    | nil =>
      cases h with
      | drop hrest => exact hover hrest
    | cons s short =>
      by_cases hsame : s = d
      · subst hsame
        have hrest : DropsUnits short long := by
          cases h with
          | keep _ hrest => exact hrest
          | drop hrest => exact hrest.tail
        obtain ⟨hkept, hunit⟩ := ih hrest (axis + 1)
        have hnot : axis ∉ leftoverAxes (axis + 1) short long := by
          intro hin
          have hle := (hunit axis hin).1
          omega
        rw [leftoverAxes, if_pos rfl, dropFrom_cons_of_notMem hnot, hkept]
        refine ⟨rfl, ?_⟩
        intro a ha
        obtain ⟨hle, hone⟩ := hunit a ha
        rw [getElem?_cons_of_lt hle]
        exact ⟨by omega, hone⟩
      · rw [leftoverAxes, if_neg hsame]
        cases h with
        | keep _ _ => exact absurd rfl hsame
        | drop hrest => exact hover hrest

/-- The axes that one shape has more than another are unit axes. -/
theorem Shape.extent_of_mem_extraAxes {short long : Shape} (h : DropsUnits short.dims long.dims)
    {a : Nat} (ha : a ∈ short.extraAxes long) : a < long.rank ∧ long.extent a = 1 := by
  obtain ⟨-, hone⟩ := (dropFrom_leftoverAxes h 0).2 a ha
  rw [Nat.sub_zero] at hone
  refine ⟨(List.getElem?_eq_some_iff.1 hone).1, ?_⟩
  simp [extent, hone]

/-! ### Elements of tensors without some unit axes -/

/-- Entries that are the default, behind the first one. -/
theorem getD_tail {n default : Nat} {values : List Nat}
    (h : ∀ a ∈ axes, axis ≤ a → (n :: values).getD (a - axis) default = default) :
    ∀ a ∈ axes, axis + 1 ≤ a → values.getD (a - (axis + 1)) default = default := by
  intro a ha hle
  have hdefault := h a ha (by omega)
  rw [List.getD_eq_getElem?_getD, getElem?_cons_of_lt hle] at hdefault
  rw [List.getD_eq_getElem?_getD, hdefault]

/-- Indices without some unit axes are the indices without these axes. -/
theorem map_dropFrom_indices {dims : List Nat}
    (hunit : ∀ a ∈ axes, axis ≤ a → dims.getD (a - axis) 1 = 1) :
    (indices dims).map (dropFrom axis · axes) = indices (dropFrom axis dims axes) := by
  induction dims generalizing axis with
  | nil => rfl
  | cons d dims ih =>
    have hrest := ih (getD_tail hunit)
    by_cases hin : axis ∈ axes
    · obtain rfl : d = 1 := by simpa using hunit axis hin le_rfl
      rw [dropFrom_cons_of_mem hin, ← hrest, indices]
      simp [dropFrom_cons_of_mem hin, Function.comp_def]
    · rw [dropFrom_cons_of_notMem hin, indices, indices, ← hrest]
      simp [dropFrom_cons_of_notMem hin, List.map_flatMap, Function.comp_def]

/-- A slot that changes hands has the default in any case. -/
theorem entry_dropFrom {slots : List Slot} {values : List Nat} {default : Nat}
    (hlength : slots.length = values.length) (hnodup : slots.Nodup)
    (hunit : ∀ a ∈ axes, axis ≤ a → values.getD (a - axis) default = default) (d : Slot) :
    (((dropFrom axis slots axes).idxOf? d).map fun i =>
      (dropFrom axis values axes).getD i default).getD default =
    ((slots.idxOf? d).map fun i => values.getD i default).getD default := by
  induction slots generalizing axis values with
  | nil => rfl
  | cons c slots ih =>
    cases values with
    | nil => simp at hlength
    | cons n values =>
      obtain ⟨hnot, hnodup⟩ := List.nodup_cons.1 hnodup
      have hrest := ih (by simpa using hlength) hnodup (getD_tail hunit)
      by_cases hin : axis ∈ axes
      · obtain rfl : n = default := by simpa using hunit axis hin le_rfl
        rw [dropFrom_cons_of_mem hin, dropFrom_cons_of_mem hin, hrest, List.idxOf?_cons]
        by_cases hc : c = d
        · subst hc
          simp [List.idxOf?_eq_none_iff.2 hnot]
        · simp [hc, Function.comp_def]
      · rw [dropFrom_cons_of_notMem hin, dropFrom_cons_of_notMem hin, List.idxOf?_cons,
          List.idxOf?_cons]
        by_cases hc : c = d
        · simp [hc]
        · simpa [hc, Function.comp_def] using hrest

namespace Layout

variable {l l' : Layout} {dims ix : List Nat}

theorem bySlot_drop {values : List Nat} {default : Nat} (hlength : l.rank = values.length)
    (hslots : l'.slots = dropPositions l.slots axes)
    (hunit : ∀ a ∈ axes, values.getD a default = default) :
    l'.bySlot (dropPositions values axes) default = l.bySlot values default := by
  apply List.map_congr_left
  intro d _
  unfold position?
  rw [hslots, dropPositions_eq, dropPositions_eq]
  apply entry_dropFrom hlength l.nodup
  intro a ha _
  exact hunit a ha

/-- For layouts with one slot per axis, addresses are row-major over the slots. -/
theorem address_eq (hl : l.rank = dims.length) :
    l.address dims ix = Lamina.place (l.bySlot dims 1) (l.bySlot ix 0) := by
  unfold address
  split
  · rename_i hempty
    have hslots : l.slots = [] := List.isEmpty_iff.1 hempty
    obtain rfl : dims = [] := by
      rw [rank, hslots] at hl
      exact List.eq_nil_of_length_eq_zero hl.symm
    have hall : ∀ (values : List Nat) (default : Nat),
        l.bySlot values default = List.replicate 7 default := by
      intro values default
      simp [bySlot, position?, hslots, Slot.all]
    rw [hall, hall, place_replicate_one]
    rfl
  · rfl

/-- **Dropping unit axes leaves every element where it is.** -/
theorem address_drop (hl : l.rank = dims.length) (hslots : l'.slots = dropPositions l.slots axes)
    (hunit : ∀ a ∈ axes, dims.getD a 1 = 1) (hix : Within dims ix) :
    l'.address (dropPositions dims axes) (dropPositions ix axes) = l.address dims ix := by
  have hrank : l'.rank = (dropPositions dims axes).length := by
    rw [rank, hslots]
    exact length_dropFrom hl
  have hzero : ∀ a ∈ axes, ix.getD a 0 = 0 := by
    intro a ha
    by_cases hlt : a < dims.length
    · have hbelow := hix.getD_lt hlt
      rw [hunit a ha] at hbelow
      omega
    · rw [← hix.length_eq] at hlt
      exact List.getD_eq_default _ _ (not_lt.1 hlt)
  rw [address_eq hrank, address_eq hl, bySlot_drop hl hslots hunit,
    bySlot_drop (hl.trans hix.length_eq.symm) hslots hzero]

end Layout

/-- **Dropping unit axes leaves the elements in axis order.** -/
theorem Buffer.inAxisOrder_drop {short long : Shape} {l l' : Layout} (b : Buffer)
    (hl : l.rank = long.rank) (hslots : l'.slots = dropPositions l.slots axes)
    (hdims : dropPositions long.dims axes = short.dims) (hunit : ∀ a ∈ axes, long.extent a = 1) :
    b.inAxisOrder short l' = b.inAxisOrder long l := by
  have hindices : (indices long.dims).map (dropPositions · axes) = indices short.dims := by
    rw [← hdims]
    apply map_dropFrom_indices
    intro a ha _
    exact hunit a ha
  unfold inAxisOrder
  rw [← hindices, List.map_map]
  apply List.map_congr_left
  intro ix hix
  rw [Function.comp_apply, ← hdims, Layout.address_drop hl hslots hunit (mem_indices.1 hix)]

/-! ### Slots for inserted axes -/

/-- Slots that are spread over more axes are still there without these axes. -/
theorem dropFrom_spreadSlots {dims : List Nat} {slots : List Slot}
    (hlength : slots.length = (dropFrom axis dims axes).length) :
    dropFrom axis (spreadSlots axes axis dims.length slots) axes = slots.map some := by
  induction dims generalizing axis slots with
  | nil =>
    obtain rfl : slots = [] := List.eq_nil_of_length_eq_zero hlength
    rfl
  | cons d dims ih =>
    rw [List.length_cons, spreadSlots]
    by_cases hin : axis ∈ axes
    · rw [dropFrom_cons_of_mem hin] at hlength
      rw [if_pos (by simpa using hin), dropFrom_cons_of_mem hin]
      exact ih hlength
    · rw [dropFrom_cons_of_notMem hin] at hlength
      rw [if_neg (by simpa using hin), dropFrom_cons_of_notMem hin]
      cases slots with
      | nil => simp at hlength
      | cons c slots =>
        rw [List.tail_cons, ih (by simpa using hlength)]
        rfl

/-- What keeps the slots of an assignment has them where the assignment has them. -/
theorem dropFrom_of_keeps {roles : List (Option Slot)} {filled slots : List Slot}
    (hlength : filled.length = roles.length)
    (hkeeps : ∀ (i : Nat) (d : Slot), roles[i]? = some (some d) → filled[i]? = some d)
    (h : dropFrom axis roles axes = slots.map some) : dropFrom axis filled axes = slots := by
  induction roles generalizing axis filled slots with
  | nil =>
    obtain rfl : filled = [] := List.eq_nil_of_length_eq_zero hlength
    rw [dropFrom_nil] at h
    rw [List.map_eq_nil_iff.1 h.symm, dropFrom_nil]
  | cons role roles ih =>
    cases filled with
    | nil => simp at hlength
    | cons e filled =>
      have hlength' : filled.length = roles.length := by simpa using hlength
      have hkeeps' : ∀ (i : Nat) (d : Slot), roles[i]? = some (some d) → filled[i]? = some d :=
        fun i d hd => hkeeps (i + 1) d hd
      by_cases hin : axis ∈ axes
      · rw [dropFrom_cons_of_mem hin] at h ⊢
        exact ih hlength' hkeeps' h
      · rw [dropFrom_cons_of_notMem hin] at h ⊢
        cases slots with
        | nil => simp at h
        | cons d slots =>
          obtain ⟨rfl, hrest⟩ := List.cons.inj h
          obtain rfl : e = d := by simpa using hkeeps 0 d rfl
          rw [ih hlength' hkeeps' hrest]

end Lamina
