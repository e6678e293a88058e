import Mathlib
import Lamina.Proofs.Adapting

/-!
# Conversions: a layer where the memory changes, and nowhere else

A blob lies in memory row-major over the seven slots in their order. Where the element of an index
lies can be said by this alone: each slot has the extent of its axis, or one position if no axis
occupies it (`Layout.address`). The axes in memory order give the same address
(`Layout.place_eq_address`), since slots without an axis have no part in it.

An order of axes of more than one position is determined by the addresses: along such an axis
neighbours lie as far apart as the later axes have positions, so that the distances decrease
(`pairwise_distance`). Layouts with another order of these axes therefore put some element elsewhere
(`Layout.reordersMemory_iff`), provided that there are elements at all.

**Theorem** (`Lowering.relayout_converts`): a change of layout appends exactly one conversion layer
if some element lies elsewhere under the new layout, and otherwise leaves the graph as it was.
-/

namespace Lamina

variable {dims ix : List Nat} {l l' : Layout}

/-! ### Addresses in a blob -/

namespace Layout

/-- The entries of a list with one per axis, slot by slot. A slot that no axis occupies has the
default. -/
def bySlot (l : Layout) (values : List Nat) (default : Nat) : List Nat :=
  Slot.all.map fun d => ((l.position? d).map fun axis => values.getD axis default).getD default

/-- Where an element lies: in axis order as long as no slots are decided, and row-major over the
slots otherwise. -/
def address (l : Layout) (dims ix : List Nat) : Nat :=
  if l.isEmpty then Lamina.place dims ix else Lamina.place (l.bySlot dims 1) (l.bySlot ix 0)

/-- Slots without an axis have no part in an address. -/
theorem place_filterMap (slots : List Slot) (axis? : Slot → Option Nat) :
    Lamina.place (slots.map fun d => ((axis? d).map fun axis => dims.getD axis 1).getD 1)
        (slots.map fun d => ((axis? d).map fun axis => ix.getD axis 0).getD 0) =
      Lamina.place (arrangedDims (slots.filterMap axis?) dims)
        (arrangedIndex (slots.filterMap axis?) ix) ∧
    positions (slots.map fun d => ((axis? d).map fun axis => dims.getD axis 1).getD 1) =
      positions (arrangedDims (slots.filterMap axis?) dims) := by
  unfold arrangedDims arrangedIndex
  induction slots with
  | nil => simp
  | cons d slots ih =>
    obtain ⟨hplace, hcount⟩ := ih
    rcases haxis : axis? d with _ | axis
    · simp only [List.map_cons, List.filterMap_cons_none haxis, haxis, Option.map_none,
        Option.getD_none, Lamina.place, positions_cons, hplace, hcount, Nat.zero_mul, Nat.zero_add,
        Nat.one_mul, and_self]
    · simp only [List.map_cons, List.filterMap_cons_some haxis, haxis, Option.map_some,
        Option.getD_some, Lamina.place, positions_cons, hplace, hcount, and_self]

/-- Going through the slots is going through the axes in memory order. -/
theorem memoryOrder_eq_filterMap {n : Nat} (hrank : l.rank = n) :
    l.memoryOrder n = Slot.all.filterMap l.position? := by
  have hsorted : (Slot.all.filterMap l.position?).Pairwise fun a b => l.key a < l.key b := by
    rw [List.pairwise_filterMap]
    have hslots : Slot.all.Pairwise fun d e => d.index < e.index := by decide
    apply hslots.imp
    intro d e hlt a ha b hb
    simpa [key, position?_eq_some.1 ha, position?_eq_some.1 hb] using hlt
  have hperm : (l.memoryOrder n).Perm (Slot.all.filterMap l.position?) := by
    have hrange := memoryOrder_perm (fits_of_rank hrank)
    have hnodup : (Slot.all.filterMap l.position?).Nodup := by
      apply hsorted.imp
      rintro a _ hlt rfl
      exact lt_irrefl _ hlt
    rw [List.perm_ext_iff_of_nodup (hrange.nodup_iff.2 List.nodup_range) hnodup]
    intro a
    rw [hrange.mem_iff, List.mem_range, List.mem_filterMap]
    constructor
    · intro ha
      have ha' : a < l.slots.length := by rwa [← hrank] at ha
      exact ⟨l.slots[a], Slot.mem_all _,
        position?_eq_some.2 (List.getElem?_eq_getElem ha')⟩
    · rintro ⟨d, -, hd⟩
      rw [← hrank]
      exact (List.getElem?_eq_some_iff.1 (position?_eq_some.1 hd)).1
  exact eq_of_sorted hperm (memoryOrder_sorted hrank) hsorted

/-- **The place of an index is its address in the blob.** -/
theorem place_eq_address (hl : l.fits dims.length = true) (hix : Within dims ix) :
    l.place dims ix = l.address dims ix := by
  rcases hempty : l.isEmpty with _ | _
  · have hrank : l.rank = dims.length := by simpa [fits, hempty] using hl
    rw [place, memoryOrder_eq_filterMap hrank, address, hempty]
    exact (place_filterMap Slot.all l.position?).1.symm
  · have hshuffled : l.isShuffled = false := by
      rw [isShuffled, List.isEmpty_iff.1 hempty]
      rfl
    rw [place_of_not_shuffled hl hshuffled hix, address, hempty]
    rfl

end Layout

/-! ### How far apart neighbours lie -/

/-- One step from the origin along an axis. -/
def unitIndex (rank axis : Nat) : List Nat :=
  (List.range rank).map fun a => if a = axis then 1 else 0

theorem getD_unitIndex {rank axis a : Nat} (ha : a < rank) :
    (unitIndex rank axis).getD a 0 = if a = axis then 1 else 0 := by
  simp [unitIndex, ha]

theorem within_unitIndex (hdims : ∀ d ∈ dims, 1 ≤ d) {axis : Nat} (haxis : 1 < dims.getD axis 1) :
    Within dims (unitIndex dims.length axis) := by
  rw [Within, List.forall₂_iff_get]
  constructor
  · simp [unitIndex]
  · intro a ha ha'
    simp only [List.get_eq_getElem, unitIndex, List.getElem_map, List.getElem_range]
    split
    · rename_i heq
      subst heq
      rwa [List.getD_eq_getElem _ _ ha] at haxis
    · exact hdims _ (List.getElem_mem ha)

/-- How far apart neighbours along an axis lie if the axes come in an order. -/
def distance (order dims : List Nat) (axis : Nat) : Nat :=
  place (arrangedDims order dims) (arrangedIndex order (unitIndex dims.length axis))

theorem distance_cons_of_ne {order : List Nat} {p axis : Nat} (hp : p < dims.length)
    (hne : p ≠ axis) : distance (p :: order) dims axis = distance order dims axis := by
  unfold distance arrangedDims arrangedIndex
  rw [List.map_cons, List.map_cons, place, getD_unitIndex hp, if_neg hne]
  simp

theorem distance_of_notMem {order : List Nat} {axis : Nat} (horder : ∀ p ∈ order, p < dims.length)
    (hnot : axis ∉ order) : distance order dims axis = 0 := by
  induction order with
  | nil => rfl
  | cons p order ih =>
    rw [List.mem_cons, not_or] at hnot
    rw [distance_cons_of_ne (horder p List.mem_cons_self) (Ne.symm hnot.1)]
    exact ih (fun q hq => horder q (List.mem_cons_of_mem p hq)) hnot.2

/-- Along the outermost axis, neighbours are a whole block of the others apart. -/
theorem distance_cons_self {order : List Nat} {axis : Nat}
    (horder : ∀ p ∈ axis :: order, p < dims.length) (hnot : axis ∉ order) :
    distance (axis :: order) dims axis = positions (arrangedDims order dims) := by
  have hrest : distance order dims axis = 0 :=
    distance_of_notMem (fun q hq => horder q (List.mem_cons_of_mem axis hq)) hnot
  unfold distance arrangedDims arrangedIndex at hrest ⊢
  rw [List.map_cons, List.map_cons, place, getD_unitIndex (horder axis List.mem_cons_self), hrest]
  simp

/-- Only axes of the tensor have more than one position. -/
theorem lt_length_of_one_lt {p : Nat} (hp : 1 < dims.getD p 1) : p < dims.length := by
  by_contra hlong
  rw [List.getD_eq_default _ _ (not_lt.1 hlong)] at hp
  exact lt_irrefl 1 hp

/-- **The distances decrease along an order** of axes of more than one position. -/
theorem pairwise_distance (hdims : ∀ d ∈ dims, 1 ≤ d) {order : List Nat}
    (horder : ∀ p ∈ order, 1 < dims.getD p 1) (hnodup : order.Nodup) :
    order.Pairwise fun p q => distance order dims q < distance order dims p := by
  induction order with
  | nil => exact List.Pairwise.nil
  | cons p order ih =>
    have hp : ∀ q ∈ p :: order, q < dims.length := fun q hq => lt_length_of_one_lt (horder q hq)
    obtain ⟨hnot, hnodup⟩ := List.nodup_cons.1 hnodup
    have hlater : ∀ q ∈ order, distance (p :: order) dims q = distance order dims q := by
      intro q hq
      apply distance_cons_of_ne (hp p List.mem_cons_self)
      rintro rfl
      exact hnot hq
    rw [List.pairwise_cons]
    constructor
    · intro q hq
      rw [hlater q hq, distance_cons_self hp hnot]
      -- one step along a later axis stays within a block
      have hstep := within_unitIndex hdims (horder q (List.mem_cons_of_mem p hq))
      exact place_lt (hstep.arranged fun a ha => hp a (List.mem_cons_of_mem p ha))
    · apply (ih (fun q hq => horder q (List.mem_cons_of_mem p hq)) hnodup).imp_of_mem
      intro a b ha hb hlt
      rwa [hlater a ha, hlater b hb]

/-! ### Layouts that differ in memory -/

namespace Layout

/-- Layouts with the same addresses have the same axes of more than one position in the same
order. -/
theorem imageOrder_eq_of_place (hl : l.fits dims.length = true) (hl' : l'.fits dims.length = true)
    (hdims : ∀ d ∈ dims, 1 ≤ d)
    (hsame : ∀ ix, Within dims ix → l.place dims ix = l'.place dims ix) :
    l.imageOrder dims = l'.imageOrder dims := by
  have hmem : ∀ p, p ∈ l.imageOrder dims ↔ p ∈ l'.imageOrder dims := by
    intro p
    rw [mem_imageOrder hl, mem_imageOrder hl']
  have hperm : (l.imageOrder dims).Perm (l'.imageOrder dims) :=
    (List.perm_ext_iff_of_nodup (nodup_imageOrder hl) (nodup_imageOrder hl')).2 hmem
  have hdistance : ∀ p ∈ l'.imageOrder dims,
      distance (l'.imageOrder dims) dims p = distance (l.imageOrder dims) dims p := by
    intro p hp
    have hstep := within_unitIndex hdims ((mem_imageOrder hl').1 hp)
    have hplaces := hsame _ hstep
    rw [place_eq_image hl hstep, place_eq_image hl' hstep] at hplaces
    exact hplaces.symm
  have hfirst :=
    pairwise_distance hdims (fun p hp => (mem_imageOrder hl).1 hp) (nodup_imageOrder hl)
  have hsecond :=
    pairwise_distance hdims (fun p hp => (mem_imageOrder hl').1 hp) (nodup_imageOrder hl')
  apply hperm.eq_of_pairwise (fun _ _ _ _ hab hba => absurd hab (Nat.lt_asymm hba)) hfirst
  apply hsecond.imp_of_mem
  intro a b ha hb hlt
  rwa [hdistance a ha, hdistance b hb] at hlt

/-- **Layouts differ in memory if and only if some element lies elsewhere**, for tensors that have
elements. -/
theorem reordersMemory_iff (hl : l.fits dims.length = true) (hl' : l'.fits dims.length = true)
    (hdims : ∀ d ∈ dims, 1 ≤ d) :
    l.reordersMemory l' dims = true ↔
      ∃ ix, Within dims ix ∧ l.address dims ix ≠ l'.address dims ix := by
  constructor
  · intro hmoves
    by_contra hnone
    have hsame : ∀ ix, Within dims ix → l.place dims ix = l'.place dims ix := by
      intro ix hix
      rw [place_eq_address hl hix, place_eq_address hl' hix]
      by_contra hne
      exact hnone ⟨ix, hix, hne⟩
    simp [reordersMemory, imageOrder_eq_of_place hl hl' hdims hsame] at hmoves
  · rintro ⟨ix, hix, hne⟩
    by_contra hkeeps
    apply hne
    rw [← place_eq_address hl hix, ← place_eq_address hl' hix]
    exact place_congr hl hl' (by simpa using hkeeps) hix

end Layout

/-! ### Changes of layout -/

/-- The elements of a tensor that lies in a buffer, in axis order. -/
def Buffer.inAxisOrder (b : Buffer) (shape : Shape) (l : Layout) : List (Option Element) :=
  (indices shape.dims).map fun ix => b.get? (l.address shape.dims ix)

/-- The elements in axis order, read at the places of their indices. -/
theorem Buffer.inAxisOrder_eq {shape : Shape} (b : Buffer) (hl : l.fits shape.rank = true) :
    b.inAxisOrder shape l = (indices shape.dims).map (b.elementAt l shape.dims) := by
  apply List.map_congr_left
  intro ix hix
  rw [elementAt, Layout.place_eq_address hl (mem_indices.1 hix)]

namespace Lowering

variable {g : LayerGraph}

/-- **A conversion layer is appended where it is needed, and nowhere else.** A run-time tensor can
be brought to every layout that fits it. If nothing is appended, every element lies where it lay
before, so that a buffer holds the same tensor under both layouts. Otherwise one layer is appended,
which converts from the layout before to the new one, and some element of a tensor that has elements
lies elsewhere under it. -/
theorem relayout_converts (name : String) (h : Handle) (target : Layout)
    (ho : g.HasOutlet h.outlet) (hlayout : h.layout.fits h.shape.rank = true)
    (htarget : target.fits h.shape.rank = true) :
    ∃ o g', (relayout name h target).run.run g = (.ok ⟨h.shape, target, o⟩, g') ∧
      ((g' = g ∧ o = h.outlet ∧
          (∀ ix, Within h.shape.dims ix →
            target.address h.shape.dims ix = h.layout.address h.shape.dims ix) ∧
          ∀ b : Buffer, b.inAxisOrder h.shape target = b.inAxisOrder h.shape h.layout) ∨
        (g' = g.push ⟨g.freshName (name ++ "/convert"), .layoutConversion h.layout target,
            [h.outlet]⟩ ∧
          o = ⟨g.size, 0⟩ ∧
          ((∀ d ∈ h.shape.dims, 1 ≤ d) → ∃ ix, Within h.shape.dims ix ∧
            target.address h.shape.dims ix ≠ h.layout.address h.shape.dims ix))) := by
  have hrun := relayout_run ho htarget name
  rcases hmoves : h.layout.reordersMemory target h.shape.dims with _ | _
  · rw [hmoves] at hrun
    have hsame : ∀ ix, Within h.shape.dims ix →
        target.address h.shape.dims ix = h.layout.address h.shape.dims ix := by
      intro ix hix
      rw [← Layout.place_eq_address htarget hix, ← Layout.place_eq_address hlayout hix]
      exact (Layout.place_congr hlayout htarget hmoves hix).symm
    have hbuffers : ∀ b : Buffer,
        b.inAxisOrder h.shape target = b.inAxisOrder h.shape h.layout := by
      intro b
      apply List.map_congr_left
      intro ix hix
      rw [hsame ix (mem_indices.1 hix)]
    exact ⟨h.outlet, g, hrun, .inl ⟨rfl, rfl, hsame, hbuffers⟩⟩
  · rw [hmoves] at hrun
    have hneeded : (∀ d ∈ h.shape.dims, 1 ≤ d) → ∃ ix, Within h.shape.dims ix ∧
        target.address h.shape.dims ix ≠ h.layout.address h.shape.dims ix := by
      intro hdims
      obtain ⟨ix, hix, hne⟩ := (Layout.reordersMemory_iff hlayout htarget hdims).1 hmoves
      exact ⟨ix, hix, hne.symm⟩
    exact ⟨_, _, hrun, .inr ⟨rfl, rfl, hneeded⟩⟩

/-- The graph that takes a tensor in. -/
def intake : LayerGraph := LayerGraph.empty.push ⟨"rows", .source, []⟩

/-- What it takes in: four rows, with the slots in the order of the axes. -/
def fourRows (columns : Nat) : Handle :=
  ⟨⟨[4, columns]⟩, ⟨[.listSize, .width], by decide⟩, ⟨0, 0⟩⟩

/-- The opposite slots. -/
def turned : Layout := ⟨[.width, .listSize], by decide⟩

/-- Four rows are converted to the opposite slots if they have two columns, and not if they have
one. -/
theorem relayout_fourRows :
    (∃ h, (relayout "turn" (fourRows 1) turned).run.run intake = (.ok h, intake)) ∧
      ∃ h g, (relayout "turn" (fourRows 2) turned).run.run intake = (.ok h, g) ∧ g.size = 2 := by
  have ho : intake.HasOutlet ⟨0, 0⟩ := LayerGraph.empty.hasOutlet_push_self rfl
  constructor
  · obtain ⟨o, g, hrun, ⟨rfl, -⟩ | ⟨-, -, hmoved⟩⟩ :=
      relayout_converts "turn" (fourRows 1) turned ho (by decide) (by decide)
    · exact ⟨_, hrun⟩
    · obtain ⟨ix, hix, hne⟩ := hmoved (by decide)
      have hsame : ∀ ix ∈ indices [4, 1],
          turned.address [4, 1] ix = (fourRows 1).layout.address [4, 1] ix := by decide
      exact absurd (hsame ix (mem_indices.2 hix)) hne
  · obtain ⟨o, g, hrun, ⟨-, -, hsame, -⟩ | ⟨rfl, -⟩⟩ :=
      relayout_converts "turn" (fourRows 2) turned ho (by decide) (by decide)
    · have hix : Within [4, 2] [0, 1] := mem_indices.1 (by decide)
      exact absurd (hsame [0, 1] hix) (by decide)
    · exact ⟨_, _, hrun, rfl⟩

end Lowering

end Lamina
