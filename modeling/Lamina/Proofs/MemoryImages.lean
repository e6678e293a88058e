import Mathlib
import Lamina.Proofs.Constants
import Lamina.Proofs.Indexing

/-!
# Memory images: which element lies where

A layout puts the element of an index at a place in memory (`Layout.place`): the row-major place of
the index with its axes in memory order. Unit axes have no part in it, so that the place depends on
the axes of more than one position and their order only (`Layout.place_eq_image`). Layouts that do
not differ there have the same memory image (`Layout.place_congr`).

A buffer that lies under a layout is determined by its elements at all indices
(`Buffer.ext_elementAt`), so the operations on constants are described by the element that they have
at an index: the values in axis order (`Constant.source_get?`), the same values under another layout
(`Constant.elementAt_toLayout`), and the values repeated up to a shape
(`Broadcast.elementAt_constant`).
-/

namespace Lamina

variable {dims ix : List Nat} {l l' : Layout} {n : Nat}

/-! ### Memory order -/

namespace Layout

/-- Where the slot of an axis comes in memory. -/
def key (l : Layout) (axis : Nat) : Nat := ((l.slots[axis]?).map Slot.index).getD 0

/-- Memory order lists the axes by their slots. -/
theorem memoryOrder_sorted (hl : l.rank = n) :
    (l.memoryOrder n).Pairwise fun a b => l.key a < l.key b := by
  unfold memoryOrder
  split
  · rename_i hempty
    obtain rfl : n = 0 := by
      rw [← hl, rank, List.isEmpty_iff.1 hempty]
      rfl
    exact List.Pairwise.nil
  · rw [List.pairwise_map]
    let le : Slot × Nat → Slot × Nat → Bool := fun a b => a.1.index ≤ b.1.index
    have hle : (l.slots.zipIdx.mergeSort le).Pairwise fun a b => a.1.index ≤ b.1.index :=
      pairwise_sorted_by (fun e => e.1.index) l.slots.zipIdx
    have hne : (l.slots.zipIdx.mergeSort le).Pairwise fun a b => a.1 ≠ b.1 := by
      have hslots : l.slots.zipIdx.Pairwise fun a b => a.1 ≠ b.1 := by
        rw [← List.pairwise_map (f := Prod.fst), List.zipIdx_map_fst]
        exact l.nodup
      exact (List.mergeSort_perm l.slots.zipIdx le).symm.pairwise hslots fun h => h.symm
    refine (hle.and hne).imp_of_mem ?_
    rintro ⟨a, p⟩ ⟨b, q⟩ ha hb ⟨hle, hne⟩
    have hkey : ∀ e ∈ l.slots.zipIdx.mergeSort le, l.key e.2 = e.1.index := by
      rintro ⟨d, axis⟩ he
      have hslot : l.slots[axis]? = some d :=
        List.mk_mem_zipIdx_iff_getElem?.1 ((List.mergeSort_perm _ _).mem_iff.1 he)
      simp [key, hslot]
    rw [hkey _ ha, hkey _ hb]
    exact lt_of_le_of_ne hle fun h => hne (Slot.index_injective h)

/-- There is only one order by slots. -/
theorem eq_of_sorted {order order' : List Nat} (hperm : order.Perm order')
    (h : order.Pairwise fun a b => l.key a < l.key b)
    (h' : order'.Pairwise fun a b => l.key a < l.key b) : order = order' :=
  hperm.eq_of_pairwise (fun _ _ _ _ hab hba => absurd hab (Nat.lt_asymm hba)) h h'

theorem pairwise_of_descends {keys : List Nat} (h : descends keys = false) :
    keys.Pairwise (· ≤ ·) := by
  induction keys with
  | nil => exact .nil
  | cons a rest ih =>
    cases rest with
    | nil => exact List.pairwise_singleton _ _
    | cons b rest =>
      rw [descends, Bool.or_eq_false_iff] at h
      have hab : a ≤ b := not_lt.1 (of_decide_eq_false h.1)
      have hrest := ih h.2
      refine List.pairwise_cons.2 ⟨?_, hrest⟩
      intro c hc
      rcases List.mem_cons.1 hc with rfl | hc
      · exact hab
      · exact hab.trans ((List.pairwise_cons.1 hrest).1 c hc)

/-- Memory order is axis order unless the layout is shuffled. -/
theorem memoryOrder_of_not_shuffled (hl : l.fits n = true) (h : l.isShuffled = false) :
    l.memoryOrder n = List.range n := by
  by_cases hempty : l.isEmpty = true
  · rw [memoryOrder, if_pos hempty]
  · have hrank : l.rank = n := by simpa [fits, hempty] using hl
    refine eq_of_sorted (memoryOrder_perm hl) (memoryOrder_sorted hrank) ?_
    have hkeys := pairwise_of_descends h
    rw [List.pairwise_map, List.pairwise_iff_getElem] at hkeys
    rw [List.pairwise_iff_getElem]
    intro i j hi hj hlt
    rw [List.length_range] at hi hj
    have hi' : i < l.slots.length := hi.trans_eq hrank.symm
    have hj' : j < l.slots.length := hj.trans_eq hrank.symm
    have hne : l.slots[i].index ≠ l.slots[j].index := by
      intro heq
      exact hlt.ne ((l.nodup.getElem_inj_iff).1 (Slot.index_injective heq))
    simp only [List.getElem_range, key, List.getElem?_eq_getElem hi', List.getElem?_eq_getElem hj',
      Option.map_some, Option.getD_some]
    exact lt_of_le_of_ne (hkeys i j hi' hj' hlt) hne

/-! ### The place of an index in memory -/

/-- Where the element of an index lies in memory. -/
def place (l : Layout) (dims ix : List Nat) : Nat :=
  Lamina.place (arrangedDims (l.memoryOrder dims.length) dims)
    (arrangedIndex (l.memoryOrder dims.length) ix)

/-- Unit axes have no part in the place of an index. -/
theorem place_filter (h : Within dims ix) {order : List Nat}
    (horder : ∀ p ∈ order, p < dims.length) :
    Lamina.place (arrangedDims order dims) (arrangedIndex order ix) =
      Lamina.place (arrangedDims (order.filter fun axis => 1 < dims.getD axis 1) dims)
        (arrangedIndex (order.filter fun axis => 1 < dims.getD axis 1) ix) ∧
    positions (arrangedDims order dims) =
      positions (arrangedDims (order.filter fun axis => 1 < dims.getD axis 1) dims) := by
  induction order with
  | nil => exact ⟨rfl, rfl⟩
  | cons p order ih =>
    obtain ⟨hplace, hcount⟩ := ih fun q hq => horder q (List.mem_cons_of_mem _ hq)
    have hlt := h.getD_lt (horder p List.mem_cons_self)
    unfold arrangedDims arrangedIndex at hplace ⊢
    unfold arrangedDims at hcount
    by_cases hone : 1 < dims.getD p 1
    · rw [List.filter_cons_of_pos (by simpa using hone)]
      simp only [List.map_cons, Lamina.place, positions_cons, hplace, hcount, and_self]
    · have hd : dims.getD p 1 = 1 := by omega
      have hi : ix.getD p 0 = 0 := by omega
      rw [List.filter_cons_of_neg (by simpa using hone)]
      simp only [List.map_cons, Lamina.place, positions_cons, hd, hi, hplace, hcount, Nat.zero_mul,
        Nat.one_mul, Nat.zero_add, and_self]

theorem mem_memoryOrder (hl : l.fits dims.length = true) {p : Nat}
    (hp : p ∈ l.memoryOrder dims.length) : p < dims.length :=
  mem_range_of_perm (memoryOrder_perm hl) hp

/-- **The place of an index depends on the axes of more than one position only.** -/
theorem place_eq_image (hl : l.fits dims.length = true) (h : Within dims ix) :
    l.place dims ix = Lamina.place (arrangedDims (l.imageOrder dims) dims)
      (arrangedIndex (l.imageOrder dims) ix) :=
  (place_filter h fun _ hp => mem_memoryOrder hl hp).1

/-- Layouts that do not reorder the memory have the same memory image. -/
theorem place_congr (hl : l.fits dims.length = true) (hl' : l'.fits dims.length = true)
    (h : l.reordersMemory l' dims = false) (hix : Within dims ix) :
    l.place dims ix = l'.place dims ix := by
  have himage : l.imageOrder dims = l'.imageOrder dims := by simpa [reordersMemory] using h
  rw [place_eq_image hl hix, place_eq_image hl' hix, himage]

theorem place_of_not_shuffled (hl : l.fits dims.length = true) (h : l.isShuffled = false)
    (hix : Within dims ix) : l.place dims ix = Lamina.place dims ix := by
  rw [place, memoryOrder_of_not_shuffled hl h, arrangedDims, extents_by_axis, ← hix.length_eq,
    index_by_axis]

theorem place_lt (hl : l.fits dims.length = true) (h : Within dims ix) :
    l.place dims ix < positions dims := by
  have hlt := Lamina.place_lt (h.arranged fun _ hp => mem_memoryOrder hl hp)
  rwa [arrangedDims, positions_map_getD (memoryOrder_perm hl)] at hlt

/-- Every position in memory is the place of an index. -/
theorem exists_place (hl : l.fits dims.length = true) {k : Nat} (h : k < positions dims) :
    ∃ ix, Within dims ix ∧ l.place dims ix = k := by
  have hperm := memoryOrder_perm hl
  rw [← positions_map_getD hperm] at h
  obtain ⟨mem, hmem, hk⟩ := Lamina.exists_place h
  obtain ⟨ix, hix, rfl⟩ := exists_arrangedIndex hperm hmem
  exact ⟨ix, hix, hk⟩

end Layout

/-! ### Elements of buffers -/

namespace Buffer

variable {b b' : Buffer}

/-- The element at a position. -/
def get? (b : Buffer) (k : Nat) : Option Element :=
  match b with
  | floats v => (v[k]?).map .float
  | ints v => (v[k]?).map .int

/-- The element of an index in a buffer under a layout. -/
def elementAt (b : Buffer) (l : Layout) (dims ix : List Nat) : Option Element :=
  b.get? (l.place dims ix)

theorem elementType_rearrange (b : Buffer) (move : {α : Type} → Array α → Array α) :
    (b.rearrange move).elementType = b.elementType := by
  cases b <;> rfl

/-- Where a rule takes an element from. -/
theorem get?_rearrange {move : {α : Type} → Array α → Array α} {k j : Nat}
    (h : ∀ {α : Type} (v : Array α), v.size = b.size → (move v)[k]? = v[j]?) :
    (b.rearrange move).get? k = b.get? j := by
  cases b with
  | floats v => exact congrArg (Option.map Element.float) (h v rfl)
  | ints v => exact congrArg (Option.map Element.int) (h v rfl)

theorem ext_get? (htype : b.elementType = b'.elementType) (h : ∀ k, b.get? k = b'.get? k) :
    b = b' := by
  cases b with
  | floats v =>
    cases b' with
    | floats v' =>
      congr 1
      refine Array.ext_getElem? fun k => ?_
      exact Option.map_injective (fun _ _ h => Element.float.inj h) (h k)
    | ints v' => cases htype
  | ints v =>
    cases b' with
    | floats v' => cases htype
    | ints v' =>
      congr 1
      refine Array.ext_getElem? fun k => ?_
      exact Option.map_injective (fun _ _ h => Element.int.inj h) (h k)

theorem get?_eq_none {k : Nat} (h : b.size ≤ k) : b.get? k = none := by
  cases b with
  | floats v => rw [get?, Array.getElem?_eq_none h, Option.map_none]
  | ints v => rw [get?, Array.getElem?_eq_none h, Option.map_none]

/-- **A buffer is determined by its elements under a layout.** -/
theorem ext_elementAt (hl : l.fits dims.length = true) (htype : b.elementType = b'.elementType)
    (hsize : b.size = positions dims) (hsize' : b'.size = positions dims)
    (h : ∀ ix, Within dims ix → b.elementAt l dims ix = b'.elementAt l dims ix) : b = b' := by
  refine ext_get? htype fun k => ?_
  by_cases hk : k < positions dims
  · obtain ⟨ix, hix, rfl⟩ := Layout.exists_place hl hk
    exact h ix hix
  · rw [get?_eq_none (hsize ▸ not_lt.1 hk), get?_eq_none (hsize' ▸ not_lt.1 hk)]

end Buffer

/-! ### Elements of constants -/

namespace Constant

variable {c c' : Constant}

/-- The element of an index. -/
def elementAt (c : Constant) (ix : List Nat) : Option Element :=
  c.data.elementAt c.layout c.shape.dims ix

/-- **The values in axis order have the element of an index at its row-major place.** -/
theorem source_get? (h : Within c.shape.dims ix) :
    c.source.get? (place c.shape.dims ix) = c.elementAt ix := by
  have hperm := Layout.memoryOrder_perm c.layout_fits
  have hrank : c.shape.dims.length = c.shape.rank := rfl
  unfold source
  split
  · let order := c.layout.memoryOrder c.shape.rank
    have hlength : (arrangedDims order c.shape.dims).length = c.shape.rank := by
      simpa [arrangedDims] using hperm.length_eq
    refine Buffer.get?_rearrange fun v hv => ?_
    have hmem : Within (arrangedDims order c.shape.dims) (arrangedIndex order ix) :=
      h.arranged fun _ hp => mem_range_of_perm hperm hp
    have hsize : v.size = positions (arrangedDims order c.shape.dims) := by
      rw [hv, c.size_eq]
      exact (positions_map_getD hperm).symm
    have hinverse : (inverseOrder order).Perm
        (List.range (arrangedDims order c.shape.dims).length) := by
      rw [hlength]
      exact inverseOrder_perm hperm
    -- reading back in the inverse order puts every axis where it was
    have hback := getElem?_permuteAxes hsize hinverse hmem
    rwa [arrangedDims_inverseOrder hperm,
      arrangedIndex_inverseOrder (by rw [h.length_eq]; exact hperm)] at hback
  · rename_i hshuffled
    rw [elementAt, Buffer.elementAt,
      Layout.place_of_not_shuffled c.layout_fits (Bool.not_eq_true _ ▸ hshuffled) h]

theorem elementType_source (c : Constant) : c.source.elementType = c.data.elementType := by
  unfold source
  split
  · exact Buffer.elementType_rearrange _ _
  · rfl

theorem source_of_not_shuffled (h : c.layout.isShuffled = false) : c.source = c.data := by
  rw [source, h]
  rfl

/-- What is put together has the parts. -/
theorem parts_of_ofParts {shape : Shape} {layout : Layout} {data : Buffer}
    (h : ofParts shape layout data = .ok c) :
    c.shape = shape ∧ c.layout = layout ∧ c.data = data := by
  unfold ofParts at h
  split at h
  · split at h
    · cases h
      exact ⟨rfl, rfl, rfl⟩
    · exact absurd h Site.fail_ne_ok
  · exact absurd h Site.fail_ne_ok

/-- Values put together in axis order are the values in axis order. -/
theorem exists_ofBuffer {shape : Shape} {data : Buffer} (hs : data.size = shape.count) :
    ∃ r, ofBuffer shape data = .ok r ∧ r.shape = shape ∧ r.source = data := by
  have hopen : Layout.uncommitted.fits shape.rank = true := rfl
  obtain ⟨r, hr, hshape, hlayout, rfl⟩ :=
    (ofParts_yields (P := fun _ => False) hopen hs).exists_ok
  exact ⟨r, hr, hshape, source_of_not_shuffled (hlayout ▸ rfl)⟩

/-- **Another layout keeps the element of every index.** -/
theorem elementAt_toLayout {target : Layout} (hc : c.toLayout target = .ok c') :
    c'.shape = c.shape ∧ c'.layout = target ∧ c'.data.elementType = c.data.elementType ∧
      ∀ ix, Within c.shape.dims ix → c'.elementAt ix = c.elementAt ix := by
  unfold toLayout at hc
  split at hc
  · rename_i heq
    cases hc
    exact ⟨rfl, heq, rfl, fun _ _ => rfl⟩
  · split at hc
    · rename_i htarget
      have hperm := Layout.memoryOrder_perm htarget
      split at hc
      -- the values in axis order are laid out anew
      · obtain ⟨hshape, hlayout, hdata⟩ := parts_of_ofParts hc
        refine ⟨hshape, hlayout, ?_, fun ix hix => ?_⟩
        · rw [hdata, Buffer.elementType_rearrange, elementType_source]
        · rw [← source_get? hix, elementAt, hdata, hlayout, hshape]
          refine Buffer.get?_rearrange fun v hv => ?_
          exact getElem?_permuteAxes (hv.trans c.size_source) hperm hix
      -- both layouts have the same memory image
      · rename_i hsame
        cases hc
        refine ⟨rfl, rfl, rfl, fun ix hix => ?_⟩
        exact congrArg c.data.get? (Layout.place_congr c.layout_fits htarget
          (Bool.not_eq_true _ ▸ hsame) hix).symm
    · exact absurd hc Site.fail_ne_ok

end Constant

/-! ### Elements of broadcast constants -/

namespace Broadcast

variable {c c' : Constant} {offset : Nat} {out : Shape}

/-- **A constant repeated up to a shape** has at an index the value at this index with the axes that
are repeated at zero. -/
theorem elementAt_constant (h : Embeds c.shape offset out) (hc : constant c offset out = .ok c') :
    c'.shape = out ∧ c'.data.elementType = c.data.elementType ∧
      ∀ ix, Within out.dims ix → c'.elementAt ix =
        c.source.get? (place (embedShape c.shape offset out.rank).dims
          (clip (embedShape c.shape offset out.rank).dims ix)) := by
  obtain ⟨hrank, hstretch⟩ := h
  have hcount := count_embedShape hrank
  unfold constant at hc
  dsimp only at hc
  split at hc
  -- nothing is repeated, and the buffer lies in axis order already
  · rename_i hsame
    obtain ⟨hpadded, hshuffled⟩ := hsame
    unfold Constant.reshaped at hc
    rw [dif_pos hcount, hshuffled, if_neg Bool.false_ne_true] at hc
    cases hc
    refine ⟨hpadded, rfl, fun ix hix => ?_⟩
    rw [← hpadded] at hix
    rw [Constant.source_of_not_shuffled hshuffled, clip_self hix]
    exact congrArg c.data.get? (Layout.place_of_not_shuffled rfl rfl hix)
  · obtain ⟨hshape, hlayout, hdata⟩ := Constant.parts_of_ofParts hc
    refine ⟨hshape, ?_, fun ix hix => ?_⟩
    · rw [hdata, Buffer.elementType_rearrange, Constant.elementType_source]
    · rw [Constant.elementAt, Buffer.elementAt, hdata, hlayout, hshape,
        Layout.place_of_not_shuffled rfl rfl hix]
      refine Buffer.get?_rearrange fun v hv => ?_
      refine getElem?_repeatAxes ?_ hstretch hix
      rw [hv, Constant.size_source, ← hcount]
      rfl

end Broadcast

end Lamina
