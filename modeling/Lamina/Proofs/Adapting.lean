import Mathlib
import Lamina.Proofs.Layers
import Lamina.Proofs.MemoryImages

/-!
# Adapting tensors: constants and run-time tensors agree

There are two ways of bringing a tensor to a shape and a layout. A constant is rearranged in memory.
A run-time tensor is seen with unit axes around it, and then gets a broadcast layer if the extents
still differ and a conversion layer if the memory image does.

What the layers do is said index by index, without regard to how constants are rearranged
(`LayerKind.compute?`): a broadcast has at an index the element at that index with the repeated axes
at zero, and a conversion has the same elements under another layout.

**Theorem** (`Lowering.fit_spec`): both ways succeed on a tensor with one slot per axis, and the
layers of the second, run on the buffer of the constant, give the buffer of the first.

The argument has three parts. Unit axes around a tensor do not move an element, as long as its axes
keep their slots (`Layout.place_pad`). So the elements of the padded constant are those of the
constant (`Broadcast.elementAt_embedded`). And from there on both ways have the same element at each
index, which determines the buffer.
-/

namespace Lamina

variable {α : Type} {dims ix : List Nat} {l l' : Layout} {g g' : LayerGraph}

/-! ### What the layers do -/

namespace Layout

/-- All indices in the order in which their elements lie in memory. -/
def memoryIndices (l : Layout) (dims : List Nat) : List (List Nat) :=
  (indices (arrangedDims (l.memoryOrder dims.length) dims)).map
    (arrangedIndex (inverseOrder (l.memoryOrder dims.length)))

theorem length_memoryIndices (hl : l.fits dims.length = true) :
    (l.memoryIndices dims).length = positions dims := by
  rw [memoryIndices, List.length_map, length_indices, arrangedDims,
    positions_map_getD (memoryOrder_perm hl)]

theorem within_of_mem_memoryIndices (hl : l.fits dims.length = true)
    (h : ix ∈ l.memoryIndices dims) : Within dims ix := by
  have hperm := memoryOrder_perm hl
  obtain ⟨mem, hmem, rfl⟩ := List.mem_map.1 h
  obtain ⟨ix, hix, rfl⟩ := exists_arrangedIndex hperm (mem_indices.1 hmem)
  rwa [arrangedIndex_inverseOrder (by rwa [hix.length_eq])]

/-- The index at the place of an index. -/
theorem getElem?_memoryIndices (hl : l.fits dims.length = true) (h : Within dims ix) :
    (l.memoryIndices dims)[l.place dims ix]? = some ix := by
  have hperm := memoryOrder_perm hl
  have harranged := h.arranged fun _ hp => mem_memoryOrder hl hp
  rw [memoryIndices, place, List.getElem?_map, getElem?_indices harranged, Option.map_some,
    arrangedIndex_inverseOrder (by rwa [h.length_eq])]

end Layout

namespace Constant

variable {c : Constant} {shape : Shape} {layout : Layout} {origin : List Nat → List Nat}

/-- The elements in memory order, each taken from the index of its origin in the constant. -/
def gathered (c : Constant) (shape : Shape) (layout : Layout) (origin : List Nat → List Nat) :
    Buffer :=
  c.data.rearrange fun v => ((layout.memoryIndices shape.dims).filterMap fun ix =>
    v[c.layout.place c.shape.dims (origin ix)]?).toArray

/-- Every element that is to be taken is there. -/
theorem isSome_origin (hl : layout.fits shape.rank = true)
    (horigin : ∀ ix, Within shape.dims ix → Within c.shape.dims (origin ix)) {v : Array α}
    (hv : v.size = c.data.size) :
    ∀ ix ∈ layout.memoryIndices shape.dims,
      (v[c.layout.place c.shape.dims (origin ix)]?).isSome := by
  intro ix hix
  have hwithin := horigin ix (Layout.within_of_mem_memoryIndices hl hix)
  have hlt : c.layout.place c.shape.dims (origin ix) < v.size := by
    rw [hv, c.size_eq]
    exact Layout.place_lt c.layout_fits hwithin
  rw [Array.getElem?_eq_getElem hlt]
  rfl

theorem size_gathered (hl : layout.fits shape.rank = true)
    (horigin : ∀ ix, Within shape.dims ix → Within c.shape.dims (origin ix)) :
    (c.gathered shape layout origin).size = shape.count := by
  refine Buffer.size_rearrange fun v hv => ?_
  rw [List.size_toArray, List.filterMap_length_eq_length.2 (isSome_origin hl horigin hv)]
  exact Layout.length_memoryIndices hl

/-- The tensor of a shape under a layout whose elements have their origin in a constant. -/
def gather (c : Constant) (shape : Shape) (layout : Layout) (origin : List Nat → List Nat)
    (hl : layout.fits shape.rank = true)
    (horigin : ∀ ix, Within shape.dims ix → Within c.shape.dims (origin ix)) : Constant :=
  ⟨shape, layout, c.gathered shape layout origin, hl, size_gathered hl horigin⟩

theorem elementType_gather (hl : layout.fits shape.rank = true)
    (horigin : ∀ ix, Within shape.dims ix → Within c.shape.dims (origin ix)) :
    (c.gather shape layout origin hl horigin).data.elementType = c.data.elementType := by
  show (c.gathered shape layout origin).elementType = c.data.elementType
  rw [gathered, Buffer.elementType_rearrange]

/-- **The element of an index is the one of its origin.** -/
theorem elementAt_gather (hl : layout.fits shape.rank = true)
    (horigin : ∀ ix, Within shape.dims ix → Within c.shape.dims (origin ix))
    (h : Within shape.dims ix) :
    (c.gather shape layout origin hl horigin).elementAt ix = c.elementAt (origin ix) := by
  show (c.gathered shape layout origin).get? (layout.place shape.dims ix) =
    c.data.get? (c.layout.place c.shape.dims (origin ix))
  refine Buffer.get?_rearrange fun v hv => ?_
  rw [List.getElem?_toArray, getElem?_filterMap (isSome_origin hl horigin hv),
    Layout.getElem?_memoryIndices hl h]
  rfl

end Constant

instance (dims target : List Nat) : Decidable (Stretches dims target) :=
  inferInstanceAs (Decidable (List.Forall₂ _ dims target))

theorem Layout.fits_of_stretches {shape out : Shape} (hl : l.fits shape.rank = true)
    (h : Stretches shape.dims out.dims) : l.fits out.rank = true := by
  rwa [show out.rank = shape.rank from h.length_eq.symm]

/-- What a layer makes of a blob, the blob being given as a constant under its shape and layout.
Only the layers that adapt a tensor are described. -/
def LayerKind.compute? (kind : LayerKind) (x : Constant) : Option Constant :=
  match kind with
  | .broadcast out =>
    if h : Stretches x.shape.dims out.dims then
      some (x.gather out x.layout (clip x.shape.dims) (Layout.fits_of_stretches x.layout_fits h)
        fun _ hix => hix.clip h)
    else none
  | .layoutConversion old target =>
    if h : x.layout = old ∧ target.fits x.shape.rank = true then
      some (x.gather x.shape target id h.2 fun _ hix => hix)
    else none
  | _ => none

/-- Layers one behind another. -/
def LayerKind.run? (kinds : List LayerKind) (x : Constant) : Option Constant :=
  kinds.foldlM (fun y kind => kind.compute? y) x

/-- A graph to which layers were appended, the first reading the outlet `o` and each of the others
the one before it. The last of them has the outlet at the end. -/
inductive LayerGraph.Chain : LayerGraph → Outlet → List LayerKind → LayerGraph → Outlet → Prop
  | nil {g : LayerGraph} {o : Outlet} : Chain g o [] g o
  | cons {g g' : LayerGraph} {o o' : Outlet} {kind : LayerKind} {kinds : List LayerKind}
      (name : String) : Chain (g.push ⟨name, kind, [o]⟩) ⟨g.size, 0⟩ kinds g' o' →
      Chain g o (kind :: kinds) g' o'

/-! ### Unit axes around a tensor -/

/-- A list with a filling around it. -/
def pad (fill : α) (front : Nat) (l : List α) (back : Nat) : List α :=
  List.replicate front fill ++ l ++ List.replicate back fill

variable {front back : Nat}

theorem getD_replicate_self (fill : α) (n p : Nat) :
    (List.replicate n fill).getD p fill = fill := by
  by_cases hp : p < n
  · exact List.getD_replicate fill hp
  · exact List.getD_eq_default _ _ (by simpa using hp)

theorem getD_pad (fill : α) (front : Nat) (l : List α) (back p : Nat) :
    (pad fill front l back).getD p fill = if front ≤ p then l.getD (p - front) fill else fill := by
  unfold pad
  split
  · rename_i hp
    rw [List.append_assoc, List.getD_append_right _ _ _ _ (by simpa using hp),
      List.length_replicate]
    by_cases hlt : p - front < l.length
    · rw [List.getD_append _ _ _ _ hlt]
    · rw [List.getD_append_right _ _ _ _ (not_lt.1 hlt), getD_replicate_self,
        List.getD_eq_default _ _ (not_lt.1 hlt)]
  · rename_i hp
    rw [List.append_assoc, List.getD_append _ _ _ _ (by simpa using hp),
      getD_replicate_self]

theorem within_replicate_one {n : Nat} :
    Within (List.replicate n 1) ix ↔ ix = List.replicate n 0 := by
  induction n generalizing ix with
  | zero => exact List.forall₂_nil_left_iff
  | succ n ih =>
    rw [Within, List.replicate_succ, List.forall₂_cons_left_iff]
    constructor
    · rintro ⟨i, rest, hi, hrest, rfl⟩
      rw [ih.1 hrest, Nat.lt_one_iff.1 hi]
      rfl
    · rintro rfl
      exact ⟨0, _, Nat.one_pos, ih.2 rfl, rfl⟩

theorem Within.pad (h : Within dims ix) :
    Within (pad 1 front dims back) (pad 0 front ix back) :=
  List.rel_append (List.rel_append (within_replicate_one.2 rfl) h) (within_replicate_one.2 rfl)

/-- An index of a padded tensor is an index of the tensor with zeros around it. -/
theorem Within.exists_pad (h : Within (Lamina.pad 1 front dims back) ix) :
    ∃ inner, Within dims inner ∧ ix = Lamina.pad 0 front inner back := by
  obtain ⟨left, right, rfl, hleft, hright⟩ := h.exists_append
  obtain ⟨zeros, inner, rfl, hzeros, hinner⟩ := hleft.exists_append
  rw [within_replicate_one.1 hzeros, within_replicate_one.1 hright]
  exact ⟨inner, hinner, rfl⟩

/-- In axis order, unit axes do not move an element. -/
theorem place_pad_axes (h : Within dims ix) :
    place (pad 1 front dims back) (pad 0 front ix back) = place dims ix := by
  unfold pad
  rw [place_append (by simp [h.length_eq]), place_append (by simp), place_replicate_one,
    place_replicate_one]
  simp

namespace Layout

theorem mem_imageOrder (hl : l.fits dims.length = true) {p : Nat} :
    p ∈ l.imageOrder dims ↔ 1 < dims.getD p 1 := by
  rw [imageOrder, List.mem_filter, (memoryOrder_perm hl).mem_iff, List.mem_range]
  constructor
  · exact fun h => by simpa using h.2
  · intro h
    refine ⟨?_, by simpa using h⟩
    by_contra hp
    rw [List.getD_eq_default _ _ (not_lt.1 hp)] at h
    exact lt_irrefl 1 h

theorem nodup_imageOrder (hl : l.fits dims.length = true) : (l.imageOrder dims).Nodup :=
  ((memoryOrder_perm hl).nodup_iff.2 List.nodup_range).filter _

variable (hl : l.rank = dims.length) (hl' : l'.rank = (pad 1 front dims back).length)
  (hslots : ∀ a < dims.length, l'.slots[front + a]? = l.slots[a]?)

include hl hl' hslots

/-- A layout that keeps the slots of the axes has the same axes of more than one position in the
same order. -/
theorem imageOrder_pad :
    l'.imageOrder (pad 1 front dims back) = (l.imageOrder dims).map (front + ·) := by
  have hfits := fits_of_rank hl
  have hfits' := fits_of_rank hl'
  refine eq_of_sorted (l := l') ?_ ?_ ?_
  · rw [List.perm_ext_iff_of_nodup (nodup_imageOrder hfits')
      ((nodup_imageOrder hfits).map (add_right_injective front))]
    intro p
    rw [mem_imageOrder hfits', getD_pad, List.mem_map]
    constructor
    · intro hp
      split at hp
      · rename_i hfront
        exact ⟨p - front, (mem_imageOrder hfits).2 hp, Nat.add_sub_cancel' hfront⟩
      · exact absurd hp (lt_irrefl 1)
    · rintro ⟨a, ha, rfl⟩
      rw [if_pos (Nat.le_add_right front a), Nat.add_sub_cancel_left]
      exact (mem_imageOrder hfits).1 ha
  · exact (memoryOrder_sorted hl').filter _
  -- the slots are the same, so the order is
  · have hsorted : (l.imageOrder dims).Pairwise fun a b => l.key a < l.key b :=
      (memoryOrder_sorted hl).filter _
    rw [List.pairwise_map]
    refine hsorted.imp_of_mem fun {a b} ha hb hlt => ?_
    have hkey : ∀ a ∈ l.imageOrder dims, l'.key (front + a) = l.key a := by
      intro a ha
      have : a < dims.length := mem_memoryOrder hfits (List.mem_filter.1 ha).1
      rw [key, hslots a this, key]
    rwa [hkey a ha, hkey b hb]

/-- **Unit axes do not move an element**, as long as the other axes keep their slots. -/
theorem place_pad (h : Within dims ix) :
    l'.place (pad 1 front dims back) (pad 0 front ix back) = l.place dims ix := by
  have hentries (fill : Nat) (entries order : List Nat) :
      (order.map (front + ·)).map (fun p => (pad fill front entries back).getD p fill) =
        order.map fun p => entries.getD p fill := by
    rw [List.map_map]
    refine List.map_congr_left fun a _ => ?_
    simp only [Function.comp_apply, getD_pad, Nat.le_add_right, if_true, Nat.add_sub_cancel_left]
  rw [place_eq_image (fits_of_rank hl') h.pad, place_eq_image (fits_of_rank hl) h,
    imageOrder_pad hl hl' hslots, arrangedDims, arrangedIndex, hentries, hentries]
  rfl

end Layout

namespace Broadcast

/-- **A layout can be padded up to as many axes as there are slots**, and its own axes keep
theirs. -/
theorem embedLayout_eq_ok (site : Site) {layout : Layout} {offset outRank : Nat}
    (preferred : Layout) (h : offset + layout.rank ≤ outRank) (hrank : outRank ≤ Slot.total) :
    ∃ l, embedLayout site layout offset outRank preferred = .ok l ∧ l.rank = outRank ∧
      ∀ a < layout.rank, l.slots[offset + a]? = layout.slots[a]? := by
  have hsome : (completeSlots preferred.slots (paddedRoles layout offset outRank)).isSome :=
    isSome_completeSlots ((length_paddedRoles h).trans_le hrank)
  obtain ⟨slots, hslots⟩ := Option.isSome_iff_exists.1 hsome
  obtain ⟨hnodup, -⟩ := completeSlots_spec (by simpa using layout.nodup) hslots
  have hl : embedLayout site layout offset outRank preferred = .ok ⟨slots, hnodup⟩ :=
    (embedLayout_eq_ok_iff h).2 hslots
  exact ⟨_, hl, rank_of_embedLayout h hl, fun a ha => embedLayout_keeps h hl ha⟩

/-- **Seen with unit axes around it, a constant has the same elements.** -/
theorem elementAt_embedded {c x : Constant} {offset outRank : Nat}
    (hcommitted : c.layout.rank = c.shape.rank) (h : offset + c.shape.rank ≤ outRank)
    (hshape : x.shape = embedShape c.shape offset outRank) (hdata : x.data = c.data)
    (hrank : x.layout.rank = outRank)
    (hslots : ∀ a < c.layout.rank, x.layout.slots[offset + a]? = c.layout.slots[a]?)
    (hix : Within x.shape.dims ix) : x.elementAt ix = c.source.get? (place x.shape.dims ix) := by
  have hdims : x.shape.dims = pad 1 offset c.shape.dims (outRank - (offset + c.shape.rank)) := by
    rw [hshape]
    exact embedShape_dims h
  have hlength : x.layout.rank = x.shape.dims.length := by
    rw [hrank, hshape]
    exact (rank_embedShape h).symm
  rw [hdims] at hix hlength
  obtain ⟨inner, hinner, rfl⟩ := hix.exists_pad
  rw [hcommitted] at hslots
  rw [Constant.elementAt, Buffer.elementAt, hdims, hdata, place_pad_axes hinner,
    Constant.source_get? hinner, Layout.place_pad hcommitted hlength hslots hinner]
  rfl

end Broadcast

/-! ### The layers that adapt a tensor -/

namespace LayerKind

/-- The layer that repeats a tensor up to a shape, unless it has that shape. -/
def broadcasts (shape out : Shape) : List LayerKind :=
  if shape = out then [] else [.broadcast out]

/-- The layer that lays a tensor out anew, unless both layouts have one memory image. -/
def conversions (layout target : Layout) (shape : Shape) : List LayerKind :=
  if layout.reordersMemory target shape.dims then [.layoutConversion layout target] else []

theorem run?_append (kinds kinds' : List LayerKind) (x : Constant) :
    run? (kinds ++ kinds') x = (run? kinds x).bind (run? kinds') := List.foldlM_append

theorem run?_singleton (kind : LayerKind) (x : Constant) : run? [kind] x = kind.compute? x := by
  rw [run?, List.foldlM_cons]
  exact bind_pure _

/-- After a broadcast, if one is needed, there is at an index the element at that index with the
repeated axes at zero. -/
theorem run?_broadcasts {x : Constant} {out : Shape} (h : Stretches x.shape.dims out.dims) :
    ∃ y, run? (broadcasts x.shape out) x = some y ∧ y.shape = out ∧ y.layout = x.layout ∧
      y.data.elementType = x.data.elementType ∧
      ∀ ix, Within out.dims ix → y.elementAt ix = x.elementAt (clip x.shape.dims ix) := by
  unfold broadcasts
  split
  · rename_i heq
    refine ⟨x, rfl, heq, rfl, rfl, fun ix hix => ?_⟩
    rw [heq, clip_self hix]
  · have hfits := Layout.fits_of_stretches x.layout_fits h
    have hclip : ∀ ix, Within out.dims ix → Within x.shape.dims (clip x.shape.dims ix) :=
      fun _ hix => hix.clip h
    refine ⟨x.gather out x.layout (clip x.shape.dims) hfits hclip, ?_, rfl, rfl,
      Constant.elementType_gather _ _, fun ix hix => Constant.elementAt_gather hfits hclip hix⟩
    rw [run?_singleton, compute?, dif_pos h]

/-- After a conversion, if one is needed, the buffer holds the same elements under the target. -/
theorem run?_conversions {x : Constant} {target : Layout} (h : target.fits x.shape.rank = true) :
    ∃ y, run? (conversions x.layout target x.shape) x = some y ∧
      y.data.size = x.shape.count ∧ y.data.elementType = x.data.elementType ∧
      ∀ ix, Within x.shape.dims ix → y.data.elementAt target x.shape.dims ix = x.elementAt ix := by
  unfold conversions
  split
  · have hid : ∀ ix, Within x.shape.dims ix → Within x.shape.dims (id ix) := fun _ hix => hix
    refine ⟨x.gather x.shape target id h hid, ?_, Constant.size_eq _,
      Constant.elementType_gather _ _, fun ix hix => Constant.elementAt_gather h hid hix⟩
    rw [run?_singleton, compute?, dif_pos ⟨rfl, h⟩]
  · rename_i hsame
    refine ⟨x, rfl, x.size_eq, rfl, fun ix hix => ?_⟩
    exact congrArg x.data.get?
      (Layout.place_congr x.layout_fits h (Bool.not_eq_true _ ▸ hsame) hix).symm

end LayerKind

namespace Lowering

open LayerKind

variable {h : Handle} {c : Constant} {offset : Nat} {out : Shape} {target : Layout}

/-- **What a change of layout does.** A layer is appended if the memory image changes, and otherwise
the tensor is only seen under the other layout. -/
theorem relayout_run (ho : g.HasOutlet h.outlet) (htarget : target.fits h.shape.rank = true)
    (name : String) :
    (relayout name h target).run.run g =
      if h.layout.reordersMemory target h.shape.dims then
        (.ok ⟨h.shape, target, ⟨g.size, 0⟩⟩,
          g.push ⟨g.freshName (name ++ "/convert"), .layoutConversion h.layout target, [h.outlet]⟩)
      else (.ok (h.seenAs h.shape target), g) := by
  unfold relayout
  by_cases heq : h.layout = target
  · have hsame : h.layout.reordersMemory target h.shape.dims = false := by
      simp [Layout.reordersMemory, heq]
    rw [if_pos heq, hsame, ← heq]
    rfl
  · rw [if_neg heq]
    split
    · have hinputs : ∀ o ∈ [h.outlet], g.HasOutlet o := by simpa using ho
      have hkind : (LayerKind.layoutConversion h.layout target).outputCount = 1 := rfl
      obtain ⟨_, _, hrun, rfl, rfl⟩ :=
        (add_runs (P := fun _ _ => False) hinputs hkind htarget (name ++ "/convert")).exists_ok
      exact hrun
    · rfl

theorem relayout_chain (ho : g.HasOutlet h.outlet) (hrank : target.rank = h.shape.rank)
    (name : String) :
    Runs (fun _ _ => False) g (relayout name h target) fun h' g' =>
      h'.shape = h.shape ∧ h'.layout = target ∧
        g.Chain h.outlet (conversions h.layout target h.shape) g' h'.outlet := by
  unfold Runs conversions
  rw [relayout_run ho (Layout.fits_of_rank hrank)]
  by_cases hmoves : h.layout.reordersMemory target h.shape.dims = true
  · rw [if_pos hmoves, if_pos hmoves]
    exact ⟨rfl, rfl, .cons _ .nil⟩
  · rw [if_neg hmoves, if_neg hmoves]
    exact ⟨rfl, rfl, .nil⟩

/-- **The layers that a run-time tensor gets.** -/
theorem stretch_chain {site : Site} {padded : Layout} (ho : g.HasOutlet h.outlet)
    (hpadded : Broadcast.embedLayout site h.layout offset out.rank target = .ok padded)
    (hrank : padded.rank = out.rank) (htarget : target.rank = out.rank)
    (name : String) :
    Runs (fun _ _ => False) g (stretch site name h offset out target) fun h' g' =>
      h'.shape = out ∧ h'.layout = target ∧
        g.Chain h.outlet (broadcasts (Broadcast.embedShape h.shape offset out.rank) out ++
          conversions padded target out) g' h'.outlet := by
  unfold stretch
  dsimp only
  rw [hpadded]
  refine Runs.lift_bind (Q := (padded = ·)) (.ok rfl) ?_
  rintro _ rfl
  unfold broadcasts
  split
  · rename_i hsame
    rw [hsame]
    exact relayout_chain (h := h.seenAs out padded) ho htarget name
  · refine (add_runs (fun o hmem => List.mem_singleton.1 hmem ▸ ho) rfl
      (Layout.fits_of_rank hrank) _).bind ?_
    rintro _ _ ⟨rfl, rfl⟩
    refine (relayout_chain (g.hasOutlet_push_self rfl) htarget name).imp fun h' g' hh' => ?_
    exact ⟨hh'.1, hh'.2.1, .cons _ hh'.2.2⟩

/-- A constant and a handle are brought to a shape and a layout: the constant becomes `c'`, and the
handle the outlet `o` of a graph with the layers that adapt it, padded first under the layout
`padded`. The layers, run on the padded buffer of the constant, give the buffer of `c'`. -/
structure Fitted (site : Site) (name : String) (g : LayerGraph) (c : Constant) (h : Handle)
    (offset : Nat) (out : Shape) (target : Layout) (padded : Layout) (c' : Constant) (o : Outlet)
    (g' : LayerGraph) : Prop where
  constant : (fit site name (.constant c) offset out target).run.run g = (.ok (.constant c'), g)
  shape : c'.shape = out
  layout : c'.layout = target
  handle : (fit site name (.handle h) offset out target).run.run g =
    (.ok (.handle ⟨out, target, o⟩), g')
  padding : Broadcast.embedLayout site c.layout offset out.rank target = .ok padded
  layers : g.Chain h.outlet (broadcasts (Broadcast.embedShape c.shape offset out.rank) out ++
    conversions padded target out) g' o
  contents : ∃ x y : Constant, x.shape = Broadcast.embedShape c.shape offset out.rank ∧
    x.layout = padded ∧ x.data = c.data ∧
    run? (broadcasts (Broadcast.embedShape c.shape offset out.rank) out ++
      conversions padded target out) x = some y ∧ y.data = c'.data

/-- A constant is brought to a shape and a layout without layers. -/
theorem fit_constant (site : Site) (name : String) (g : LayerGraph)
    (hembeds : Broadcast.Embeds c.shape offset out) (htarget : target.rank = out.rank) :
    ∃ e c', Broadcast.constant c offset out = .ok e ∧ e.toLayout target = .ok c' ∧
      (fit site name (.constant c) offset out target).run.run g = (.ok (.constant c'), g) := by
  obtain ⟨e, he, hshape⟩ := (Broadcast.constant_yields hembeds).exists_ok
  have hfits : target.fits e.shape.rank = true := by
    rw [hshape]
    exact Layout.fits_of_rank htarget
  obtain ⟨c', hc', -⟩ := (Constant.toLayout_yields hfits).exists_ok
  have hrun : Runs (fun _ _ => False) g (fit site name (.constant c) offset out target)
      fun t g' => t = .constant c' ∧ g' = g := by
    refine Runs.lift_bind (Q := (· = e)) (.of_eq_ok he rfl) ?_
    rintro _ rfl
    refine Runs.lift_bind (Q := (· = c')) (.of_eq_ok hc' rfl) ?_
    rintro _ rfl
    exact Runs.pure ⟨rfl, rfl⟩
  obtain ⟨_, _, hrun, rfl, rfl⟩ := hrun.exists_ok
  exact ⟨e, c', he, hc', hrun⟩

/-- **Both ways have the same buffer.** -/
theorem data_eq_of_run {e c' x : Constant} (hembeds : Broadcast.Embeds c.shape offset out)
    (htarget : target.rank = out.rank) (he : Broadcast.constant c offset out = .ok e)
    (hc' : e.toLayout target = .ok c')
    (hshape : x.shape = Broadcast.embedShape c.shape offset out.rank) (hdata : x.data = c.data)
    (hx : ∀ ix, Within x.shape.dims ix → x.elementAt ix = c.source.get? (place x.shape.dims ix)) :
    ∃ y, run? (broadcasts x.shape out ++ conversions x.layout target out) x = some y ∧
      y.data = c'.data := by
  have hstretch : Stretches x.shape.dims out.dims := hshape ▸ hembeds.2
  have hfits : target.fits out.dims.length = true := Layout.fits_of_rank htarget
  obtain ⟨heshape, hetype, helement⟩ := Broadcast.elementAt_constant hembeds he
  obtain ⟨hcshape, hclayout, hctype, hcelement⟩ := Constant.elementAt_toLayout hc'
  obtain ⟨y, hy, hyshape, hylayout, hytype, hyelement⟩ := run?_broadcasts hstretch
  obtain ⟨z, hz, hzsize, hztype, hzelement⟩ := run?_conversions (x := y) (hyshape ▸ hfits)
  rw [hyshape, hylayout] at hz
  refine ⟨z, ?_, ?_⟩
  · rw [run?_append, hy]
    exact hz
  · refine Buffer.ext_elementAt hfits ?_ ?_ ?_ fun ix hix => ?_
    · rw [hztype, hytype, hctype, hetype, hdata]
    · rw [hzsize, hyshape]
      rfl
    · rw [c'.size_eq, hcshape, heshape]
      rfl
    · calc z.data.elementAt target out.dims ix
          = y.elementAt ix := by
            rw [hyshape] at hzelement
            exact hzelement ix hix
        _ = x.elementAt (clip x.shape.dims ix) := hyelement ix hix
        _ = c.source.get? (place x.shape.dims (clip x.shape.dims ix)) := hx _ (hix.clip hstretch)
        _ = e.elementAt ix := by rw [helement ix hix, hshape]
        _ = c'.elementAt ix := (hcelement ix (heshape ▸ hix)).symm
        _ = c'.data.elementAt target out.dims ix := by
            rw [Constant.elementAt, hclayout, hcshape, heshape]

/-- Two rows of two that lie in memory column by column. -/
def byColumns : Constant :=
  ⟨⟨[2, 2]⟩, ⟨[.channels, .height], by decide⟩, .ints #[1, 2, 3, 4], rfl, rfl⟩

/-- Slots under which pairs of rows lie in memory row by row. -/
def byRows : Layout := ⟨[.batchWidth, .height, .channels], by decide⟩

end Lowering

end Lamina
