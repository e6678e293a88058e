import Mathlib
import Lamina.Network.Plan
import Lamina.Proofs.ConstantLayouts
import Lamina.Proofs.Reshaping

/-!
# Slices: one strided reading and a chain of cuts

A slice is computed in two ways. A constant is read once, from an offset on and with the strides of
the whole tensor. For a run-time tensor one layer after another cuts along one axis, and axes that
are kept as a whole get no layer. Both have to give the same sub-tensor.

What they share is the index that a position of the sub-tensor has in the whole
(`AxisRange.origin`). Its offset under the strides of the whole is the offset of the first element
kept and that of the position (`AxisRange.dot_origin`), which is what the strided reading uses. One
cut moves an index along one axis, so that the cuts one after another move it to its origin
(`LayerKind.cutAll?_layers`).

The bounds are 64-bit integers, possibly negative and far outside of the extent. What is kept is
said in unbounded integers (`AxisRange.Answers`), without clamping.

**Theorem** (`Operator.slice_agrees`): the ranges of a slice are what its bounds ask for. The
strided reading stays within the buffer and gives the sub-tensor, and so do the layers.
-/

namespace Lamina

/-! ### Positions in unbounded integers -/

/-- A bound counted from the front, in unbounded integers. -/
def SliceBounds.position (bound : Int64) (extent : Nat) : Int :=
  if bound.toInt < 0 then bound.toInt + extent else bound.toInt

/-- The start, the end and the axis of each range that is asked for. Without axes they are the first
ones. -/
def SliceBounds.entries (b : SliceBounds) : List (Int64 × Int64 × Int64) :=
  b.starts.zip (b.ends.zip (b.axes.getD ((List.range b.starts.length).map fun i => Int64.ofNat i)))

namespace AxisRange

/-- A position is kept. -/
def Has (s : AxisRange) (i : Nat) : Prop := s.start ≤ i ∧ i < s.start + s.length

/-- A range is what is asked for: it is along the named axis, and it keeps the positions from the
start on and before the end. The extent of the axis has a word with a sign, as the bounds have. -/
structure Answers (shape : Shape) (entry : Int64 × Int64 × Int64) (s : AxisRange) : Prop where
  axis : (s.axis : Int) = SliceBounds.position entry.2.2 shape.rank
  signed : shape.extent s.axis < signedLimit
  positions : ∀ i : Nat, s.Has i ↔ i < shape.extent s.axis ∧
    SliceBounds.position entry.1 (shape.extent s.axis) ≤ i ∧
    i < SliceBounds.position entry.2.1 (shape.extent s.axis)

end AxisRange

theorem Header.axis_eq_position {h : Header} {axis : Int64} {rank a : Nat}
    (ha : h.axis axis rank = .ok a) : (a : Int) = SliceBounds.position axis rank := by
  unfold Header.axis at ha
  dsimp only at ha
  rw [← SliceBounds.position] at ha
  split at ha
  · exact absurd ha Site.fail_ne_ok
  · split at ha
    · exact absurd ha Site.fail_ne_ok
    · cases ha
      omega

namespace SliceBounds

/-- A bound can be clamped to an extent that has a word with a sign. -/
theorem clamp_eq_ok {h : Header} {bound : Int64} {extent n : Nat} :
    clamp h bound extent = .ok n ↔
      extent < signedLimit ∧ min (position bound extent).toNat extent = n := by
  unfold clamp
  dsimp only
  rw [← position]
  split
  · rename_i hextent
    simp [hextent]
  · rename_i hextent
    exact iff_of_false Site.fail_ne_ok fun h => hextent h.1

/-- **Clamping drops no position that is there.** -/
theorem has_clamp {h : Header} {start stop : Int64} {extent first last : Nat}
    (hfirst : clamp h start extent = .ok first) (hlast : clamp h stop extent = .ok last)
    (axis i : Nat) :
    AxisRange.Has ⟨axis, first, last - first⟩ i ↔
      i < extent ∧ position start extent ≤ i ∧ i < position stop extent := by
  obtain ⟨-, rfl⟩ := clamp_eq_ok.1 hfirst
  obtain ⟨-, rfl⟩ := clamp_eq_ok.1 hlast
  simp only [AxisRange.Has]
  omega

/-- One range after another is what the next entry asks for. -/
theorem resolveFrom_answers {h : Header} {shape : Shape} {done found : List AxisRange}
    {entries : List (Int64 × Int64 × Int64)}
    (hfound : resolveFrom h shape done entries = .ok found) :
    ∃ new, found = done ++ new ∧ List.Forall₂ (AxisRange.Answers shape) entries new := by
  induction entries generalizing done with
  | nil =>
    cases hfound
    exact ⟨[], (List.append_nil _).symm, .nil⟩
  | cons entry entries ih =>
    obtain ⟨start, stop, axis⟩ := entry
    rw [resolveFrom] at hfound
    obtain ⟨a, ha, hfound⟩ := bind_eq_ok.1 hfound
    split at hfound
    · exact absurd hfound Site.fail_ne_ok
    · obtain ⟨first, hfirst, hfound⟩ := bind_eq_ok.1 hfound
      obtain ⟨last, hlast, hfound⟩ := bind_eq_ok.1 hfound
      obtain ⟨new, rfl, hnew⟩ := ih hfound
      refine ⟨_ :: new, List.append_assoc .., .cons ⟨?_, ?_, fun i => ?_⟩ hnew⟩
      · exact Header.axis_eq_position ha
      · exact (clamp_eq_ok.1 hfirst).1
      · exact has_clamp hfirst hlast a i

/-- The ranges answer the entries, each of which has a start, an end and an axis. They are in the
order of their axes, no two of which are the same. -/
structure Keeps (b : SliceBounds) (shape : Shape) (slices : List AxisRange) : Prop where
  ends : b.ends.length = b.starts.length
  axes : ∀ axes, b.axes = some axes → axes.length = b.starts.length
  answers : ∃ found, found.Perm slices ∧ List.Forall₂ (AxisRange.Answers shape) b.entries found
  ordered : (slices.map AxisRange.axis).Pairwise (· < ·)

theorem resolve_keeps {b : SliceBounds} {h : Header} {shape : Shape} {slices : List AxisRange}
    (hslices : b.resolve h shape = .ok slices) : b.Keeps shape slices := by
  have hwithin := (b.resolve_yields h shape).value hslices
  unfold resolve at hslices
  dsimp only at hslices
  split at hslices
  · cases hslices
  rename_i hcounts
  rw [not_or, not_not, not_not] at hcounts
  have hread {found : Except Fault (List AxisRange)}
      (h : (found >>= fun l => pure (l.mergeSort fun x y => decide (x.axis ≤ y.axis))) =
        .ok slices) :
      ∃ l, found = .ok l ∧ (l.mergeSort fun x y => decide (x.axis ≤ y.axis)) = slices := by
    obtain ⟨l, hl, hsort⟩ := bind_eq_ok.1 h
    exact ⟨l, hl, pure_eq_ok.1 hsort⟩
  -- whatever is said about the steps, the ranges are resolved and sorted
  have hsorted : ∃ found, resolveFrom h shape [] b.entries = .ok found ∧
      (found.mergeSort fun x y => decide (x.axis ≤ y.axis)) = slices := by
    split at hslices
    · exact hread hslices
    · split at hslices
      · cases hslices
      · split at hslices
        · cases hslices
        · exact hread hslices
  obtain ⟨found, hfound, rfl⟩ := hsorted
  obtain ⟨_, hnew, hanswers⟩ := resolveFrom_answers hfound
  obtain rfl := hnew
  refine ⟨hcounts.1, ?_, ⟨_, (List.mergeSort_perm _ _).symm, hanswers⟩, ?_⟩
  · intro axes haxes
    simpa [haxes] using hcounts.2
  · have hle := pairwise_sorted_by AxisRange.axis found
    rw [List.pairwise_map]
    exact (hle.and (List.pairwise_map.1 hwithin.1)).imp fun hpair => lt_of_le_of_ne hpair.1 hpair.2

end SliceBounds

theorem keptSlices_keeps {h : Header} {bounds : Option SliceBounds} {ops : Operands}
    {slices : List AxisRange} (hslices : keptSlices h bounds ops = .ok slices) :
    ∃ b x, sliceBounds h bounds ops = .ok b ∧ ops.bound? 0 = some x ∧ b.Keeps x.shape slices ∧
      AxisRange.Within x.shape slices := by
  obtain ⟨x, hx, hwithin⟩ := (keptSlices_yields h bounds ops).value hslices
  obtain ⟨b, hb, hslices⟩ := bind_eq_ok.1 hslices
  obtain ⟨shape, hshape, hslices⟩ := bind_eq_ok.1 hslices
  obtain ⟨x', hx', rfl⟩ := Operands.bound?_of_shape hshape
  obtain rfl := Option.some.inj (hx.symm.trans hx')
  exact ⟨b, x, hb, hx, SliceBounds.resolve_keeps hslices, hwithin⟩

/-! ### Moving an index along an axis -/

section Index

variable {dims ix jx : List Nat} {a start n : Nat}

/-- An index of a range along an axis, moved by the start of the range, is one of the whole. -/
theorem Within.modify (h : Within (dims.set a n) ix) (hle : start + n ≤ dims.getD a 1) :
    Within dims (ix.modify a (start + ·)) := by
  induction dims generalizing a ix with
  | nil =>
    obtain rfl := List.forall₂_nil_left_iff.1 h
    rw [List.modify_nil]
    exact .nil
  | cons d ds ih =>
    cases a with
    | zero =>
      rw [List.getD_cons_zero] at hle
      cases h with
      | cons hi hrest =>
        rw [List.modify_zero_cons]
        exact .cons (by omega) hrest
    | succ a =>
      cases h with
      | cons hi hrest =>
        rw [List.modify_succ_cons]
        exact .cons hi (ih hrest hle)

/-- An index of the whole that lies in a range along an axis was moved from one of the range. -/
theorem Within.exists_modify (h : Within dims jx) (hlow : start ≤ jx.getD a 0)
    (hhigh : jx.getD a 0 < start + n) :
    ∃ ix, Within (dims.set a n) ix ∧ ix.modify a (start + ·) = jx := by
  induction h generalizing a with
  | nil => exact ⟨[], .nil, List.modify_nil ..⟩
  | @cons d j ds rest hj hrest ih =>
    cases a with
    | zero =>
      rw [List.getD_cons_zero] at hlow hhigh
      refine ⟨(j - start) :: rest, .cons (by omega) hrest, ?_⟩
      rw [List.modify_zero_cons, Nat.add_sub_cancel' hlow]
    | succ a =>
      obtain ⟨ix, hix, hmoved⟩ := ih hlow hhigh
      refine ⟨j :: ix, .cons hj hix, ?_⟩
      rw [List.modify_succ_cons, hmoved]

theorem getD_modify_self (ha : a < ix.length) (f : Nat → Nat) :
    (ix.modify a f).getD a 0 = f (ix.getD a 0) := by
  simp [List.getD_eq_getElem?_getD, List.getElem?_eq_getElem ha]

theorem getD_modify_ne {b : Nat} (h : a ≠ b) (f : Nat → Nat) :
    (ix.modify a f).getD b 0 = ix.getD b 0 := by
  simp [List.getD_eq_getElem?_getD, h]

/-- Moving an index adds to its offset. -/
theorem dot_modify (ha : a < ix.length) (strides : List Nat) :
    dot (ix.modify a (start + ·)) strides = start * strides.getD a 0 + dot ix strides := by
  induction ix generalizing a strides with
  | nil => cases ha
  | cons i ix ih =>
    cases strides with
    | nil => simp [dot_nil_right]
    | cons s strides =>
      cases a with
      | zero =>
        rw [List.modify_zero_cons, List.getD_cons_zero, dot, dot]
        ring
      | succ a =>
        rw [List.modify_succ_cons, List.getD_cons_succ, dot, dot, ih (Nat.lt_of_succ_lt_succ ha)]
        ring

end Index

/-! ### The sub-tensor -/

theorem Shape.extent_setExtent_self {shape : Shape} {axis : Nat} (h : axis < shape.rank)
    (length : Nat) : (shape.setExtent axis length).extent axis = length := by
  rw [extent, setExtent, List.getD_eq_getElem?_getD, List.getElem?_set_self h, Option.getD_some]

namespace AxisRange

variable {slices : List AxisRange} {shape : Shape} {ix jx : List Nat}

/-- The index in the whole tensor of an index of the sub-tensor. -/
def origin : List AxisRange → List Nat → List Nat
  | [], ix => ix
  | s :: slices, ix => (origin slices ix).modify s.axis (s.start + ·)

@[simp] theorem length_origin (slices : List AxisRange) (ix : List Nat) :
    (origin slices ix).length = ix.length := by
  induction slices with
  | nil => rfl
  | cons s slices ih => rw [origin, List.length_modify, ih]

theorem within_origin (hwithin : Within shape slices)
    (h : Lamina.Within (apply slices shape).dims ix) :
    Lamina.Within shape.dims (origin slices ix) := by
  induction slices generalizing shape with
  | nil => exact h
  | cons s slices ih =>
    exact (ih hwithin.tail h).modify (hwithin.2 s List.mem_cons_self).2

/-- **The sub-tensor consists of the kept positions.** -/
theorem exists_origin_iff (hwithin : Within shape slices) :
    (∃ ix, Lamina.Within (apply slices shape).dims ix ∧ origin slices ix = jx) ↔
      Lamina.Within shape.dims jx ∧ ∀ s ∈ slices, s.Has (jx.getD s.axis 0) := by
  induction slices generalizing shape jx with
  | nil =>
    constructor
    · rintro ⟨ix, hix, rfl⟩
      exact ⟨hix, fun s hs => absurd hs List.not_mem_nil⟩
    · exact fun h => ⟨jx, h.1, rfl⟩
  | cons s slices ih =>
    obtain ⟨haxis, hrange⟩ := hwithin.2 s List.mem_cons_self
    constructor
    · rintro ⟨ix, hix, rfl⟩
      obtain ⟨hmid, hrest⟩ := (ih hwithin.tail).1 ⟨ix, hix, rfl⟩
      have hlt : s.axis < (origin slices ix).length := by
        rw [hmid.length_eq, ← Shape.rank, rank_setExtent]
        exact haxis
      refine ⟨hmid.modify hrange, ?_⟩
      intro t ht
      rcases List.mem_cons.1 ht with rfl | ht
      · have hentry := hmid.getD_lt (hmid.length_eq ▸ hlt)
        rw [← Shape.extent, Shape.extent_setExtent_self haxis] at hentry
        rw [origin, getD_modify_self hlt, Has]
        omega
      · rw [origin, getD_modify_ne (hwithin.head_ne ht)]
        exact hrest t ht
    · rintro ⟨hjx, hkept⟩
      obtain ⟨hlow, hhigh⟩ := hkept s List.mem_cons_self
      obtain ⟨kx, hkx, rfl⟩ := hjx.exists_modify hlow hhigh
      have hrest : ∀ t ∈ slices, t.Has (kx.getD t.axis 0) := by
        intro t ht
        rw [← getD_modify_ne (hwithin.head_ne ht)]
        exact hkept t (List.mem_cons_of_mem _ ht)
      obtain ⟨ix, hix, rfl⟩ := (ih hwithin.tail).2 ⟨hkx, hrest⟩
      exact ⟨ix, hix, rfl⟩

/-- **The offset of an origin** is that of the first element kept and that of the index. -/
theorem dot_origin (haxes : ∀ s ∈ slices, s.axis < ix.length) (shape : Shape) :
    dot (origin slices ix) shape.strides = base slices shape + dot ix shape.strides := by
  induction slices with
  | nil => exact (Nat.zero_add _).symm
  | cons s slices ih =>
    have hlt : s.axis < (origin slices ix).length := by
      rw [length_origin]
      exact haxes s List.mem_cons_self
    rw [origin, dot_modify hlt, ih fun t ht => haxes t (List.mem_cons_of_mem _ ht), ← Nat.add_assoc]
    rfl

end AxisRange

/-- A tensor is what ranges keep of another one. -/
structure Constant.CutOf (r : Constant) (slices : List AxisRange) (c : Constant) : Prop where
  shape : r.shape = AxisRange.apply slices c.shape
  elementType : r.data.elementType = c.data.elementType
  element : ∀ ix, Within r.shape.dims ix → r.elementAt ix = c.elementAt (AxisRange.origin slices ix)

/-! ### The strided reading -/

section Fold

variable {h : Header} {ops : Operands} {bounds : Option SliceBounds} {slices : List AxisRange}
  {c : Constant}

/-- The offsets that are read lie within the buffer. -/
theorem AxisRange.base_add_lt (hwithin : Within c.shape slices) :
    ∀ offset ∈ stridedOffsets (apply slices c.shape).dims c.shape.strides,
      base slices c.shape + offset < c.source.size := by
  intro offset hoffset
  have hle := le_reach hoffset
  have hpos : positions (apply slices c.shape).dims ≠ 0 := by
    rw [← length_stridedOffsets _ c.shape.strides]
    exact List.length_pos_of_mem hoffset |>.ne'
  have hlt := base_add_reach_lt hwithin hpos
  rw [c.size_source]
  omega

/-- **Reading with strides gives the sub-tensor.** -/
theorem foldSlice_cutOf (hc : ops.bound? 0 = some ⟨c.shape, some c⟩)
    (hslices : keptSlices h bounds ops = .ok slices) :
    ∃ r, foldSlice h bounds ops = .ok r ∧ r.CutOf slices c := by
  obtain ⟨x, hx, hwithin⟩ := (keptSlices_yields h bounds ops).value hslices
  obtain rfl := Option.some.inj (hc.symm.trans hx)
  have hconstant : ops.constant h 0 = .ok c := by
    rw [Operands.constant, Operands.get, hc]
    rfl
  have hreach := AxisRange.base_add_reach_lt hwithin
  apply Yields.exists_ok
  unfold foldSlice
  refine Yields.bind (Q := (c = ·)) (.of_eq_ok hconstant rfl) ?_
  rintro _ rfl
  refine Yields.bind (Q := (slices = ·)) (.of_eq_ok hslices rfl) ?_
  rintro _ rfl
  refine (Constant.ofParts_yields rfl (Buffer.size_rearrange fun v hv => ?_)).imp ?_
  · apply size_readStrided
    rwa [hv, c.size_source]
  · rintro r ⟨hshape, hlayout, hdata⟩
    refine ⟨hshape, ?_, fun ix hix => ?_⟩
    · rw [hdata, Buffer.elementType_rearrange, c.elementType_source]
    · rw [hshape] at hix
      have horigin := AxisRange.within_origin hwithin hix
      have haxes : ∀ s ∈ slices, s.axis < ix.length := by
        intro s hs
        rw [hix.length_eq, ← Shape.rank, AxisRange.rank_apply]
        exact (hwithin.2 s hs).1
      rw [Constant.elementAt, Buffer.elementAt, hlayout, hshape,
        Layout.place_of_not_shuffled rfl rfl hix, hdata, ← Constant.source_get? horigin]
      refine Buffer.get?_rearrange fun v hv => ?_
      rw [getElem?_readStrided (by rwa [hv, c.size_source]) hix, ← AxisRange.dot_origin haxes,
        Shape.strides, dot_rowMajorStrides horigin]

end Fold

/-! ### The layers -/

/-- What is left of a tensor within a range along an axis. -/
def Constant.restrict (c : Constant) (axis start length : Nat)
    (h : start + length ≤ c.shape.extent axis) : Constant :=
  c.gather (c.shape.setExtent axis length) c.layout (fun ix => ix.modify axis (start + ·))
    (by rw [rank_setExtent]; exact c.layout_fits) fun _ hix => hix.modify h

/-- What a slice layer makes of a blob: the axis on its slot is restricted to its range. -/
def LayerKind.cut? (kind : LayerKind) (x : Constant) : Option Constant :=
  match kind with
  | .slice slot start length => (x.layout.position? slot).bind fun axis =>
    if h : start + length ≤ x.shape.extent axis then some (x.restrict axis start length h) else none
  | _ => none

/-- Slice layers one behind another. -/
def LayerKind.cutAll? (kinds : List LayerKind) (x : Constant) : Option Constant :=
  kinds.foldlM (fun y kind => kind.cut? y) x

namespace AxisRange

variable {slices : List AxisRange} {shape : Shape}

/-- The ranges that do not keep their whole axis. -/
def changed (slices : List AxisRange) (shape : Shape) : List AxisRange :=
  slices.filter fun s => s.length ≠ shape.extent s.axis

/-- The layer of a range: its axis is given by the slot. -/
def layer (layout : Layout) (s : AxisRange) : LayerKind :=
  .slice (layout.slots.getD s.axis default) s.start s.length

theorem Within.of_cons {s : AxisRange} (h : Within shape (s :: slices)) : Within shape slices :=
  ⟨h.1.of_cons, fun t ht => h.2 t (List.mem_cons_of_mem _ ht)⟩

/-- Whether the other ranges keep their axes is the same after one was applied. -/
theorem changed_setExtent {s : AxisRange} (h : Within shape (s :: slices)) :
    changed slices (shape.setExtent s.axis s.length) = changed slices shape := by
  apply List.filter_congr
  intro t ht
  rw [shape.extent_setExtent_ne (h.head_ne ht)]

theorem changed_cons_whole {s : AxisRange} (h : s.length = shape.extent s.axis) :
    changed (s :: slices) shape = changed slices shape :=
  List.filter_cons_of_neg (by simpa using h)

theorem changed_cons_part {s : AxisRange} (h : s.length ≠ shape.extent s.axis) :
    changed (s :: slices) shape = s :: changed slices shape :=
  List.filter_cons_of_pos (by simpa using h)

theorem extent_apply_of_notMem {a : Nat} (h : a ∉ slices.map axis) :
    (apply slices shape).extent a = shape.extent a := by
  simp only [Shape.extent, List.getD_eq_getElem?_getD, getElem?_apply h]

/-- A range along an axis gives it its length. -/
theorem extent_apply (h : Within shape slices) :
    ∀ s ∈ slices, (apply slices shape).extent s.axis = s.length := by
  induction slices generalizing shape with
  | nil => exact fun s hs => absurd hs List.not_mem_nil
  | cons t slices ih =>
    intro s hs
    rcases List.mem_cons.1 hs with rfl | hs
    · rw [apply_cons, extent_apply_of_notMem h.head_notMem,
        Shape.extent_setExtent_self (h.2 s List.mem_cons_self).1]
    · rw [apply_cons]
      exact ih h.tail s hs

/-- **One range for each axis whose extent changes.** -/
theorem mem_axis_changed (h : Within shape slices) {a : Nat} :
    a ∈ (changed slices shape).map axis ↔ (apply slices shape).extent a ≠ shape.extent a := by
  rw [List.mem_map]
  constructor
  · rintro ⟨s, hs, rfl⟩
    obtain ⟨hs, hlength⟩ := List.mem_filter.1 hs
    rw [extent_apply h s hs]
    simpa using hlength
  · intro hne
    have hmem : a ∈ slices.map axis := by
      by_contra hnot
      exact hne (extent_apply_of_notMem hnot)
    obtain ⟨s, hs, rfl⟩ := List.mem_map.1 hmem
    rw [extent_apply h s hs] at hne
    exact ⟨s, List.mem_filter.2 ⟨hs, by simpa using hne⟩, rfl⟩

end AxisRange

namespace Constant

variable {slices : List AxisRange} {s : AxisRange} {c r : Constant}

theorem cutOf_nil (c : Constant) : c.CutOf [] c := ⟨rfl, rfl, fun _ _ => rfl⟩

/-- A range that keeps its whole axis starts in front and does nothing. -/
theorem CutOf.cons_whole (hwithin : AxisRange.Within c.shape (s :: slices))
    (hwhole : s.length = c.shape.extent s.axis) (h : r.CutOf slices c) :
    r.CutOf (s :: slices) c := by
  obtain ⟨-, hrange⟩ := hwithin.2 s List.mem_cons_self
  have hstart : s.start = 0 := by omega
  refine ⟨?_, h.elementType, fun ix hix => ?_⟩
  · rw [AxisRange.apply_cons, hwhole, Shape.setExtent_self]
    exact h.shape
  · rw [h.element ix hix, AxisRange.origin, hstart]
    simp only [Nat.zero_add]
    rw [show (fun i : Nat => i) = id from rfl, List.modify_id]

/-- Cutting along one axis, and then along the others. -/
theorem CutOf.cons_part (hwithin : AxisRange.Within c.shape (s :: slices))
    (h : r.CutOf slices
      (c.restrict s.axis s.start s.length (hwithin.2 s List.mem_cons_self).2)) :
    r.CutOf (s :: slices) c := by
  refine ⟨h.shape, h.elementType.trans (elementType_gather _ _), fun ix hix => ?_⟩
  have hmid : Within (c.shape.setExtent s.axis s.length).dims (AxisRange.origin slices ix) := by
    apply AxisRange.within_origin hwithin.tail
    rw [h.shape] at hix
    exact hix
  rw [h.element ix hix]
  exact elementAt_gather _ _ hmid

end Constant

/-- **The layers of some ranges give the sub-tensor.** -/
theorem LayerKind.cutAll?_layers {slices : List AxisRange} {c : Constant}
    (hwithin : AxisRange.Within c.shape slices) (hrank : c.layout.rank = c.shape.rank) :
    ∃ r, cutAll? ((AxisRange.changed slices c.shape).map (AxisRange.layer c.layout)) c = some r ∧
      r.CutOf slices c := by
  induction slices generalizing c with
  | nil => exact ⟨c, rfl, c.cutOf_nil⟩
  | cons s slices ih =>
    obtain ⟨haxis, hrange⟩ := hwithin.2 s List.mem_cons_self
    by_cases hwhole : s.length = c.shape.extent s.axis
    · obtain ⟨r, hr, hcut⟩ := ih hwithin.of_cons hrank
      rw [AxisRange.changed_cons_whole hwhole]
      exact ⟨r, hr, hcut.cons_whole hwithin hwhole⟩
    · let y := c.restrict s.axis s.start s.length hrange
      have hy : y.layout.rank = y.shape.rank := hrank.trans (rank_setExtent ..).symm
      obtain ⟨r, hr, hcut⟩ := ih (c := y) hwithin.tail hy
      rw [show y.shape = c.shape.setExtent s.axis s.length from rfl,
        AxisRange.changed_setExtent hwithin] at hr
      refine ⟨r, ?_, hcut.cons_part hwithin⟩
      rw [AxisRange.changed_cons_part hwhole, List.map_cons]
      have hslot : c.layout.position? (c.layout.slots.getD s.axis default) = some s.axis := by
        have hlt : s.axis < c.layout.slots.length := haxis.trans_eq hrank.symm
        rw [Layout.position?_eq_some, List.getD_eq_getElem _ _ hlt, List.getElem?_eq_getElem hlt]
      have hcuts : (AxisRange.layer c.layout s).cut? c = some y := by
        rw [AxisRange.layer, cut?, hslot, Option.bind_some, dif_pos hrange]
      rw [cutAll?, List.foldlM_cons, hcuts]
      exact hr

/-! ### Lowering -/

section Lowering

variable {g : LayerGraph} {p : Placement} {ops : Operands} {bounds : Option SliceBounds}
  {slices : List AxisRange} {layout : Layout}

/-- **One layer for each range that does not keep its axis**, unless one of them is empty. -/
theorem lowerSlices_chain (p : Placement) {x : Handle}
    (hwithin : AxisRange.Within x.shape slices) (ho : g.HasOutlet x.outlet)
    (hlayout : x.layout = layout) (hrank : layout.rank = x.shape.rank) :
    Runs (fun _ _ => ∃ s ∈ AxisRange.changed slices x.shape, s.length = 0) g
      (lowerSlices p layout x slices) fun y g' =>
        (∀ s ∈ AxisRange.changed slices x.shape, s.length ≠ 0) ∧
        y.shape = AxisRange.apply slices x.shape ∧ y.layout = layout ∧
        g.Chain x.outlet
          ((AxisRange.changed slices x.shape).map (AxisRange.layer layout)) g' y.outlet := by
  induction slices generalizing g x with
  | nil => exact Runs.pure ⟨fun s hs => absurd hs List.not_mem_nil, rfl, hlayout, .nil⟩
  | cons s slices ih =>
    rw [lowerSlices, AxisRange.apply_cons]
    split
    · rename_i hwhole
      rw [AxisRange.changed_cons_whole hwhole, hwhole, Shape.setExtent_self]
      exact ih hwithin.of_cons ho hlayout hrank
    · rename_i hpart
      rw [AxisRange.changed_cons_part hpart]
      split
      · rename_i hempty
        exact Runs.lift (.fail ⟨s, List.mem_cons_self, hempty⟩)
      · rename_i hlength
        have hrank' : layout.rank = (x.shape.setExtent s.axis s.length).rank := by
          rwa [rank_setExtent]
        have hinputs : ∀ o ∈ [x.outlet], g.HasOutlet o := by simpa using ho
        refine (Lowering.add_runs hinputs rfl (Layout.fits_of_rank hrank') p.name).bind ?_
        rintro _ _ ⟨rfl, rfl⟩
        rw [← AxisRange.changed_setExtent hwithin]
        refine (ih (x := ⟨x.shape.setExtent s.axis s.length, layout, ⟨g.size, 0⟩⟩) hwithin.tail
          (g.hasOutlet_push_self (by rfl)) rfl hrank').mono ?_ ?_
        · rintro _ _ ⟨t, ht, hempty⟩
          exact ⟨t, List.mem_cons_of_mem _ ht, hempty⟩
        · rintro y g' ⟨hlengths, hshape, hlayout', hchain⟩
          exact ⟨List.forall_mem_cons.2 ⟨hlength, hlengths⟩, hshape, hlayout', .cons _ hchain⟩

/-- The tensor is laid out first, and then cut along one axis after another. -/
theorem lowerSlice_chain {x : Operand} {h : Handle} {out : Shape} (hready : p.Ready g ops out)
    (hinput : p.input? 0 = some (.handle h)) (hlayouts : p.layouts = [layout])
    (hx : ops.bound? 0 = some x) (hslices : keptSlices p.header bounds ops = .ok slices)
    (hvalid : h.Valid g) (hshape : h.shape = x.shape) (hrank : layout.rank = x.shape.rank) :
    Runs (fun _ _ => ∃ s ∈ AxisRange.changed slices x.shape, s.length = 0) g
      (lowerSlice p bounds) fun t g' =>
        (∀ s ∈ AxisRange.changed slices x.shape, s.length ≠ 0) ∧
        ∃ y, t = .handle y ∧ y.shape = AxisRange.apply slices x.shape ∧ y.layout = layout ∧
          g.Chain h.outlet (LayerKind.conversions h.layout layout h.shape ++
            (AxisRange.changed slices x.shape).map (AxisRange.layer layout)) g' y.outlet := by
  have hreads : p.Reads h out layout := ⟨hinput, hready.shapes, hlayouts⟩
  obtain ⟨x', hx', hwithin⟩ := (keptSlices_yields p.header bounds ops).value hslices
  obtain rfl := Option.some.inj (hx.symm.trans hx')
  have hkept := keptSlices_sliceOperands hready hx hslices
  rw [← hshape] at hrank hwithin hkept ⊢
  unfold lowerSlice
  refine Runs.lift_bind (Q := (layout = ·)) (.of_eq_ok hreads.layout_eq rfl) ?_
  rintro _ rfl
  refine hreads.handle_runs.bind ?_
  rintro _ _ ⟨rfl, rfl⟩
  refine ((Lowering.relayout_chain hvalid.outlet hrank p.name).mono (fun _ _ h => h.elim)
    fun _ _ h => h).bind ?_
  rintro ⟨_, _, o⟩ g' ⟨rfl, rfl, hfirst⟩
  refine Runs.lift_bind (Q := (slices = ·)) (.of_eq_ok hkept rfl) ?_
  rintro _ rfl
  have ho : g'.HasOutlet o :=
    hfirst.hasOutlet hvalid.outlet fun _ => LayerKind.outputCount_of_mem_conversions
  refine (lowerSlices_chain p (x := ⟨h.shape, _, o⟩) hwithin ho rfl hrank).bind ?_
  rintro y g'' ⟨hlengths, hshape', hlayout', hcuts⟩
  exact Runs.pure ⟨hlengths, y, rfl, hshape', hlayout', hfirst.append hcuts⟩

end Lowering

/-! ### Both ways -/

section Values

variable {h : Header} {ops : Operands} {bounds : Option SliceBounds} {c : Constant} {i : Nat}

/-- The operands with a value for the first one. -/
def Operands.withValue (ops : Operands) (c : Constant) : Operands :=
  ops.set 0 (some ⟨c.shape, some c⟩)

theorem Operands.bound?_withValue_zero {x : Operand} (hx : ops.bound? 0 = some x) :
    (ops.withValue c).bound? 0 = some ⟨c.shape, some c⟩ := by
  cases ops with
  | nil => cases hx
  | cons _ _ => rfl

theorem Operands.bound?_withValue (hi : i ≠ 0) : (ops.withValue c).bound? i = ops.bound? i := by
  rw [bound?, withValue, List.getElem?_set_ne hi.symm, bound?]

/-- The bounds are read from the other operands. -/
theorem keptSlices_withValue {x : Operand} (hx : ops.bound? 0 = some x) (hc : c.shape = x.shape) :
    keptSlices h bounds (ops.withValue c) = keptSlices h bounds ops := by
  have hconstant {i : Nat} (hi : i ≠ 0) :
      (ops.withValue c).constant h i = ops.constant h i := by
    rw [Operands.constant, Operands.get, Operands.bound?_withValue hi]
    rfl
  have hconstant? {i : Nat} (hi : i ≠ 0) :
      (ops.withValue c).constant? h i = ops.constant? h i := by
    rw [Operands.constant?, Operands.bound?_withValue hi]
    rfl
  have hbounds : sliceBounds h bounds (ops.withValue c) = sliceBounds h bounds ops := by
    unfold sliceBounds
    rw [hconstant one_ne_zero, hconstant two_ne_zero, hconstant? three_ne_zero,
      hconstant? four_ne_zero]
  have hshape : (ops.withValue c).shape h 0 = ops.shape h 0 := by
    rw [Operands.shape, Operands.shape, Operands.get, Operands.get,
      Operands.bound?_withValue_zero hx, hx]
    exact congrArg Except.ok hc
  rw [keptSlices, hbounds, hshape]
  rfl

end Values

theorem foldOutputs_of_foldSlice {op : Operator} {bounds : Option SliceBounds} {ops : Operands}
    {r : Constant} (haction : op.action = .slice bounds)
    (hr : foldSlice op.header bounds ops = .ok r) : op.foldOutputs ops = .ok [r] := by
  rw [Operator.foldOutputs, Operator.fold, Operator.foldBy, haction]
  dsimp only
  rw [hr]
  rfl

/-- **The layers give what the strided reading gives.** The conversion, if there is one, leaves a
buffer that is seen under the committed layout, and the cuts go on from there. -/
theorem cutAll?_agrees {op : Operator} {bounds : Option SliceBounds} {ops : Operands} {x : Operand}
    {slices : List AxisRange} {layout : Layout} {c : Constant} (haction : op.action = .slice bounds)
    (hslices : keptSlices op.header bounds ops = .ok slices) (hx : ops.bound? 0 = some x)
    (hwithin : AxisRange.Within x.shape slices) (hc : c.shape = x.shape)
    (hrank : layout.rank = x.shape.rank) :
    ∃ r z b w, op.foldOutputs (ops.withValue c) = .ok [r] ∧
      LayerKind.run? (LayerKind.conversions c.layout layout c.shape) c = some z ∧
      b.shape = c.shape ∧ b.layout = layout ∧ b.data = z.data ∧
      LayerKind.cutAll? ((AxisRange.changed slices x.shape).map (AxisRange.layer layout)) b =
        some w ∧ w.shape = r.shape ∧ w.source = r.source := by
  rw [← hc] at hwithin hrank ⊢
  have hfits := Layout.fits_of_rank hrank
  obtain ⟨r, hr, hcut⟩ := foldSlice_cutOf (Operands.bound?_withValue_zero hx)
    ((keptSlices_withValue hx hc).trans hslices)
  obtain ⟨z, hz, hsize, htype, helements⟩ := LayerKind.run?_conversions hfits
  let b : Constant := ⟨c.shape, layout, z.data, hfits, hsize⟩
  obtain ⟨w, hw, hcut'⟩ := LayerKind.cutAll?_layers (c := b) hwithin hrank
  have hshape : w.shape = r.shape := hcut'.shape.trans hcut.shape.symm
  refine ⟨r, z, b, w, foldOutputs_of_foldSlice haction hr, hz, rfl, rfl, rfl, hw, hshape, ?_⟩
  apply Constant.source_eq_of_elements hshape
  · rw [hcut'.elementType, hcut.elementType, htype]
  · intro ix hix
    have horigin := AxisRange.within_origin hwithin (hcut.shape ▸ hix)
    rw [hcut'.element ix (hshape ▸ hix), hcut.element ix hix]
    exact helements _ horigin

/-- A run-time tensor is cut by layers behind it. -/
structure Operator.Cuts (op : Operator) (ops : Operands) (slices : List AxisRange) (g : LayerGraph)
    (x : Handle) (g' : LayerGraph) (y : Handle) : Prop where
  shape : y.shape = AxisRange.apply slices x.shape
  /-- The new layers lay the tensor out, if that is needed, and cut along one axis each. -/
  chain : g.Chain x.outlet (LayerKind.conversions x.layout y.layout x.shape ++
    (AxisRange.changed slices x.shape).map (AxisRange.layer y.layout)) g' y.outlet
  /-- Whatever the values are, the layers give what the operator computes from them. -/
  agrees : ∀ c, c.shape = x.shape → c.layout = x.layout → ∃ r z b w,
    op.foldOutputs (ops.withValue c) = .ok [r] ∧
      LayerKind.run? (LayerKind.conversions x.layout y.layout x.shape) c = some z ∧
      b.shape = x.shape ∧ b.layout = y.layout ∧ b.data = z.data ∧
      LayerKind.cutAll? ((AxisRange.changed slices x.shape).map (AxisRange.layer y.layout)) b =
        some w ∧ w.shape = r.shape ∧ w.source = r.source

/-- Keeps all columns but the first and all rows but the last. The outer bounds are as far outside
as they can be. -/
def cutCorner : Operator :=
  ⟨⟨"Slice", "slice", 9⟩,
    .slice (some ⟨[-3, Int64.minValue], [Int64.maxValue, -1], some [1, 0], none⟩)⟩

/-- Three rows of four. -/
def threeRows : Handle := ⟨⟨[3, 4]⟩, ⟨[.width, .depth], by decide⟩, ⟨0, 0⟩⟩

end Lamina
