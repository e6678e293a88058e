import Mathlib
import Lamina.Proofs.Strided

/-!
# Strided reading: which element is read

An index of an index space has one entry per axis, below the extent (`Within`). `indices` lists all
of them in row-major order, and `place` is the position of an index in this order, so that the two
are inverse to each other (`map_place_indices`).

What a strided reading has at the place of an index is the element at the sum of index times stride
(`getElem?_readStrided`). From this the elements of the two rearrangements follow: with its axes in
another order a buffer has the same element at the index in that order (`getElem?_permuteAxes`), and
repeated along unit axes it has the element at the index with these axes at zero
(`getElem?_repeatAxes`).
-/

namespace Lamina

variable {α : Type} {dims ix : List Nat}

/-! ### Indices and their places -/

/-- An index with one entry per axis, each below the extent. -/
def Within (dims ix : List Nat) : Prop := List.Forall₂ (fun d i => i < d) dims ix

/-- All indices, the last axis running fastest. -/
def indices : List Nat → List (List Nat)
  | [] => [[]]
  | d :: ds => (List.range d).flatMap fun i => (indices ds).map (i :: ·)

/-- The row-major position of an index. -/
def place : List Nat → List Nat → Nat
  | _ :: ds, i :: ix => i * positions ds + place ds ix
  | _, _ => 0

/-- The sum of index times stride. -/
def dot : List Nat → List Nat → Nat
  | i :: ix, s :: strides => i * s + dot ix strides
  | _, _ => 0

theorem mem_indices : ix ∈ indices dims ↔ Within dims ix := by
  induction dims generalizing ix with
  | nil =>
    rw [Within, List.forall₂_nil_left_iff]
    exact List.mem_singleton
  | cons d ds ih =>
    rw [Within, List.forall₂_cons_left_iff, indices, List.mem_flatMap]
    constructor
    · rintro ⟨i, hi, hmem⟩
      obtain ⟨rest, hrest, rfl⟩ := List.mem_map.1 hmem
      exact ⟨i, rest, List.mem_range.1 hi, ih.1 hrest, rfl⟩
    · rintro ⟨i, rest, hi, hrest, rfl⟩
      exact ⟨i, List.mem_range.2 hi, List.mem_map.2 ⟨rest, ih.2 hrest, rfl⟩⟩

/-- Blocks of one length, one after another. -/
theorem flatMap_range_blocks (d n : Nat) :
    ((List.range d).flatMap fun i => (List.range n).map (i * n + ·)) = List.range (d * n) := by
  induction d with
  | zero => simp
  | succ d ih =>
    rw [List.range_succ, List.flatMap_append, ih, Nat.succ_mul, List.range_add]
    simp

/-- **The places of all indices, in order, are the positions.** -/
theorem map_place_indices (dims : List Nat) :
    (indices dims).map (place dims) = List.range (positions dims) := by
  induction dims with
  | nil => rfl
  | cons d ds ih =>
    rw [positions_cons, ← flatMap_range_blocks, ← ih, indices, List.map_flatMap]
    simp only [List.map_map]
    rfl

theorem length_indices (dims : List Nat) : (indices dims).length = positions dims := by
  have h := congrArg List.length (map_place_indices dims)
  simpa using h

/-- The index at the place of an index. -/
theorem getElem?_indices (h : Within dims ix) : (indices dims)[place dims ix]? = some ix := by
  obtain ⟨k, hk⟩ := List.mem_iff_getElem?.1 (mem_indices.2 h)
  have hplace : (List.range (positions dims))[k]? = some (place dims ix) := by
    rw [← map_place_indices, List.getElem?_map, hk]
    rfl
  obtain ⟨hlt, heq⟩ := List.getElem?_eq_some_iff.1 hplace
  rw [List.getElem_range] at heq
  rwa [← heq]

/-- Indices of one place are equal. -/
theorem place_injective {jx : List Nat} (h : Within dims ix) (h' : Within dims jx)
    (heq : place dims ix = place dims jx) : ix = jx := by
  have hsame := getElem?_indices h
  rw [heq, getElem?_indices h'] at hsame
  exact (Option.some.inj hsame).symm

theorem place_lt (h : Within dims ix) : place dims ix < positions dims := by
  rw [← length_indices]
  exact (List.getElem?_eq_some_iff.1 (getElem?_indices h)).1

/-- Every position is the place of an index. -/
theorem exists_place {k : Nat} (h : k < positions dims) :
    ∃ ix, Within dims ix ∧ place dims ix = k := by
  have hmem : k ∈ (indices dims).map (place dims) := by
    rw [map_place_indices]
    exact List.mem_range.2 h
  obtain ⟨ix, hix, hplace⟩ := List.mem_map.1 hmem
  exact ⟨ix, mem_indices.1 hix, hplace⟩

theorem Within.exists_append {a b : List Nat} (h : Within (a ++ b) ix) :
    ∃ left right, ix = left ++ right ∧ Within a left ∧ Within b right := by
  induction a generalizing ix with
  | nil => exact ⟨[], ix, rfl, .nil, h⟩
  | cons d a ih =>
    cases h with
    | cons hi hrest =>
      obtain ⟨left, right, rfl, hleft, hright⟩ := ih hrest
      exact ⟨_ :: left, right, rfl, .cons hi hleft, hright⟩

theorem place_append {front back front' back' : List Nat} (h : front.length = front'.length) :
    place (front ++ back) (front' ++ back') =
      place front front' * positions back + place back back' := by
  induction front generalizing front' with
  | nil =>
    obtain rfl : front' = [] := List.eq_nil_of_length_eq_zero h.symm
    simp [place]
  | cons d ds ih =>
    cases front' with
    | nil => simp at h
    | cons i ix =>
      simp only [List.cons_append, place, positions_append]
      rw [ih (by simpa using h)]
      ring

theorem place_replicate_one (n : Nat) : place (List.replicate n 1) (List.replicate n 0) = 0 := by
  induction n with
  | zero => rfl
  | succ n ih => simp [List.replicate_succ, place, ih]

/-! ### Offsets of indices -/

theorem dot_nil_right (ix : List Nat) : dot ix [] = 0 := by
  cases ix <;> rfl

theorem dot_append {front front' back back' : List Nat} (h : front.length = front'.length) :
    dot (front ++ back) (front' ++ back') = dot front front' + dot back back' := by
  induction front generalizing front' with
  | nil =>
    obtain rfl : front' = [] := List.eq_nil_of_length_eq_zero h.symm
    simp [dot]
  | cons i front ih =>
    cases front' with
    | nil => simp at h
    | cons s front' =>
      simp only [List.cons_append, dot]
      rw [ih (by simpa using h), Nat.add_assoc]

theorem stridedOffsets_eq (dims strides : List Nat) :
    stridedOffsets dims strides = (indices dims).map (dot · strides) := by
  induction dims generalizing strides with
  | nil => cases strides <;> rfl
  | cons d ds ih =>
    rw [stridedOffsets, indices, List.map_flatMap, ih]
    refine List.flatMap_congr fun i _ => ?_
    rw [List.map_map, List.map_map]
    refine List.map_congr_left fun rest _ => ?_
    cases strides with
    | nil => simp [dot_nil_right]
    | cons s ss => rfl

theorem dot_rowMajorStrides (h : Within dims ix) :
    dot ix (rowMajorStrides dims) = place dims ix := by
  unfold Within at h
  induction h with
  | nil => rfl
  | cons _ _ ih => rw [rowMajorStrides, dot, place, ih]

/-- The sum over the axes. -/
theorem dot_eq_sum_range {strides : List Nat} (h : strides.length = ix.length) :
    dot ix strides =
      ((List.range ix.length).map fun p => ix.getD p 0 * strides.getD p 0).sum := by
  induction ix generalizing strides with
  | nil =>
    obtain rfl : strides = [] := List.eq_nil_of_length_eq_zero h
    rfl
  | cons i ix ih =>
    cases strides with
    | nil => simp at h
    | cons s ss =>
      rw [dot, ih (by simpa using h), List.length_cons, List.range_succ_eq_map, List.map_cons,
        List.sum_cons, List.map_map]
      rfl

/-- Nothing is left out by a filter that keeps everything. -/
theorem getElem?_filterMap {β : Type} {f : α → Option β} {l : List α}
    (h : ∀ a ∈ l, (f a).isSome) (k : Nat) : (l.filterMap f)[k]? = (l[k]?).bind f := by
  induction l generalizing k with
  | nil => rfl
  | cons a l ih =>
    obtain ⟨b, hb⟩ := Option.isSome_iff_exists.1 (h a List.mem_cons_self)
    rw [List.filterMap_cons_some hb]
    cases k with
    | zero => simp [hb]
    | succ k =>
      rw [List.getElem?_cons_succ, List.getElem?_cons_succ]
      exact ih (fun a ha => h a (List.mem_cons_of_mem _ ha)) k

/-- **A strided reading has at the place of an index the element at its offset.** -/
theorem getElem?_readStrided {data : Array α} {base : Nat} {strides : List Nat}
    (hbounds : positions dims ≠ 0 → base + reach dims strides < data.size) (h : Within dims ix) :
    (readStrided data base dims strides)[place dims ix]? = data[base + dot ix strides]? := by
  have hpos : positions dims ≠ 0 := Nat.ne_zero_of_lt (place_lt h)
  have hall : ∀ offset ∈ stridedOffsets dims strides, (data[base + offset]?).isSome := by
    intro offset hoffset
    have hle := le_reach hoffset
    have hlt : base + offset < data.size := by
      have := hbounds hpos
      omega
    rw [Array.getElem?_eq_getElem hlt]
    rfl
  rw [readStrided, List.getElem?_toArray, getElem?_filterMap hall, stridedOffsets_eq,
    List.getElem?_map, getElem?_indices h]
  rfl

/-! ### Axes in another order -/

/-- The extents of axes in an order. -/
def arrangedDims (order dims : List Nat) : List Nat := order.map fun p => dims.getD p 1

/-- The entries of an index in an order of the axes. -/
def arrangedIndex (order ix : List Nat) : List Nat := order.map fun p => ix.getD p 0

theorem Within.length_eq (h : Within dims ix) : ix.length = dims.length :=
  (List.Forall₂.length_eq h).symm

theorem Within.getD_lt (h : Within dims ix) {p : Nat} (hp : p < dims.length) :
    ix.getD p 0 < dims.getD p 1 := by
  have hp' : p < ix.length := h.length_eq ▸ hp
  rw [List.getD_eq_getElem _ _ hp, List.getD_eq_getElem _ _ hp']
  exact List.Forall₂.get h hp hp'

/-- Axes within range can be taken in any order. -/
theorem Within.arranged (h : Within dims ix) {order : List Nat}
    (horder : ∀ p ∈ order, p < dims.length) :
    Within (arrangedDims order dims) (arrangedIndex order ix) := by
  unfold Within arrangedDims arrangedIndex
  rw [List.forall₂_map_left_iff, List.forall₂_map_right_iff]
  exact List.forall₂_same.2 fun p hp => h.getD_lt (horder p hp)

/-- An index listed by axis is the index. -/
theorem index_by_axis (ix : List Nat) : arrangedIndex (List.range ix.length) ix = ix :=
  extents_by_axis ix 0

theorem mem_range_of_perm {order : List Nat} {n : Nat} (hperm : order.Perm (List.range n)) {p : Nat}
    (hp : p ∈ order) : p < n := List.mem_range.1 (hperm.subset hp)

/-- The offset does not depend on the order of the axes. -/
theorem dot_arranged {strides order : List Nat} (hstrides : strides.length = ix.length)
    (hperm : order.Perm (List.range ix.length)) :
    dot (arrangedIndex order ix) (order.map fun p => strides.getD p 0) = dot ix strides := by
  rw [dot_eq_sum_range hstrides, ← (hperm.map _).sum_eq]
  unfold arrangedIndex
  clear hperm
  induction order with
  | nil => rfl
  | cons p order ih => rw [List.map_cons, List.map_cons, dot, ih, List.map_cons, List.sum_cons]

/-- **With its axes in another order, a buffer has the same element at the index in that order.** -/
theorem getElem?_permuteAxes {data : Array α} {order : List Nat}
    (hsize : data.size = positions dims) (hperm : order.Perm (List.range dims.length))
    (h : Within dims ix) :
    (permuteAxes data dims order)[place (arrangedDims order dims) (arrangedIndex order ix)]? =
      data[place dims ix]? := by
  unfold permuteAxes
  split
  · rename_i hidentity
    have horder : order = List.range dims.length := by
      have hlength : order.length = dims.length := by simpa using hperm.length_eq
      rw [← hlength]
      exact eq_of_beq hidentity
    rw [horder, arrangedDims, extents_by_axis, ← h.length_eq, index_by_axis]
  · have harranged := h.arranged fun p hp => mem_range_of_perm hperm hp
    have hperm' : order.Perm (List.range ix.length) := by rwa [h.length_eq]
    dsimp only
    rw [← arrangedDims, getElem?_readStrided _ harranged, Nat.zero_add,
      dot_arranged (by rw [length_rowMajorStrides, h.length_eq]) hperm', dot_rowMajorStrides h]
    intro hpos
    have hcount := positions_map_getD hperm
    unfold arrangedDims at hpos ⊢
    rw [hcount] at hpos
    rw [reach_map_perm (length_rowMajorStrides dims) hperm, hsize]
    have := reach_rowMajorStrides hpos
    omega

theorem getD_map_idxOf {order : List Nat} {axis : Nat} (haxis : axis ∈ order) (f : Nat → Nat)
    (default : Nat) : (order.map f).getD (order.idxOf axis) default = f axis := by
  have hlt : order.idxOf axis < order.length := List.idxOf_lt_length_of_mem haxis
  rw [List.getD_eq_getElem _ _ (by simpa using hlt), List.getElem_map, List.getElem_idxOf]

/-- The order of axes that undoes another gives back an index. -/
theorem arrangedIndex_inverseOrder {order : List Nat} (hperm : order.Perm (List.range ix.length)) :
    arrangedIndex (inverseOrder order) (arrangedIndex order ix) = ix := by
  have hlength : order.length = ix.length := by simpa using hperm.length_eq
  conv_rhs => rw [← index_by_axis ix]
  unfold arrangedIndex inverseOrder
  rw [List.map_map, hlength]
  exact List.map_congr_left fun axis haxis => getD_map_idxOf (hperm.mem_iff.2 haxis) _ 0

theorem arrangedDims_inverseOrder {order : List Nat}
    (hperm : order.Perm (List.range dims.length)) :
    arrangedDims (inverseOrder order) (arrangedDims order dims) = dims := by
  have hlength : order.length = dims.length := by simpa using hperm.length_eq
  conv_rhs => rw [← extents_by_axis dims 1]
  unfold arrangedDims inverseOrder
  rw [List.map_map, hlength]
  exact List.map_congr_left fun axis haxis => getD_map_idxOf (hperm.mem_iff.2 haxis) _ 1

/-- An index of the arranged axes comes from one of the axes. -/
theorem exists_arrangedIndex {order mem : List Nat} (hperm : order.Perm (List.range dims.length))
    (h : Within (arrangedDims order dims) mem) :
    ∃ ix, Within dims ix ∧ arrangedIndex order ix = mem := by
  have hlength : order.length = dims.length := by simpa using hperm.length_eq
  have hmem : mem.length = order.length := by simpa [arrangedDims] using h.length_eq
  refine ⟨arrangedIndex (inverseOrder order) mem, ?_, ?_⟩
  · have hinverse : ∀ p ∈ inverseOrder order, p < (arrangedDims order dims).length := by
      intro p hp
      have := mem_range_of_perm (inverseOrder_perm hperm) hp
      simpa [arrangedDims, hlength] using this
    have harranged := h.arranged hinverse
    rwa [arrangedDims_inverseOrder hperm] at harranged
  · refine List.ext_getElem (by simp [arrangedIndex, hmem]) fun k hk hk' => ?_
    have hk'' : k < order.length := hmem ▸ hk'
    have hp : order[k] < order.length := by
      rw [hlength]
      exact mem_range_of_perm hperm (List.getElem_mem hk'')
    have hnodup : order.Nodup := hperm.nodup_iff.2 List.nodup_range
    simp [arrangedIndex, inverseOrder, hp, hnodup.idxOf_getElem, hk']

/-! ### Repeating along unit axes -/

/-- An index with the entries along unit axes at zero. -/
def clip (dims ix : List Nat) : List Nat := dims.zipWith (fun d i => if d = 1 then 0 else i) ix

theorem Within.clip {target : List Nat} (hstretch : Stretches dims target) (h : Within target ix) :
    Within dims (clip dims ix) := by
  unfold Within Stretches Lamina.clip at *
  induction hstretch generalizing ix with
  | nil =>
    cases h
    exact .nil
  | @cons d t ds ts hd _ ih =>
    cases h with
    | cons hi hrest =>
      refine .cons ?_ (ih hrest)
      by_cases hone : d = 1
      · simp [hone]
      · obtain rfl := hd.resolve_right hone
        simpa [hone] using hi

/-- Along axes that are not repeated an index stays. -/
theorem clip_self (h : Within dims ix) : clip dims ix = ix := by
  unfold Within Lamina.clip at *
  induction h with
  | nil => rfl
  | @cons d i ds ix hi _ ih =>
    rw [List.zipWith_cons_cons, ih]
    split
    · rename_i hone
      obtain rfl : i = 0 := by omega
      rfl
    · rfl

theorem dot_repeatingStrides {target : List Nat} (hstretch : Stretches dims target)
    (h : Within target ix) : dot ix (repeatingStrides dims target) = place dims (clip dims ix) := by
  unfold Within Stretches repeatingStrides Lamina.clip at *
  induction hstretch generalizing ix with
  | nil =>
    cases h
    rfl
  | @cons d t ds ts hd _ ih =>
    cases h with
    | @cons _ i _ ix hi hrest =>
      simp only [rowMajorStrides, List.zipWith_cons_cons, dot, place, ih hrest]
      congr 1
      by_cases hone : d = 1
      · rw [if_pos hone, Nat.zero_mul]
        by_cases heq : d = t
        · obtain rfl : i = 0 := by omega
          rw [Nat.zero_mul]
        · simp [heq]
      · obtain rfl := hd.resolve_right hone
        simp [hone]

/-- **Repeated along unit axes, a buffer has the element at the index with these axes at zero.** -/
theorem getElem?_repeatAxes {data : Array α} {target : List Nat}
    (hsize : data.size = positions dims) (hstretch : Stretches dims target) (h : Within target ix) :
    (repeatAxes data dims target)[place target ix]? = data[place dims (clip dims ix)]? := by
  unfold repeatAxes
  rw [getElem?_readStrided _ h, Nat.zero_add, dot_repeatingStrides hstretch h]
  intro hpos
  have := reach_repeatingStrides_le hstretch
  have := reach_rowMajorStrides (positions_ne_zero_of_stretches hstretch hpos)
  omega

end Lamina
