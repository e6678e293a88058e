import Mathlib
import Lamina.Buffer.Strided

/-!
# Strided reading: nothing is read out of bounds

`readStrided` leaves out what lies beyond its buffer, so that the number of elements it gives is a
statement about bounds. The offsets of an index space go up to its `reach`, and a reading whose
reach ends within the buffer gives one element per position (`size_readStrided`).

The three ways of reading that occur stay within the buffer: in another order of the axes
(`size_permuteAxes`), repeated along unit axes (`size_repeatAxes`), and cut out of it
(`reach_set_add_le`, by which a range along an axis takes away from the reach what it adds to the
base).
-/

namespace Lamina

/-! ### Numbers of positions -/

theorem positions_eq_prod (dims : List Nat) : positions dims = dims.prod := rfl

@[simp] theorem positions_nil : positions [] = 1 := rfl

@[simp] theorem positions_cons (d : Nat) (ds : List Nat) : positions (d :: ds) = d * positions ds :=
  rfl

@[simp] theorem positions_append (a b : List Nat) :
    positions (a ++ b) = positions a * positions b := by
  simp only [positions_eq_prod, List.prod_append]

@[simp] theorem positions_replicate_one (n : Nat) : positions (List.replicate n 1) = 1 := by
  simp [positions_eq_prod]

theorem positions_perm {a b : List Nat} (h : a.Perm b) : positions a = positions b := by
  simp only [positions_eq_prod, h.prod_eq]

theorem positions_eq_zero {dims : List Nat} : positions dims = 0 ↔ 0 ∈ dims := by
  rw [positions_eq_prod, List.prod_eq_zero_iff]

/-- The extents listed by axis are the extents. -/
theorem extents_by_axis (dims : List Nat) (d : Nat) :
    (List.range dims.length).map (fun p => dims.getD p d) = dims := by
  refine List.ext_getElem (by simp) fun i hi hi' => ?_
  simp [List.getD_eq_getElem?_getD, List.getElem?_eq_getElem hi']

theorem positions_map_getD {dims perm : List Nat} (hperm : perm.Perm (List.range dims.length)) :
    positions (perm.map fun p => dims.getD p 1) = positions dims := by
  rw [positions_perm (hperm.map _), extents_by_axis]

/-! ### Offsets -/

theorem length_stridedOffsets (dims strides : List Nat) :
    (stridedOffsets dims strides).length = positions dims := by
  induction dims generalizing strides with
  | nil => rfl
  | cons d ds ih =>
    rw [stridedOffsets, List.length_flatMap]
    simp [ih]

/-- The largest offset of an index space that is not empty. -/
def reach (dims strides : List Nat) : Nat := (dims.zipWith (fun d s => (d - 1) * s) strides).sum

theorem reach_cons (d s : Nat) (ds ss : List Nat) :
    reach (d :: ds) (s :: ss) = (d - 1) * s + reach ds ss := by
  simp [reach]

theorem reach_nil_right (dims : List Nat) : reach dims [] = 0 := by
  simp [reach]

theorem le_reach {dims strides : List Nat} {offset : Nat}
    (h : offset ∈ stridedOffsets dims strides) : offset ≤ reach dims strides := by
  induction dims generalizing strides offset with
  | nil =>
    have : offset = 0 := by simpa [stridedOffsets] using h
    omega
  | cons d ds ih =>
    rw [stridedOffsets, List.mem_flatMap] at h
    obtain ⟨i, hi, h⟩ := h
    obtain ⟨inner, hinner, rfl⟩ := List.mem_map.1 h
    have hle := ih hinner
    have hi : i ≤ d - 1 := Nat.le_sub_one_of_lt (List.mem_range.1 hi)
    cases strides with
    | nil =>
      rw [List.tail_nil, reach_nil_right] at hle
      simp [reach_nil_right, Nat.le_zero.1 hle]
    | cons s ss =>
      rw [reach_cons]
      exact Nat.add_le_add (Nat.mul_le_mul_right s hi) hle

/-- A reading whose reach ends within the buffer gives one element per position. -/
theorem size_readStrided {α : Type} {data : Array α} {base : Nat} {dims strides : List Nat}
    (h : positions dims ≠ 0 → base + reach dims strides < data.size) :
    (readStrided data base dims strides).size = positions dims := by
  -- nothing is left out, since no offset goes beyond the reach
  have hall : ∀ offset ∈ stridedOffsets dims strides, (data[base + offset]?).isSome := by
    intro offset hoffset
    have hpos : positions dims ≠ 0 := by
      rw [← length_stridedOffsets dims strides]
      exact (List.length_pos_of_mem hoffset).ne'
    have hle := le_reach hoffset
    have hlt : base + offset < data.size := by
      have := h hpos
      omega
    rw [Array.getElem?_eq_getElem hlt]
    rfl
  rw [readStrided, List.size_toArray, List.length_filterMap_eq_countP,
    List.countP_eq_length.2 hall, length_stridedOffsets]

/-! ### Row-major buffers -/

@[simp] theorem length_rowMajorStrides (dims : List Nat) :
    (rowMajorStrides dims).length = dims.length := by
  induction dims with
  | nil => rfl
  | cons d ds ih => simp [rowMajorStrides, ih]

/-- The last position of a row-major buffer is the last of its elements. -/
theorem reach_rowMajorStrides {dims : List Nat} (h : positions dims ≠ 0) :
    reach dims (rowMajorStrides dims) + 1 = positions dims := by
  induction dims with
  | nil => rfl
  | cons d ds ih =>
    rw [positions_cons] at h
    obtain ⟨hd, hds⟩ := mul_ne_zero_iff.1 h
    have hpos : 0 < d := Nat.pos_of_ne_zero hd
    rw [rowMajorStrides, reach_cons, positions_cons, Nat.add_assoc, ih hds, Nat.sub_mul,
      Nat.one_mul, Nat.sub_add_cancel (Nat.le_mul_of_pos_left _ hpos)]

/-- The reach as a sum over the axes. -/
theorem reach_eq_sum_range {dims strides : List Nat} (h : strides.length = dims.length) :
    reach dims strides =
      ((List.range dims.length).map fun p => (dims.getD p 1 - 1) * strides.getD p 0).sum := by
  unfold reach
  congr 1
  refine List.ext_getElem (by simp [h]) fun i hi hi' => ?_
  have hd : i < dims.length := by simpa using hi'
  have hs : i < strides.length := h ▸ hd
  simp [List.getD_eq_getElem?_getD, List.getElem?_eq_getElem hd, List.getElem?_eq_getElem hs]

theorem reach_map_perm {dims strides perm : List Nat} (h : strides.length = dims.length)
    (hperm : perm.Perm (List.range dims.length)) :
    reach (perm.map fun p => dims.getD p 1) (perm.map fun p => strides.getD p 0) =
      reach dims strides := by
  rw [reach_eq_sum_range h, ← (hperm.map _).sum_eq, reach, List.zipWith_map, List.zipWith_self]

/-- Reordering the axes of a buffer keeps its size. -/
theorem size_permuteAxes {α : Type} {data : Array α} {dims perm : List Nat}
    (hsize : data.size = positions dims) (hperm : perm.Perm (List.range dims.length)) :
    (permuteAxes data dims perm).size = positions dims := by
  unfold permuteAxes
  split
  · exact hsize
  · rw [size_readStrided, positions_map_getD hperm]
    intro hpos
    rw [positions_map_getD hperm] at hpos
    rw [reach_map_perm (length_rowMajorStrides dims) hperm, hsize]
    have := reach_rowMajorStrides hpos
    omega

theorem inverseOrder_perm {perm : List Nat} {n : Nat} (hperm : perm.Perm (List.range n)) :
    (inverseOrder perm).Perm (List.range n) := by
  have hlength : perm.length = n := by simpa using hperm.length_eq
  have hnodup : perm.Nodup := hperm.nodup_iff.2 List.nodup_range
  have hself : perm.map perm.idxOf = List.range perm.length := by
    refine List.ext_getElem (by simp) fun i hi hi' => ?_
    simp [hnodup.idxOf_getElem]
  unfold inverseOrder
  rw [hlength]
  refine (hperm.map perm.idxOf).symm.trans ?_
  rw [hself, hlength]

/-! ### Repeating along unit axes -/

/-- Extents that repeat up to others: along each axis they are the same or one. -/
def Stretches (dims target : List Nat) : Prop := List.Forall₂ (fun d t => d = t ∨ d = 1) dims target

theorem positions_ne_zero_of_stretches {dims target : List Nat} (h : Stretches dims target)
    (hpos : positions target ≠ 0) : positions dims ≠ 0 := by
  induction h with
  | nil => exact hpos
  | @cons d t ds ts hd _ ih =>
    rw [positions_cons] at hpos ⊢
    obtain ⟨ht, hts⟩ := mul_ne_zero_iff.1 hpos
    refine mul_ne_zero ?_ (ih hts)
    rcases hd with rfl | rfl
    · exact ht
    · exact one_ne_zero

theorem reach_repeatingStrides_le {dims target : List Nat} (h : Stretches dims target) :
    reach target (repeatingStrides dims target) ≤ reach dims (rowMajorStrides dims) := by
  unfold repeatingStrides
  induction h with
  | nil => exact Nat.le_refl 0
  | @cons d t ds ts hd _ ih =>
    simp only [rowMajorStrides, List.zipWith_cons_cons, reach_cons]
    refine Nat.add_le_add ?_ ih
    by_cases heq : d = t
    · simp [heq]
    · simp [heq]

/-- A buffer can be repeated up to any extents that its own stretch to. -/
theorem size_repeatAxes {α : Type} {data : Array α} {dims target : List Nat}
    (hsize : data.size = positions dims) (h : Stretches dims target) :
    (repeatAxes data dims target).size = positions target := by
  unfold repeatAxes
  refine size_readStrided fun hpos => ?_
  have := reach_repeatingStrides_le h
  have := reach_rowMajorStrides (positions_ne_zero_of_stretches h hpos)
  omega

/-! ### Cutting out -/

/-- Keeping `length` positions from `start` on along an axis moves the base by no more than it takes
off the reach. -/
theorem reach_set_add_le {dims strides : List Nat} {axis start length : Nat}
    (hpos : 0 < length) (haxis : axis < dims.length) (hfits : start + length ≤ dims.getD axis 1) :
    start * strides.getD axis 0 + reach (dims.set axis length) strides ≤ reach dims strides := by
  induction dims generalizing axis strides with
  | nil => simp at haxis
  | cons d ds ih =>
    cases strides with
    | nil => simp [reach_nil_right]
    | cons s ss =>
      cases axis with
      | zero =>
        rw [List.getD_cons_zero] at hfits ⊢
        rw [List.set_cons_zero, reach_cons, reach_cons, ← Nat.add_assoc, ← Nat.add_mul]
        exact Nat.add_le_add_right (Nat.mul_le_mul_right s (by omega)) _
      | succ axis =>
        rw [List.getD_cons_succ] at hfits ⊢
        rw [List.set_cons_succ, reach_cons, reach_cons, ← Nat.add_assoc,
          Nat.add_comm (start * _), Nat.add_assoc]
        exact Nat.add_le_add_left (ih (by simpa using haxis) hfits) _

end Lamina
