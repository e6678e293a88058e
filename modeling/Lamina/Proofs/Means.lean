import Mathlib
import Lamina.Proofs.Packing
import Lamina.Proofs.UnitAxes

/-!
# Means, cell by cell

A mean over some axes is computed in one pass over the elements: each of them is added to a cell of
the result, which is found by strides that are zero along the reduced axes. Seen from the result, a
cell is the sum over some elements, from left to right: those with its index along the other axes
(`meanCell`). The axes that are reduced may be kept with one position or be left out. This makes
no difference to the place of a cell (`place_meanIndex`).

**Theorem** (`foldReduceMean_meanOf`): a mean of a constant succeeds, and each element of it is the
sum over its cell times the reciprocal of their number.
-/

namespace Lamina

variable {dims ix : List Nat} {axis : Nat}

/-! ### Cells -/

/-- The entries of a list, counted from `axis` on, with those of some axes set to a value. -/
def setFrom (axis : Nat) (l axes : List Nat) (v : Nat) : List Nat :=
  (l.zipIdx axis).map fun e => if axes.contains e.2 then v else e.1

theorem setFrom_cons (axis a : Nat) (l axes : List Nat) (v : Nat) :
    setFrom axis (a :: l) axes v =
      (if axis ∈ axes then v else a) :: setFrom (axis + 1) l axes v := by
  simp [setFrom]

theorem reducedDims_eq (dims axes : List Nat) :
    Kernel.reducedDims dims axes = setFrom 0 dims axes 1 := rfl

theorem Within.setFrom (h : Within dims ix) (axis : Nat) (axes : List Nat) :
    Within (setFrom axis dims axes 1) (setFrom axis ix axes 0) := by
  unfold Within at h ⊢
  induction h generalizing axis with
  | nil => exact .nil
  | cons hi _ ih =>
    rw [setFrom_cons, setFrom_cons]
    refine .cons ?_ (ih (axis + 1))
    split
    · exact Nat.one_pos
    · exact hi

theorem Within.dropFrom (h : Within dims ix) (axis : Nat) (axes : List Nat) :
    Within (dropFrom axis dims axes) (dropFrom axis ix axes) := by
  unfold Within at h ⊢
  induction h generalizing axis with
  | nil => exact .nil
  | cons hi _ ih =>
    by_cases hin : axis ∈ axes
    · rw [dropFrom_cons_of_mem hin, dropFrom_cons_of_mem hin]
      exact ih (axis + 1)
    · rw [dropFrom_cons_of_notMem hin, dropFrom_cons_of_notMem hin]
      exact .cons hi (ih (axis + 1))

/-- Axes of one position have no part in a place, so that they may be left out. -/
theorem place_dropFrom (h : Within dims ix) (axis : Nat) (axes : List Nat) :
    place (dropFrom axis dims axes) (dropFrom axis ix axes) =
        place (setFrom axis dims axes 1) (setFrom axis ix axes 0) ∧
      positions (dropFrom axis dims axes) = positions (setFrom axis dims axes 1) := by
  unfold Within at h
  induction h generalizing axis with
  | nil => exact ⟨rfl, rfl⟩
  | cons hi _ ih =>
    obtain ⟨hplace, hcount⟩ := ih (axis + 1)
    rw [setFrom_cons, setFrom_cons, place, positions_cons]
    by_cases hin : axis ∈ axes
    · rw [dropFrom_cons_of_mem hin, dropFrom_cons_of_mem hin, if_pos hin, if_pos hin,
        Nat.zero_mul, Nat.zero_add, Nat.one_mul]
      exact ⟨hplace, hcount⟩
    · rw [dropFrom_cons_of_notMem hin, dropFrom_cons_of_notMem hin, if_neg hin, if_neg hin, place,
        positions_cons, hplace, hcount]
      exact ⟨rfl, rfl⟩

/-- Strides that are zero along unit axes lead to the cell. -/
theorem dot_reducingStrides (h : Within dims ix) (axis : Nat) (axes : List Nat) :
    dot ix (((setFrom axis dims axes 1).zip (rowMajorStrides (setFrom axis dims axes 1))).map
      fun e => if e.1 = 1 then 0 else e.2) =
    place (setFrom axis dims axes 1) (setFrom axis ix axes 0) := by
  unfold Within at h
  induction h generalizing axis with
  | nil => rfl
  | @cons d i ds ix hi _ ih =>
    rw [setFrom_cons, setFrom_cons, rowMajorStrides, List.zip_cons_cons, List.map_cons, dot, place,
      ih (axis + 1)]
    congr 1
    by_cases hin : axis ∈ axes
    · simp [hin]
    · by_cases hone : d = 1
      · obtain rfl : i = 0 := by omega
        simp [hin]
      · simp [hin, hone]

theorem Kernel.reductionCells_eq (dims axes : List Nat) :
    reductionCells dims axes =
      (indices dims).map fun ix => place (reducedDims dims axes) (setFrom 0 ix axes 0) := by
  unfold reductionCells
  rw [stridedOffsets_eq]
  apply List.map_congr_left
  intro ix hix
  exact dot_reducingStrides (mem_indices.1 hix) 0 axes

/-- The index, in a mean, of the cell that an element is added to. -/
def meanIndex (reduced : List Nat) (keepDims : Bool) (ix : List Nat) : List Nat :=
  if keepDims then setFrom 0 ix reduced 0 else dropPositions ix reduced

/-- The elements that a cell of a mean is made of, in row-major order. -/
def meanCell (x : Shape) (reduced : List Nat) (keepDims : Bool) (jx : List Nat) :
    List (List Nat) :=
  (indices x.dims).filter fun ix => meanIndex reduced keepDims ix = jx

variable {x : Shape} {reduced : List Nat} {keepDims : Bool} {jx : List Nat}

theorem mem_meanCell :
    ix ∈ meanCell x reduced keepDims jx ↔
      Within x.dims ix ∧ meanIndex reduced keepDims ix = jx := by
  rw [meanCell, List.mem_filter, mem_indices, decide_eq_true_iff]

/-- An element is added to a cell that there is, and its place does not depend on whether the
reduced axes are kept. -/
theorem within_meanIndex (reduced : List Nat) (keepDims : Bool) (h : Within x.dims ix) :
    Within (meanShape x reduced keepDims).dims (meanIndex reduced keepDims ix) ∧
      place (meanShape x reduced keepDims).dims (meanIndex reduced keepDims ix) =
        place (Kernel.reducedDims x.dims reduced) (setFrom 0 ix reduced 0) := by
  unfold meanShape meanIndex
  cases keepDims with
  | true => exact ⟨h.setFrom 0 reduced, rfl⟩
  | false =>
    rw [if_neg Bool.false_ne_true, if_neg Bool.false_ne_true, Shape.dims_dropAxes,
      dropPositions_eq]
    exact ⟨h.dropFrom 0 reduced, (place_dropFrom h 0 reduced).1⟩

/-- The cell of a place. -/
theorem meanCell_eq (hjx : Within (meanShape x reduced keepDims).dims jx) :
    meanCell x reduced keepDims jx = (indices x.dims).filter fun ix =>
      place (Kernel.reducedDims x.dims reduced) (setFrom 0 ix reduced 0) =
        place (meanShape x reduced keepDims).dims jx := by
  apply List.filter_congr
  intro ix hix
  obtain ⟨hwithin, hplace⟩ := within_meanIndex reduced keepDims (mem_indices.1 hix)
  rw [decide_eq_decide, ← hplace]
  exact ⟨fun heq => by rw [heq], place_injective hwithin hjx⟩

/-! ### Sums -/

/-- **What is added to a cell** are the entries that name it, in their order. -/
theorem getElem?_foldl_modify {α β : Type} (f : α → β → β) (entries : List (α × Nat))
    (sums : Array β) (k : Nat) :
    (entries.foldl (fun sums e => sums.modify e.2 (f e.1)) sums)[k]? =
      (sums[k]?).map fun sum =>
        (entries.filter fun e => e.2 = k).foldl (fun sum e => f e.1 sum) sum := by
  induction entries generalizing sums with
  | nil => simp
  | cons e entries ih =>
    rw [List.foldl_cons, ih, Array.getElem?_modify]
    by_cases hcell : e.2 = k
    · rw [if_pos hcell, List.filter_cons_of_pos (by simpa using hcell), Option.map_map]
      rfl
    · rw [if_neg hcell, List.filter_cons_of_neg (by simpa using hcell)]

/-- The factor that makes a mean of a sum. -/
def meanScale (dims reduced : List Nat) : Binary32 :=
  Binary32.div .one (.ofInt (max (positions (reduced.map fun a => dims.getD a 1)) 1))

/-- A buffer in row-major order, index by index. -/
theorem toList_eq_map_indices {data : Array Binary32} (hsize : data.size = positions dims) :
    data.toList = (indices dims).map fun ix => data.getD (place dims ix) .zero := by
  have hlist : data.toList = (List.range data.size).map fun k => data.getD k .zero := by
    apply List.ext_getElem
    · simp
    · intro k hk _
      simp [show k < data.size by simpa using hk]
  rw [hlist, hsize, ← map_place_indices, List.map_map]
  rfl

/-- **Each value of a mean is the sum over its cell**, times the factor. -/
theorem Kernel.reduceMean_eq {data : Array Binary32} (hsize : data.size = positions dims)
    (haxes : ∀ a ∈ reduced, a < dims.length) :
    ∃ out, reduceMean data dims reduced = .ok out ∧
      out.size = positions (reducedDims dims reduced) ∧
      ∀ k < positions (reducedDims dims reduced), ∃ words : List Binary32,
        ((indices dims).filter fun ix => place (reducedDims dims reduced) (setFrom 0 ix reduced 0) =
          k).map (fun ix => data[place dims ix]?) = words.map some ∧
        out[k]? =
          some (Binary32.mul (words.foldl Binary32.add .zero) (meanScale dims reduced)) := by
  let word : List Nat → Binary32 := fun ix => data.getD (place dims ix) .zero
  let cell : List Nat → Nat := fun ix => place (reducedDims dims reduced) (setFrom 0 ix reduced 0)
  have hentries : data.toList.zip (reductionCells dims reduced) =
      (indices dims).map fun ix => (word ix, cell ix) := by
    rw [toList_eq_map_indices hsize, reductionCells_eq, List.zip_map']
  have hguard : data.size = positions dims ∧ (reduced.all fun a => decide (a < dims.length)) := by
    simpa [hsize] using haxes
  unfold reduceMean
  rw [if_pos hguard, hentries]
  refine ⟨_, rfl, ?_, fun k hk => ⟨((indices dims).filter fun ix => cell ix = k).map word, ?_, ?_⟩⟩
  · rw [Array.size_map]
    refine (size_foldl_modify _ (fun x sum => Binary32.add sum x) _).trans ?_
    simp
  · rw [List.map_map]
    apply List.map_congr_left
    intro ix hix
    have hlt : place dims ix < data.size :=
      hsize ▸ place_lt (mem_indices.1 (List.mem_filter.1 hix).1)
    simp [word, hlt]
  · have hsum : (((indices dims).map fun ix => (word ix, cell ix)).foldl
        (fun sums e => sums.modify e.2 fun sum => Binary32.add sum e.1)
        (Array.replicate (positions (reducedDims dims reduced)) .zero))[k]? =
        some ((((indices dims).filter fun ix => cell ix = k).map word).foldl Binary32.add
          .zero) := by
      rw [getElem?_foldl_modify (fun x sum => Binary32.add sum x), Array.getElem?_replicate,
        if_pos hk, Option.map_some, List.filter_map, List.foldl_map, List.foldl_map]
      rfl
    rw [Array.getElem?_map]
    exact congrArg (Option.map _) hsum

/-! ### Means of constants -/

/-- A constant is the mean of another one over some axes. -/
structure Constant.MeanOf (r c : Constant) (reduced : List Nat) (keepDims : Bool) : Prop where
  shape : r.shape = meanShape c.shape reduced keepDims
  words : ∀ jx, Within r.shape.dims jx → ∃ words : List Binary32,
    (meanCell c.shape reduced keepDims jx).map c.wordAt = words.map some ∧
      r.elementAt jx = some (.float
        (Binary32.mul (words.foldl Binary32.add .zero) (meanScale c.shape.dims reduced)))

theorem foldReduceMean_meanOf {h : Header} {axes : Option (List Int64)} {ops : Operands}
    {c : Constant} (hc : ops.constant h 0 = .ok c)
    (hreduced : reducedAxes h axes c.shape.rank = .ok reduced) :
    ∃ r, foldReduceMean h axes keepDims ops = .ok r ∧ r.MeanOf c reduced keepDims := by
  obtain ⟨-, haxes⟩ := (reducedAxes_yields h axes c.shape.rank).value hreduced
  obtain ⟨out, hout, hsize, hwords⟩ := Kernel.reduceMean_eq (Constant.size_floats c) haxes
  have hcount : (Buffer.floats out).size = (meanShape c.shape reduced keepDims).count :=
    hsize.trans (count_meanShape ..).symm
  obtain ⟨r, hr, hshape, hsource⟩ := Constant.exists_ofBuffer hcount
  have hrun : foldReduceMean h axes keepDims ops = .ok r := by
    unfold foldReduceMean
    rw [hc]
    show (reducedAxes h axes c.shape.rank >>= _) = _
    rw [hreduced]
    show (Kernel.reduceMean c.floats c.shape.dims reduced >>= _) = _
    rw [hout]
    exact hr
  refine ⟨r, hrun, hshape, fun jx hjx => ?_⟩
  rw [hshape] at hjx
  have hlt : place (meanShape c.shape reduced keepDims).dims jx <
      positions (Kernel.reducedDims c.shape.dims reduced) := by
    rw [← count_meanShape c.shape reduced keepDims]
    exact place_lt hjx
  obtain ⟨words, hcell, hvalue⟩ := hwords _ hlt
  refine ⟨words, ?_, ?_⟩
  · rw [← hcell, meanCell_eq hjx]
    apply List.map_congr_left
    intro ix hix
    exact (Constant.getElem?_floats (mem_indices.1 (List.mem_filter.1 hix).1)).symm
  · rw [← Constant.source_get? (hshape ▸ hjx), hsource, hshape, Buffer.get?, hvalue]
    rfl

end Lamina
