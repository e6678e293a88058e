import Mathlib
import Lamina.Proofs.Means
import Lamina.Proofs.Reshaping
import Lamina.Proofs.Windows

/-!
# Means as poolings

A mean of a run-time tensor is lowered to a pooling. The pooling knows nothing of axes: it slides a
window along the height and the width of a blob. So the reduced axes are brought to these slots
first, and axes that were there go elsewhere. Afterwards the unit axes are dropped if the mean does
not keep them, and the result goes to its committed layout.

Which elements end up in a cell is followed through memory. A layer is described by where in the
blob that it reads the contents of a position come from (`LayerStep.Draws`): for a conversion, from
the position of the same index; for a pooling, from all positions that the window covers, which is
said slot by slot (`PoolGeometry.Covers`). Layers are composed like relations (`Draws`).

* Along a slot without a reduced axis the window is a single point that moves by one, and along the
  others it spans everything. So a window covers an element if and only if the element has its index
  along the other axes (`PoolsAxes.covers_iff`).
* Conversions, and dropping unit axes, leave every element with its index
  (`draws_conversionSteps`, `address_meanIndex`).

**Theorem** (`Operator.reduceMean_pools`): a mean of a run-time tensor over at most two axes
succeeds, and each cell of the result draws from the elements of its cell in the mean of a constant,
and from no others.
-/

namespace Lamina

variable {dims ix jx : List Nat} {l target : Layout} {shape : Shape}

/-! ### Where the contents of a position come from -/

/-- The value along a slot. Other slots than height and width have a default. -/
def Planar.along (v : Planar) (other : Nat) (d : Slot) : Nat :=
  if d = .height then v.height else if d = .width then v.width else other

/-- The coordinate of an index along a slot. Without an axis there is one position. -/
def Layout.coordinate (l : Layout) (ix : List Nat) (d : Slot) : Nat :=
  ((l.position? d).map fun axis => ix.getD axis 0).getD 0

/-- The window at one position of a blob covers another position of a blob. Along the slots that are
not spatial the two are the same. -/
def PoolGeometry.Covers (w : PoolGeometry) (o i : Slot → Nat) : Prop :=
  ∀ d, o d * w.strides.along 1 d ≤ i d + w.pads.along 0 d ∧
    i d + w.pads.along 0 d < o d * w.strides.along 1 d + w.kernel.along 1 d

/-- Where the element of an index lies. -/
def View.address (v : View) (ix : List Nat) : Nat := v.layout.address v.shape.dims ix

/-- The extent along a slot. Without an axis there is one position. -/
def View.extentAt (v : View) (d : Slot) : Nat := ((v.layout.position? d).map v.shape.extent).getD 1

/-- The contents of a position depend on those of another position of the blob that is read. A
conversion takes the element of the same index, a pooling all that its window covers. -/
def LayerStep.Draws (s : LayerStep) (result origin : Nat) : Prop :=
  match s.kind with
  | .layoutConversion source target =>
    s.input.layout = source ∧ s.output = ⟨s.input.shape, target⟩ ∧
      ∃ ix, Within s.input.shape.dims ix ∧ s.output.address ix = result ∧
        s.input.address ix = origin
  | .pooling _ w =>
    ∃ o i, Within s.output.shape.dims o ∧ Within s.input.shape.dims i ∧
      s.output.address o = result ∧ s.input.address i = origin ∧
        w.Covers (s.output.layout.coordinate o) (s.input.layout.coordinate i)
  | _ => False

/-- The contents of a position behind some layers depend on those of a position before them. -/
def Draws : List LayerStep → Nat → Nat → Prop
  | [], result, origin => result = origin
  | s :: steps, result, origin => ∃ between, Draws steps result between ∧ s.Draws between origin

theorem draws_append {steps steps' : List LayerStep} {result origin : Nat} :
    Draws (steps ++ steps') result origin ↔
      ∃ between, Draws steps' result between ∧ Draws steps between origin := by
  induction steps generalizing origin with
  | nil =>
    constructor
    · exact fun h => ⟨origin, h, rfl⟩
    · rintro ⟨_, h, rfl⟩
      exact h
  | cons s steps ih =>
    constructor
    · rintro ⟨between, hdraws, hs⟩
      obtain ⟨between', hdraws', hsteps⟩ := ih.1 hdraws
      exact ⟨between', hdraws', between, hsteps, hs⟩
    · rintro ⟨between', hdraws', between, hsteps, hs⟩
      exact ⟨between, ih.2 ⟨between', hdraws', hsteps⟩, hs⟩

/-! ### Conversions -/

/-- Elements of different indices lie at different addresses. -/
theorem Layout.address_injective (hl : l.rank = dims.length) (h : Within dims ix)
    (h' : Within dims jx) (heq : l.address dims ix = l.address dims jx) : ix = jx := by
  have hfits := Layout.fits_of_rank hl
  rw [← place_eq_address hfits h, ← place_eq_address hfits h'] at heq
  have hsame := getElem?_memoryIndices hfits h
  rw [heq, getElem?_memoryIndices hfits h'] at hsame
  exact (Option.some.inj hsame).symm

/-- **A conversion takes every element from where it was**, and so does leaving it out where it is
not needed. -/
theorem draws_conversionSteps (hl : l.rank = shape.rank) (htarget : target.rank = shape.rank)
    (h : Within shape.dims ix) {origin : Nat} :
    Draws (conversionSteps l target shape) (target.address shape.dims ix) origin ↔
      origin = l.address shape.dims ix := by
  unfold conversionSteps
  rcases hmoves : l.reordersMemory target shape.dims with _ | _
  · have hfits := Layout.fits_of_rank hl
    have hfits' := Layout.fits_of_rank htarget
    have hsame : l.address shape.dims ix = target.address shape.dims ix := by
      rw [← Layout.place_eq_address hfits h, ← Layout.place_eq_address hfits' h,
        Layout.place_congr hfits hfits' hmoves h]
    rw [hsame]
    exact eq_comm
  · constructor
    · rintro ⟨_, rfl, -, -, jx, hjx, hresult, rfl⟩
      rw [Layout.address_injective htarget hjx h hresult]
      rfl
    · rintro rfl
      exact ⟨_, rfl, rfl, rfl, ix, h, rfl, rfl⟩

/-! ### The pooling -/

/-- The slots and the window of a pooling that averages over some axes: each axis has a slot of its
own, the reduced ones the pooled slots, and the window spans the reduced axes and is a single point
elsewhere, without padding or overlap. -/
structure PoolsAxes (shape : Shape) (reduced : List Nat) (pooled : Layout) (w : PoolGeometry) :
    Prop where
  rank : pooled.rank = shape.rank
  nodup : pooled.slots.Nodup
  slots : ∀ (i a : Nat) (d : Slot), reduced[i]? = some a → pooledSlots[i]? = some d →
    pooled.slots[a]? = some d
  kernel : ∀ d, w.kernel.along 1 d =
    ((pooled.position? d).map fun a => if a ∈ reduced then shape.extent a else 1).getD 1
  strides : w.strides = w.kernel
  pads : w.pads = ⟨0, 0⟩

/-- The pooling of a mean as a layer. -/
def poolingStep (shape : Shape) (reduced : List Nat) (pooled : Layout) (w : PoolGeometry) :
    LayerStep :=
  ⟨.pooling .mean w, ⟨shape, pooled⟩, ⟨⟨Kernel.reducedDims shape.dims reduced⟩, pooled⟩⟩

theorem getD_setFrom (l axes : List Nat) (a : Nat) :
    (setFrom 0 l axes 0).getD a 0 = if a ∈ axes then 0 else l.getD a 0 := by
  unfold setFrom
  rw [List.getD_eq_getElem?_getD, List.getElem?_map, List.getElem?_zipIdx,
    List.getD_eq_getElem?_getD]
  cases l[a]? with
  | none => simp
  | some i => simp

theorem length_setFrom (axis : Nat) (l axes : List Nat) (v : Nat) :
    (setFrom axis l axes v).length = l.length := by
  simp [setFrom]

theorem setFrom_eq_iff {axes o i : List Nat} (hlength : o.length = i.length) :
    setFrom 0 i axes 0 = o ↔
      ∀ a < o.length, o.getD a 0 = if a ∈ axes then 0 else i.getD a 0 := by
  constructor
  · rintro rfl a -
    exact getD_setFrom i axes a
  · intro hentries
    apply List.ext_getElem ((length_setFrom ..).trans hlength.symm)
    intro a ha ha'
    rw [← List.getD_eq_getElem _ 0 ha, ← List.getD_eq_getElem _ 0 ha', getD_setFrom,
      hentries a ha']

theorem length_reducedDims (shape : Shape) (reduced : List Nat) :
    (Kernel.reducedDims shape.dims reduced).length = shape.rank := length_setFrom ..

variable {reduced : List Nat} {pooled : Layout} {w : PoolGeometry} {o i : List Nat}

/-- Along a reduced axis there is one cell. -/
theorem getD_eq_zero (ho : Within (Kernel.reducedDims shape.dims reduced) o) {a : Nat}
    (hlt : a < shape.rank) (ha : a ∈ reduced) : o.getD a 0 = 0 := by
  have hextent : o.getD a 0 < Shape.extent ⟨Kernel.reducedDims shape.dims reduced⟩ a :=
    ho.getD_lt (by rwa [length_reducedDims])
  rw [Shape.extent_reducedDims, if_pos ha] at hextent
  omega

namespace PoolsAxes

theorem lt_rank (h : PoolsAxes shape reduced pooled w) {d : Slot} {a : Nat}
    (ha : pooled.position? d = some a) : a < shape.rank := by
  rw [← h.rank]
  exact (List.getElem?_eq_some_iff.1 (Layout.position?_eq_some.1 ha)).1

/-- Along one slot, the window covers everything if a reduced axis is there, and otherwise only the
position itself. -/
theorem covers_along_iff (h : PoolsAxes shape reduced pooled w)
    (ho : Within (Kernel.reducedDims shape.dims reduced) o) (hi : Within shape.dims i) (d : Slot) :
    (pooled.coordinate o d * w.strides.along 1 d ≤ pooled.coordinate i d + w.pads.along 0 d ∧
      pooled.coordinate i d + w.pads.along 0 d <
        pooled.coordinate o d * w.strides.along 1 d + w.kernel.along 1 d) ↔
    ∀ a, pooled.position? d = some a → a ∉ reduced → o.getD a 0 = i.getD a 0 := by
  have hpads : w.pads.along 0 d = 0 := by simp [h.pads, Planar.along]
  rw [h.strides, hpads, h.kernel, Layout.coordinate, Layout.coordinate]
  cases hposition : pooled.position? d with
  | none => simp
  | some a =>
    simp only [Option.map_some, Option.getD_some, Option.some.injEq, forall_eq']
    by_cases ha : a ∈ reduced
    · -- there is one window, and it begins where the axis does
      have hlt := h.lt_rank hposition
      have hextent : i.getD a 0 < shape.extent a := hi.getD_lt hlt
      simp only [ha, if_true, getD_eq_zero ho hlt ha, Nat.zero_mul, not_true_eq_false,
        false_implies, iff_true]
      omega
    · simp only [ha, if_false, not_false_eq_true, forall_const]
      omega

/-- **The window covers what has its index along the other axes.** -/
theorem covers_iff (h : PoolsAxes shape reduced pooled w)
    (ho : Within (Kernel.reducedDims shape.dims reduced) o) (hi : Within shape.dims i) :
    w.Covers (pooled.coordinate o) (pooled.coordinate i) ↔ setFrom 0 i reduced 0 = o := by
  unfold PoolGeometry.Covers
  simp only [h.covers_along_iff ho hi]
  constructor
  · intro hsame
    have hlength : o.length = shape.rank := ho.length_eq.trans (length_reducedDims ..)
    refine (setFrom_eq_iff (hlength.trans hi.length_eq.symm)).2 fun a ha => ?_
    rw [hlength] at ha
    split
    · rename_i hin
      exact getD_eq_zero ho ha hin
    · rename_i hin
      have hslot : a < pooled.slots.length := by rwa [← h.rank] at ha
      exact hsame _ a (Layout.position?_eq_some.2 (List.getElem?_eq_getElem hslot)) hin
  · rintro rfl d a - ha
    rw [getD_setFrom, if_neg ha]

/-- The pooling takes as many positions as come out, if there is something to average over. -/
theorem sweepsTo (h : PoolsAxes shape reduced pooled w)
    (hextents : ∀ a ∈ reduced, 1 ≤ shape.extent a) (d : Slot) :
    SweepsTo (w.kernel.along 1 d) (w.strides.along 1 d) (w.pads.along 0 d) 1
      ((poolingStep shape reduced pooled w).input.extentAt d)
      ((poolingStep shape reduced pooled w).output.extentAt d) := by
  have hpads : w.pads.along 0 d = 0 := by simp [h.pads, Planar.along]
  rw [h.strides, hpads, h.kernel, View.extentAt, View.extentAt]
  unfold poolingStep
  dsimp only
  cases pooled.position? d with
  | none => exact sweepsTo_one 1
  | some a =>
    simp only [Option.map_some, Option.getD_some, Shape.extent_reducedDims]
    by_cases ha : a ∈ reduced
    · rw [if_pos ha, if_pos ha]
      exact sweepsTo_whole.2 (Nat.one_le_iff_ne_zero.1 (hextents a ha))
    · rw [if_neg ha, if_neg ha]
      exact sweepsTo_one _

/-- A cell of the pooling draws from the elements of its window. -/
theorem draws_iff (h : PoolsAxes shape reduced pooled w)
    (ho : Within (Kernel.reducedDims shape.dims reduced) o) {origin : Nat} :
    (poolingStep shape reduced pooled w).Draws
        (pooled.address (Kernel.reducedDims shape.dims reduced) o) origin ↔
      ∃ i, Within shape.dims i ∧ setFrom 0 i reduced 0 = o ∧
        pooled.address shape.dims i = origin := by
  have hrank : pooled.rank = (Kernel.reducedDims shape.dims reduced).length :=
    h.rank.trans (length_reducedDims ..).symm
  constructor
  · rintro ⟨o', i, ho', hi, hresult, horigin, hcovers⟩
    obtain rfl := Layout.address_injective hrank ho' ho hresult
    exact ⟨i, hi, (h.covers_iff ho' hi).1 hcovers, horigin⟩
  · rintro ⟨i, hi, hcell, horigin⟩
    exact ⟨o, i, ho, hi, rfl, horigin, (h.covers_iff ho hi).2 hcell⟩

end PoolsAxes

/-! ### Cells of the result -/

theorem dropFrom_setFrom (axis : Nat) (l axes : List Nat) (v : Nat) :
    dropFrom axis (setFrom axis l axes v) axes = dropFrom axis l axes := by
  induction l generalizing axis with
  | nil => rfl
  | cons a l ih =>
    rw [setFrom_cons]
    by_cases hin : axis ∈ axes
    · rw [dropFrom_cons_of_mem hin, dropFrom_cons_of_mem hin, ih]
    · rw [dropFrom_cons_of_notMem hin, dropFrom_cons_of_notMem hin, if_neg hin, ih]

theorem setFrom_setFrom (axis : Nat) (l axes : List Nat) (v : Nat) :
    setFrom axis (setFrom axis l axes v) axes v = setFrom axis l axes v := by
  induction l generalizing axis with
  | nil => rfl
  | cons a l ih =>
    rw [setFrom_cons, setFrom_cons, ih]
    split <;> rfl

/-- An element and its cell under the pooling have the same cell. -/
theorem meanIndex_setFrom (keepDims : Bool) :
    meanIndex reduced keepDims (setFrom 0 i reduced 0) = meanIndex reduced keepDims i := by
  unfold meanIndex
  cases keepDims with
  | true => exact setFrom_setFrom 0 i reduced 0
  | false => exact dropFrom_setFrom 0 i reduced 0

/-- A cell under the pooling has only zeros along the reduced axes. -/
theorem setFrom_eq_self (ho : Within (Kernel.reducedDims shape.dims reduced) o) :
    setFrom 0 o reduced 0 = o := by
  refine (setFrom_eq_iff rfl).2 fun a ha => ?_
  rw [ho.length_eq, length_reducedDims] at ha
  split
  · rename_i hin
    exact getD_eq_zero ho ha hin
  · rfl

/-- How the result of the pooling is seen: as it is, or without the reduced axes. -/
def SeenAs (reduced : List Nat) (keepDims : Bool) (pooled seen : Layout) : Prop :=
  if keepDims then seen = pooled else seen.slots = dropPositions pooled.slots reduced

variable {keepDims : Bool} {seen : Layout}

theorem dims_meanShape_false (shape : Shape) (reduced : List Nat) :
    (meanShape shape reduced false).dims =
      dropPositions (Kernel.reducedDims shape.dims reduced) reduced := by
  rw [meanShape, if_neg Bool.false_ne_true, Shape.dims_dropAxes, dropPositions_eq, reducedDims_eq,
    dropFrom_setFrom]

theorem SeenAs.rank_eq (hseen : SeenAs reduced keepDims pooled seen)
    (hrank : pooled.rank = shape.rank) : seen.rank = (meanShape shape reduced keepDims).rank := by
  have hkept : pooled.rank = (Kernel.reducedDims shape.dims reduced).length :=
    hrank.trans (length_reducedDims ..).symm
  cases keepDims with
  | true =>
    obtain rfl : seen = pooled := hseen
    exact hkept
  | false =>
    have hseen : seen.slots = dropPositions pooled.slots reduced := hseen
    rw [Layout.rank, hseen, Shape.rank, dims_meanShape_false]
    exact length_dropFrom hkept

/-- **Seen as the result, a cell of the pooling lies where it lay**, under its index in the
result. -/
theorem SeenAs.address_meanIndex (hseen : SeenAs reduced keepDims pooled seen)
    (hrank : pooled.rank = shape.rank) (ho : Within (Kernel.reducedDims shape.dims reduced) o) :
    seen.address (meanShape shape reduced keepDims).dims (meanIndex reduced keepDims o) =
      pooled.address (Kernel.reducedDims shape.dims reduced) o := by
  cases keepDims with
  | true =>
    obtain rfl : seen = pooled := hseen
    exact congrArg (seen.address _) (setFrom_eq_self ho)
  | false =>
    rw [dims_meanShape_false]
    apply Layout.address_drop (hrank.trans (length_reducedDims ..).symm) hseen _ ho
    intro a ha
    exact (shape.extent_reducedDims reduced a).trans (if_pos ha)

/-- Every cell of the result is one of the pooling. -/
theorem exists_meanIndex (hjx : Within (meanShape shape reduced keepDims).dims jx) :
    ∃ o, Within (Kernel.reducedDims shape.dims reduced) o ∧ meanIndex reduced keepDims o = jx := by
  cases keepDims with
  | true => exact ⟨jx, hjx, setFrom_eq_self hjx⟩
  | false =>
    have hunit : ∀ a ∈ reduced, 0 ≤ a →
        (Kernel.reducedDims shape.dims reduced).getD (a - 0) 1 = 1 := fun a ha _ =>
      (shape.extent_reducedDims reduced a).trans (if_pos ha)
    rw [dims_meanShape_false, dropPositions_eq, ← mem_indices, ← map_dropFrom_indices hunit] at hjx
    obtain ⟨o, ho, rfl⟩ := List.mem_map.1 hjx
    exact ⟨o, mem_indices.1 ho, rfl⟩

/-- The layers of a mean: the reduced axes are brought to the pooled slots, the tensor is pooled,
and the result is brought to its layout. -/
def meanSteps (l : Layout) (shape : Shape) (reduced : List Nat) (pooled : Layout)
    (w : PoolGeometry) (seen : Layout) (out : Shape) (committed : Layout) : List LayerStep :=
  conversionSteps l pooled shape ++
    poolingStep shape reduced pooled w :: conversionSteps seen committed out

/-- **A cell of the result draws from the elements that the mean adds to it**, and from no
others. -/
theorem draws_meanSteps {committed : Layout} (h : PoolsAxes shape reduced pooled w)
    (hseen : SeenAs reduced keepDims pooled seen) (hl : l.rank = shape.rank)
    (hcommitted : committed.rank = (meanShape shape reduced keepDims).rank)
    (hjx : Within (meanShape shape reduced keepDims).dims jx) {origin : Nat} :
    Draws (meanSteps l shape reduced pooled w seen (meanShape shape reduced keepDims) committed)
        (committed.address (meanShape shape reduced keepDims).dims jx) origin ↔
      ∃ ix ∈ meanCell shape reduced keepDims jx, origin = l.address shape.dims ix := by
  obtain ⟨o, ho, rfl⟩ := exists_meanIndex hjx
  have hkept : pooled.rank = (Kernel.reducedDims shape.dims reduced).length :=
    h.rank.trans (length_reducedDims ..).symm
  -- an element has the cell `o` under the pooling if it has the cell of `o` in the result
  have hcell : ∀ ix, Within shape.dims ix → (setFrom 0 ix reduced 0 = o ↔
      meanIndex reduced keepDims ix = meanIndex reduced keepDims o) := by
    intro ix hix
    constructor
    · rintro rfl
      exact (meanIndex_setFrom keepDims).symm
    · intro heq
      rw [← meanIndex_setFrom keepDims] at heq
      have haddress := hseen.address_meanIndex h.rank (hix.setFrom 0 reduced)
      rw [heq, hseen.address_meanIndex h.rank ho] at haddress
      exact (Layout.address_injective hkept ho (hix.setFrom 0 reduced) haddress).symm
  unfold meanSteps
  rw [draws_append]
  constructor
  · rintro ⟨_, ⟨_, hlast, hpool⟩, hfirst⟩
    rw [draws_conversionSteps (hseen.rank_eq h.rank) hcommitted hjx] at hlast
    rw [hlast, hseen.address_meanIndex h.rank ho] at hpool
    obtain ⟨ix, hix, hin, rfl⟩ := (h.draws_iff ho).1 hpool
    exact ⟨ix, mem_meanCell.2 ⟨hix, (hcell ix hix).1 hin⟩,
      (draws_conversionSteps hl h.rank hix).1 hfirst⟩
  · rintro ⟨ix, hmem, horigin⟩
    obtain ⟨hix, hin⟩ := mem_meanCell.1 hmem
    refine ⟨pooled.address shape.dims ix,
      ⟨pooled.address (Kernel.reducedDims shape.dims reduced) o, ?_, ?_⟩, ?_⟩
    · rw [draws_conversionSteps (hseen.rank_eq h.rank) hcommitted hjx,
        hseen.address_meanIndex h.rank ho]
    · exact (h.draws_iff ho).2 ⟨ix, hix, (hcell ix hix).2 hin, rfl⟩
    · exact (draws_conversionSteps hl h.rank hix).2 horigin

/-! ### Lowering -/

theorem along_ofList {values : List Nat} {j : Nat} {d : Slot} (hd : pooledSlots[j]? = some d) :
    (Planar.ofList values 1).along 1 d = values.getD j 1 := by
  rcases j with _ | _ | j
  · obtain rfl := Option.some.inj hd
    rfl
  · obtain rfl := Option.some.inj hd
    rfl
  · cases hd

theorem along_of_notMem {v : Planar} {d : Slot} (hd : d ∉ pooledSlots) : v.along 1 d = 1 := by
  simp only [pooledSlots, List.mem_cons, List.not_mem_nil, or_false, not_or] at hd
  rw [Planar.along, if_neg hd.1, if_neg hd.2]

/-- On the slot of a reduced axis no other axis can be. -/
theorem getElem?_pooledSlots (hfew : reduced.length ≤ pooledSlots.length)
    (hslots : ∀ (i a : Nat) (d : Slot), reduced[i]? = some a → pooledSlots[i]? = some d →
      pooled.slots[a]? = some d)
    {d : Slot} {a : Nat} (hposition : pooled.position? d = some a) (ha : a ∈ reduced) :
    ∃ j : Nat, reduced[j]? = some a ∧ pooledSlots[j]? = some d := by
  obtain ⟨j, hj⟩ := List.mem_iff_getElem?.1 ha
  have hlt : j < pooledSlots.length := lt_of_lt_of_le (List.getElem?_eq_some_iff.1 hj).1 hfew
  have hslot := hslots j a _ hj (List.getElem?_eq_getElem hlt)
  rw [Layout.position?_eq_some.1 hposition] at hslot
  exact ⟨j, hj, hslot ▸ List.getElem?_eq_getElem hlt⟩

/-- **The window spans the reduced axes**, and is a single point along every other slot. -/
theorem along_kernel (hfew : reduced.length ≤ pooledSlots.length)
    (hslots : ∀ (i a : Nat) (d : Slot), reduced[i]? = some a → pooledSlots[i]? = some d →
      pooled.slots[a]? = some d) (d : Slot) :
    (Planar.ofList (reduced.map shape.extent) 1).along 1 d =
      ((pooled.position? d).map fun a => if a ∈ reduced then shape.extent a else 1).getD 1 := by
  have hother : (∀ a ∈ reduced, pooled.position? d ≠ some a) →
      ((pooled.position? d).map fun a => if a ∈ reduced then shape.extent a else 1).getD 1 = 1 := by
    intro hnone
    cases hposition : pooled.position? d with
    | none => rfl
    | some a => exact if_neg fun ha => hnone a ha hposition
  by_cases hd : d ∈ pooledSlots
  · obtain ⟨j, hj⟩ := List.mem_iff_getElem?.1 hd
    rw [along_ofList hj, List.getD_eq_getElem?_getD, List.getElem?_map]
    cases hreduced : reduced[j]? with
    | some a =>
      rw [Layout.position?_eq_some.2 (hslots j a d hreduced hj)]
      exact (if_pos (List.mem_of_getElem? hreduced)).symm
    | none =>
      refine (hother fun a ha hposition => ?_).symm
      obtain ⟨j', hj', hd'⟩ := getElem?_pooledSlots hfew hslots hposition ha
      have hsame : j' = j :=
        (List.getElem?_inj (List.getElem?_eq_some_iff.1 hd').1 (by decide)).1 (hd'.trans hj.symm)
      rw [hsame, hreduced] at hj'
      cases hj'
  · rw [along_of_notMem hd]
    refine (hother fun a ha hposition => ?_).symm
    obtain ⟨j, -, hd'⟩ := getElem?_pooledSlots hfew hslots hposition ha
    exact hd (List.mem_of_getElem? hd')

section Lowering

variable {g : LayerGraph} {p : Placement} {x : Handle} {out : Shape} {committed : Layout}
  {axes : Option (List Int64)}

/-- There are always slots enough. -/
theorem exists_poolingLayout (hlayout : x.layout.rank = x.shape.rank)
    (hlt : reduced.Pairwise (· < ·)) (haxes : ∀ a ∈ reduced, a < x.shape.rank) :
    ∃ pooled, poolingLayout p x reduced = .ok pooled ∧ pooled.rank = x.shape.rank ∧
      ∀ (i a : Nat) (d : Slot), reduced[i]? = some a → pooledSlots[i]? = some d →
        pooled.slots[a]? = some d := by
  obtain ⟨hused, hlength⟩ := pinnedAxes_spec x.shape.rank reduced
  have hwanted : ((reduced.zip pooledSlots).foldl (fun roles e => roles.set e.1 (some e.2))
      (List.replicate x.shape.rank none)).length =
        ((List.range x.shape.rank).map fun axis => (x.layout.slot? axis).toList).length := by
    simp [hlength]
  obtain ⟨-, hclaimed⟩ := claimSlots_spec hused hwanted
  have htotal : x.shape.rank ≤ Slot.total := hlayout ▸ x.layout.rank_le_total
  have hsome : (completeSlots [] (claimSlots _ _)).isSome :=
    isSome_completeSlots ((hclaimed.trans hlength).trans_le htotal)
  obtain ⟨slots, hslots⟩ := Option.isSome_iff_exists.1 hsome
  obtain ⟨hnodup, -⟩ := completeSlots_claimSlots_spec hused hwanted hslots
  obtain ⟨pooled, hpooled, -⟩ := (Layout.ofSlots_yields hnodup).exists_ok
  have hok : poolingLayout p x reduced = .ok pooled := by
    unfold poolingLayout
    dsimp only
    rw [hslots]
    exact hpooled
  exact ⟨pooled, hok, (poolingLayout_yields p x hlt haxes).value hok⟩

/-- The pooling of a mean, and the conversion before it. -/
theorem meanSliding_runs (ho : g.HasOutlet x.outlet) (hlayout : x.layout.rank = x.shape.rank)
    (hlt : reduced.Pairwise (· < ·)) (haxes : ∀ a ∈ reduced, a < x.shape.rank)
    (hfew : reduced.length ≤ pooledSlots.length) :
    Runs (fun _ _ => False) g (meanSliding p x reduced) fun c g' => ∃ w,
      poolingLayout p x reduced = .ok c.layout ∧ PoolsAxes x.shape reduced c.layout w ∧
      c.kind = .pooling .mean w ∧
      c.shape = ⟨Kernel.reducedDims x.shape.dims reduced⟩ ∧ g'.HasOutlet c.input.outlet ∧
      g.Chain x.outlet (LayerKind.conversions x.layout c.layout x.shape) g' c.input.outlet := by
  obtain ⟨pooled, hpooled, hrank, hslots⟩ := exists_poolingLayout (p := p) hlayout hlt haxes
  unfold meanSliding
  rw [if_neg (not_lt.2 hfew)]
  refine Runs.lift_bind (Q := (pooled = ·)) (.of_eq_ok hpooled rfl) ?_
  rintro _ rfl
  refine (Lowering.relayout_chain ho hrank p.name).bind ?_
  rintro ⟨_, _, o⟩ g' ⟨rfl, rfl, hchain⟩
  refine Runs.pure ⟨_, hpooled,
    ⟨hrank, Layout.nodup _, hslots, along_kernel hfew hslots, rfl, rfl⟩, rfl, rfl, ?_, hchain⟩
  exact hchain.hasOutlet ho fun _ => LayerKind.outputCount_of_mem_conversions

/-- What a mean of a run-time tensor is lowered to. The layers are those of the mean, each reading
the one before it, the pooling takes as many positions as it has cells, and every cell of the result
draws from the elements that the mean adds to it. -/
structure PoolsMean (g : LayerGraph) (x : Handle) (reduced : List Nat) (keepDims : Bool)
    (g' : LayerGraph) (y : Handle) (pooled : Layout) (w : PoolGeometry) (seen : Layout) :
    Prop where
  axes : PoolsAxes x.shape reduced pooled w
  seenAs : SeenAs reduced keepDims pooled seen
  sweeps : ∀ d, SweepsTo (w.kernel.along 1 d) (w.strides.along 1 d) (w.pads.along 0 d) 1
    ((poolingStep x.shape reduced pooled w).input.extentAt d)
    ((poolingStep x.shape reduced pooled w).output.extentAt d)
  chain : g.Chain x.outlet
    ((meanSteps x.layout x.shape reduced pooled w seen y.shape y.layout).map LayerStep.kind) g'
    y.outlet
  draws : ∀ jx, Within y.shape.dims jx → ∀ origin,
    Draws (meanSteps x.layout x.shape reduced pooled w seen y.shape y.layout)
        (y.layout.address y.shape.dims jx) origin ↔
      ∃ ix ∈ meanCell x.shape reduced keepDims jx, origin = x.layout.address x.shape.dims ix

/-- The last conversion completes the layers. -/
theorem relayout_poolsMean {g₁ : LayerGraph} {o₁ : Outlet}
    (hpools : PoolsAxes x.shape reduced pooled w)
    (hextents : ∀ a ∈ reduced, 1 ≤ x.shape.extent a)
    (hseen : SeenAs reduced keepDims pooled seen) (hlayout : x.layout.rank = x.shape.rank)
    (hcommitted : committed.rank = (meanShape x.shape reduced keepDims).rank)
    (ho₁ : g₁.HasOutlet o₁)
    (hchain : g.Chain x.outlet
      (LayerKind.conversions x.layout pooled x.shape ++ [.pooling .mean w]) g₁ o₁) :
    Runs (fun _ _ => False) g₁
      (p.relayout ⟨meanShape x.shape reduced keepDims, seen, o₁⟩ committed) fun y g' =>
        y.shape = meanShape x.shape reduced keepDims ∧ y.layout = committed ∧
          PoolsMean g x reduced keepDims g' y pooled w seen := by
  refine (Lowering.relayout_chain (h := ⟨_, seen, o₁⟩) ho₁ hcommitted p.name).imp ?_
  rintro ⟨_, _, o⟩ g' ⟨rfl, rfl, hlast⟩
  refine ⟨rfl, rfl, hpools, hseen, hpools.sweepsTo hextents, ?_, fun jx hjx origin => ?_⟩
  · have hkinds := hchain.append hlast
    rw [List.append_assoc, List.singleton_append] at hkinds
    rw [meanSteps, List.map_append, List.map_cons, map_kind_conversionSteps,
      map_kind_conversionSteps]
    exact hkinds
  · exact draws_meanSteps hpools hseen hlayout hcommitted hjx

/-- **A mean over at most two axes is lowered to a pooling.** -/
theorem lowerReduceMean_runs (h : p.Reads x out committed) (ho : g.HasOutlet x.outlet)
    (hlayout : x.layout.rank = x.shape.rank)
    (hreduced : reducedAxes p.header axes x.shape.rank = .ok reduced)
    (hfew : reduced.length ≤ pooledSlots.length)
    (hextents : ∀ a ∈ reduced, 1 ≤ x.shape.extent a)
    (hout : meanShape x.shape reduced keepDims = out) (hcommitted : committed.rank = out.rank) :
    Runs (fun _ _ => False) g (lowerReduceMean p axes keepDims) fun t g' =>
      ∃ y pooled w seen, t = .handle y ∧ y.shape = out ∧ y.layout = committed ∧
        poolingLayout p x reduced = .ok pooled ∧
        PoolsMean g x reduced keepDims g' y pooled w seen := by
  subst hout
  obtain ⟨hlt, haxes⟩ := (reducedAxes_yields p.header axes x.shape.rank).value hreduced
  unfold lowerReduceMean
  refine Runs.lift_bind (Q := (meanShape x.shape reduced keepDims = ·))
    (.of_eq_ok h.shape_eq rfl) ?_
  rintro _ rfl
  refine Runs.lift_bind (Q := (committed = ·)) (.of_eq_ok h.layout_eq rfl) ?_
  rintro _ rfl
  refine h.handle_runs.bind ?_
  rintro _ _ ⟨rfl, rfl⟩
  refine Runs.lift_bind (Q := (reduced = ·)) (.of_eq_ok hreduced rfl) ?_
  rintro _ rfl
  refine (meanSliding_runs ho hlayout hlt haxes hfew).bind ?_
  rintro ⟨_, input, _, pooled⟩ g₁ ⟨w, hpooled, hpools, rfl, rfl, ho₁, hfirst⟩
  have hinputs : ∀ o ∈ [input.outlet], g₁.HasOutlet o := by simpa using ho₁
  have hfits : pooled.fits (Shape.rank ⟨Kernel.reducedDims x.shape.dims reduced⟩) = true :=
    Layout.fits_of_rank (hpools.rank.trans (length_reducedDims ..).symm)
  refine (Lowering.add_runs hinputs rfl hfits p.name).bind ?_
  rintro _ _ ⟨rfl, rfl⟩
  have hpool : g₁.Chain input.outlet [.pooling .mean w]
      (g₁.push ⟨g₁.freshName p.name, .pooling .mean w, [input.outlet]⟩) ⟨g₁.size, 0⟩ :=
    .cons _ .nil
  have hlast : ∀ seen, SeenAs reduced keepDims pooled seen → Runs _ _ _ _ := fun seen hseen =>
    relayout_poolsMean (p := p) hpools hextents hseen hlayout hcommitted
      (g₁.hasOutlet_push_self rfl) (hfirst.append hpool)
  cases keepDims with
  | true =>
    refine (hlast pooled rfl).bind ?_
    rintro y g' ⟨hshape, hlaid, hmean⟩
    exact Runs.pure ⟨y, pooled, w, pooled, rfl, hshape, hlaid, hpooled, hmean⟩
  | false =>
    refine Runs.lift_bind (Layout.ofSlots_yields (nodup_dropPositions pooled.nodup _)) ?_
    intro seen hseen
    refine (hlast seen hseen).bind ?_
    rintro y g' ⟨hshape, hlaid, hmean⟩
    exact Runs.pure ⟨y, pooled, w, seen, rfl, hshape, hlaid, hpooled, hmean⟩

/-- **A mean of a run-time tensor agrees with the mean of a constant.** Let a mean over at most two
axes, none of them empty, have a run-time tensor with one slot per axis as its input, and let the
output have the inferred shape and any layout of its rank. Then lowering succeeds with layers of
which the pooling spans the reduced axes. Computing the mean of a constant of the same shape
succeeds as well, and what it adds up in a cell are the elements that the cell of the result draws
from. -/
theorem Operator.reduceMean_pools (op : Operator) (p : Placement) (x : Handle) (out : Shape)
    (committed : Layout) (g : LayerGraph) (axes : Option (List Int64)) (keepDims : Bool)
    (reduced : List Nat) (haction : op.action = .reduceMean axes keepDims)
    (hheader : p.header = op.header) (hp : p.Reads x out committed) (ho : g.HasOutlet x.outlet)
    (hlayout : x.layout.rank = x.shape.rank)
    (hreduced : reducedAxes op.header axes x.shape.rank = .ok reduced)
    (hfew : reduced.length ≤ 2) (hextents : ∀ a ∈ reduced, 1 ≤ x.shape.extent a)
    (hout : op.outputShapes [some ⟨x.shape, none⟩] = .ok [out])
    (hcommitted : committed.rank = out.rank) :
    (∃ y g' pooled w seen, (op.lower p).run.run g = (.ok (.handle y), g') ∧ y.shape = out ∧
      y.layout = committed ∧ poolingLayout p x reduced = .ok pooled ∧
      PoolsMean g x reduced keepDims g' y pooled w seen) ∧
    ∀ c : Constant, c.shape = x.shape → ∃ r, op.foldOutputs [some ⟨x.shape, some c⟩] = .ok [r] ∧
      r.shape = out ∧ r.MeanOf c reduced keepDims := by
  have hshape : meanShape x.shape reduced keepDims = out := by
    have hout := outputShapes_eq_ok.1 hout
    unfold outputShape at hout
    rw [haction] at hout
    obtain ⟨_, hx, hout⟩ := bind_eq_ok.1 hout
    obtain rfl := Except.ok.inj hx
    obtain ⟨_, hreduced', hout⟩ := bind_eq_ok.1 hout
    obtain rfl := Except.ok.inj (hreduced.symm.trans hreduced')
    exact Except.ok.inj hout
  constructor
  · obtain ⟨_, g', hrun, y, pooled, w, seen, rfl, hy⟩ := (lowerReduceMean_runs hp ho hlayout
      (hheader ▸ hreduced) hfew hextents hshape hcommitted).exists_ok
    refine ⟨y, g', pooled, w, seen, ?_, hy⟩
    unfold lower
    rw [haction]
    exact hrun
  · intro c hc
    have hconstant : Operands.constant [some ⟨x.shape, some c⟩] op.header 0 = .ok c := rfl
    obtain ⟨r, hr, hmean⟩ := foldReduceMean_meanOf hconstant (hc.symm ▸ hreduced)
    refine ⟨r, ?_, ?_, hmean⟩
    · unfold foldOutputs fold foldBy
      rw [haction]
      exact bind_eq_ok.2 ⟨r, hr, rfl⟩
    · rw [hmean.shape, hc, hshape]

end Lowering

/-- Two blocks of three pairs, with the blocks along the height. -/
def blocksOfPairs : Handle := ⟨⟨[2, 3, 2]⟩, ⟨[.height, .depth, .channels], by decide⟩, ⟨0, 0⟩⟩

/-- The mean of each pair. -/
def meanOfPairs : Operator := ⟨⟨"ReduceMean", "mean", 13⟩, .reduceMean (some [-1]) false⟩

/-- The pairs take the height, from where the blocks have to go, and each mean draws from one
pair. -/
theorem meanOfPairs_pools :
    ∃ (g : LayerGraph) (p : Placement) (y : Handle) (g' : LayerGraph) (pooled : Layout)
      (w : PoolGeometry) (seen : Layout),
      (meanOfPairs.lower p).run.run g = (.ok (.handle y), g') ∧ y.shape = ⟨[2, 3]⟩ ∧
      PoolsMean g blocksOfPairs [2] false g' y pooled w seen ∧
      pooled.slots[2]? = some .height ∧ w.kernel.height = 2 ∧
      meanCell blocksOfPairs.shape [2] false [1, 0] = [[1, 0, 0], [1, 0, 1]] := by
  let g : LayerGraph := LayerGraph.empty.push ⟨"pairs", .source, []⟩
  let committed : Layout := ⟨[.width, .height], by decide⟩
  let p : Placement :=
    ⟨meanOfPairs.header, [some (.handle blocksOfPairs)], [⟨[2, 3]⟩], [committed], "mean"⟩
  have hreduced : reducedAxes meanOfPairs.header (some [-1]) 3 = .ok [2] := by cbv
  have hout : meanOfPairs.outputShapes [some ⟨blocksOfPairs.shape, none⟩] = .ok [⟨[2, 3]⟩] := by
    cbv
  obtain ⟨⟨y, g', pooled, w, seen, hrun, hshape, -, -, hmean⟩, -⟩ :=
    meanOfPairs.reduceMean_pools p blocksOfPairs ⟨[2, 3]⟩ committed g (some [-1]) false [2] rfl rfl
      ⟨rfl, rfl, rfl⟩ (LayerGraph.empty.hasOutlet_push_self rfl) rfl hreduced (by decide)
      (by decide) hout rfl
  have hheight : pooled.slots[2]? = some .height := hmean.axes.slots 0 2 .height rfl rfl
  have hkernel := hmean.axes.kernel .height
  rw [Layout.position?_eq_some.2 hheight] at hkernel
  exact ⟨g, p, y, g', pooled, w, seen, hrun, hshape, hmean, hheight, hkernel, by decide⟩

end Lamina
