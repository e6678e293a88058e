import Mathlib
import Lamina.Proofs.Joining

/-!
# Gathering: rows picked by a tensor of indices

The value of a gathering is put together row by row: for each position before the axis, the rows
that the indices name, in the order of the index tensor. The tensor that comes out has the axes of
the index tensor in the place of the axis. Both views meet in the place of an index: split around
the axis it names a block, a row and an element (`place_gathered`, `place_row`), and the three are
where `getElem?_pickRows` finds the element.

What an index names is said in unbounded integers (`Header.Names`). An index that counts from the
back is resolved by adding the extent, as a word with a sign. The largest extents have none, and are
taken for negative numbers (`countedIndex_of_le`).

**Theorem** (`Operator.gather_picks`): a gathering of constants succeeds if every index names a row,
is refused as malformed otherwise, and has the named rows. For indices that count from the back this
takes an extent that can be added, and fails without (`Operator.gather_manyColumns`).
-/

namespace Lamina

/-! ### Indices -/

/-- An index names a row: negative ones count from the back, which is allowed from opset 11 on. -/
def Header.Names (h : Header) (extent : Nat) (index : Int64) : Prop :=
  (index.toInt < 0 → 11 ≤ h.opset) ∧ 0 ≤ SliceBounds.position index extent ∧
    SliceBounds.position index extent < extent

instance (h : Header) (extent : Nat) (index : Int64) : Decidable (h.Names extent index) :=
  inferInstanceAs (Decidable (_ ∧ _ ∧ _))

/-- An index names a row, and if it counts from the back the extent has a word with a sign, so that
it can be added. -/
def Header.Reaches (h : Header) (extent : Nat) (index : Int64) : Prop :=
  h.Names extent index ∧ (index.toInt < 0 → extent < signedLimit)

/-- An extent without a word with a sign is read as a negative number, and so is what a negative
index comes to with it. -/
theorem countedIndex_of_le {h : Header} {extent : Nat} {index : Int64}
    (hextent : signedLimit ≤ extent) (hword : extent < wordLimit) (hsign : index.toInt < 0) :
    Yields (·.kind = .fatal) (countedIndex h extent index) fun resolved => resolved < 0 := by
  have hcast : (Int64.ofNat extent).toInt = extent - 2 ^ 64 := by
    unfold signedLimit at hextent
    unfold wordLimit at hword
    rw [Int64.toInt_ofNat', Int.bmod_def, Int64.size]
    omega
  unfold countedIndex
  rw [if_pos (Int64.lt_iff_toInt_lt.2 hsign)]
  dsimp only
  split
  · rename_i sum hsum
    obtain ⟨-, -, hvalue⟩ := BinaryOp.onInts?_eq_some.1 hsum
    have hexact : sum.toInt = index.toInt + (extent - 2 ^ 64) := hcast ▸ hvalue
    refine .ok (Int64.lt_iff_toInt_lt.2 ?_)
    unfold wordLimit at hword
    rw [hexact, Int64.toInt_zero]
    omega
  · exact .fail rfl

/-- **An index is resolved to the row that it names**, and refused if there is none. It is given up
only if the extent has no word with a sign. -/
theorem wrapIndex_reaches (h : Header) {extent : Nat} (hword : extent < wordLimit)
    (index : Int64) :
    Yields (fun f => (f.kind = .malformed ∨ f.kind = .fatal ∧ signedLimit ≤ extent) ∧
        ¬ h.Reaches extent index) (wrapIndex h extent index)
      fun p => h.Reaches extent index ∧ (p : Int) = SliceBounds.position index extent := by
  have hnegative : index < 0 ↔ index.toInt < 0 := Int64.lt_iff_toInt_lt
  unfold wrapIndex
  split
  · rename_i hold
    refine .fail ⟨.inl rfl, fun hreaches => ?_⟩
    exact absurd hold.2 (Int64.not_lt.2 (hreaches.1.1 (hnegative.1 hold.1)))
  rename_i hversion
  have hopset : index.toInt < 0 → 11 ≤ h.opset :=
    fun hlt => Int64.not_lt.1 fun hold => hversion ⟨hnegative.2 hlt, hold⟩
  by_cases hsum : index.toInt < 0 → extent < signedLimit
  · -- the index counted from the front is what unbounded integers give
    obtain ⟨resolved, hresolved, hvalue⟩ : ∃ resolved, countedIndex h extent index = .ok resolved ∧
        resolved.toInt = SliceBounds.position index extent := countedIndex_of_lt hsum
    have hbelow : resolved < 0 ↔ SliceBounds.position index extent < 0 := by
      rw [Int64.lt_iff_toInt_lt, hvalue, Int64.toInt_zero]
    rw [hresolved]
    show Yields _ (if resolved < 0 ∨ extent ≤ resolved.toInt.toNat then _ else _) _
    split
    · rename_i hout
      rw [hbelow, hvalue] at hout
      refine .fail ⟨.inl rfl, fun hreaches => ?_⟩
      have := hreaches.1.2
      omega
    · rename_i hin
      rw [hbelow, hvalue] at hin
      rw [hvalue]
      refine .ok ⟨⟨⟨hopset, ?_⟩, hsum⟩, ?_⟩ <;> omega
  · obtain ⟨hsign, hextent⟩ := Classical.not_imp.1 hsum
    have hnot : ¬ h.Reaches extent index := fun hreaches => hsum hreaches.2
    have hcounted := countedIndex_of_le (h := h) (not_lt.1 hextent) hword hsign
    refine (hcounted.mono (fun f hf => ⟨.inr ⟨hf, not_lt.1 hextent⟩, hnot⟩) fun _ h => h).bind ?_
    intro resolved hresolved
    rw [if_pos (.inl hresolved)]
    exact .fail ⟨.inl rfl, hnot⟩

/-! ### Places around an axis -/

section Places

variable {dims idims o q n : List Nat} {a p : Nat}

/-- An index of the result names a block, a position of the index tensor and an element. -/
theorem place_gathered (ho : Within (dims.take a) o) (hq : Within idims q) :
    place (dims.take a ++ idims ++ dims.drop (a + 1)) (o ++ q ++ n) =
      place (dims.take a) o * (positions idims * positions (dims.drop (a + 1))) +
        (place idims q * positions (dims.drop (a + 1)) + place (dims.drop (a + 1)) n) := by
  rw [List.append_assoc, List.append_assoc, place_append ho.length_eq.symm,
    place_append hq.length_eq.symm, positions_append]

theorem take_append_drop_axis (ha : a < dims.length) :
    dims.take a ++ dims.getD a 1 :: dims.drop (a + 1) = dims := by
  rw [List.getD_eq_getElem _ _ ha, ← List.drop_eq_getElem_cons ha, List.take_append_drop]

/-- An index of the data names a block, a row and an element. -/
theorem place_row (ha : a < dims.length) (ho : Within (dims.take a) o) :
    place dims (o ++ p :: n) =
      (place (dims.take a) o * dims.getD a 1 + p) * positions (dims.drop (a + 1)) +
        place (dims.drop (a + 1)) n := by
  conv_lhs => rw [← take_append_drop_axis ha]
  rw [place_append ho.length_eq.symm, positions_cons, place]
  ring

theorem within_row (ha : a < dims.length) (ho : Within (dims.take a) o) (hp : p < dims.getD a 1)
    (hn : Within (dims.drop (a + 1)) n) : Within dims (o ++ p :: n) := by
  rw [← take_append_drop_axis ha]
  exact List.rel_append ho (.cons hp hn)

end Places

/-! ### The gathered tensor -/

/-- A tensor holds the rows of another one that indices name along an axis. -/
structure Constant.PicksOf (r : Constant) (axis : Nat) (data indices : Constant) : Prop where
  shape : r.shape.dims = data.shape.dims.take axis ++ indices.shape.dims ++
    data.shape.dims.drop (axis + 1)
  elementType : r.elementType = data.elementType
  /-- An element is that of the row which the index at its position names, and it is there. -/
  element : ∀ o q n, Within (data.shape.dims.take axis) o → Within indices.shape.dims q →
    Within (data.shape.dims.drop (axis + 1)) n →
    ∃ (i : Int64) (p : Nat) (v : Element), indices.ints[place indices.shape.dims q]? = some i ∧
      (p : Int) = SliceBounds.position i (data.shape.extent axis) ∧
      data.source.get? (place data.shape.dims (o ++ p :: n)) = some v ∧
      r.source.get? (place r.shape.dims (o ++ q ++ n)) = some v

section Fold

variable {h : Header} {axis : Int64} {data indices : Constant} {a : Nat} {out : Shape}

/-- The row of an index. -/
def Header.Picks (h : Header) (extent : Nat) (index : Int64) (row : Nat) : Prop :=
  h.Reaches extent index ∧ (row : Int) = SliceBounds.position index extent

theorem Header.Picks.lt {extent : Nat} {index : Int64} {row : Nat}
    (hrow : h.Picks extent index row) : row < extent := by
  obtain ⟨⟨⟨-, -, hlt⟩, -⟩, hposition⟩ := hrow
  omega

/-- The size of the data, block by block and row by row. -/
theorem size_source_axis (ha : a < data.shape.rank) : data.source.size =
    positions (data.shape.dims.take a) *
      (data.shape.extent a * positions (data.shape.dims.drop (a + 1))) := by
  rw [data.size_source]
  exact positions_split ha

/-- Picked rows, put together under the new shape. -/
theorem ofBuffer_picksOf {picked : List Nat} (ha : a < data.shape.rank)
    (hpicked : List.Forall₂ (h.Picks (data.shape.extent a)) indices.ints picked)
    (hout : out.dims = data.shape.dims.take a ++ indices.shape.dims ++
      data.shape.dims.drop (a + 1)) :
    ∃ r, Constant.ofBuffer out (data.source.rearrange fun v =>
        pickRows (positions (data.shape.dims.take a)) (data.shape.extent a)
          (positions (data.shape.dims.drop (a + 1))) picked v) = .ok r ∧
      r.shape = out ∧ r.PicksOf a data indices := by
  have hlength : picked.length = positions indices.shape.dims := by
    rw [← hpicked.length_eq, Constant.length_ints]
    rfl
  have hrows : ∀ p ∈ picked, p < data.shape.extent a := by
    intro p hp
    obtain ⟨i, -, hi⟩ := forall₂_mem_left hpicked.flip hp
    exact Header.Picks.lt hi
  have hcount : (data.source.rearrange fun v =>
      pickRows (positions (data.shape.dims.take a)) (data.shape.extent a)
        (positions (data.shape.dims.drop (a + 1))) picked v).size = out.count := by
    refine Buffer.size_rearrange fun v hv => ?_
    rw [size_pickRows (hv.trans (size_source_axis ha)) hrows, hlength, Shape.count, hout,
      positions_append, positions_append, Nat.mul_assoc]
  obtain ⟨r, hr, rfl, hsource⟩ := Constant.exists_ofBuffer hcount
  refine ⟨r, hr, rfl, hout, ?_, ?_⟩
  · rw [Constant.elementType, ← r.elementType_source, hsource, Buffer.elementType_rearrange,
      data.elementType_source]
    rfl
  · intro o q n ho hq hn
    have hqlt : place indices.shape.dims q < indices.ints.length := by
      rw [Constant.length_ints]
      exact place_lt hq
    obtain ⟨p, hp, hpick⟩ := forall₂_getElem? hpicked (List.getElem?_eq_getElem hqlt)
    have hrow := within_row ha ho hpick.lt hn
    obtain ⟨v, hv⟩ : ∃ v, data.source.get? (place data.shape.dims (o ++ p :: n)) = some v := by
      apply Buffer.exists_get?
      rw [data.size_source]
      exact place_lt hrow
    refine ⟨_, p, v, List.getElem?_eq_getElem hqlt, hpick.2, hv, ?_⟩
    rw [hsource, ← hv]
    refine Buffer.get?_rearrange fun w hw => ?_
    rw [hout, place_gathered ho hq, ← hlength, place_row ha ho,
      getElem?_pickRows (hw.trans (size_source_axis ha)) hrows (place_lt ho) hp (place_lt hn)]
    rfl

/-- **Folding a gathering** resolves all indices and picks their rows. -/
theorem foldGather_picksOf (hgather : gatherShape h axis data.shape indices.shape = .ok (a, out))
    (hword : data.shape.extent a < wordLimit) :
    Yields (fun f => (f.kind = .malformed ∨ f.kind = .fatal ∧ signedLimit ≤ data.shape.extent a) ∧
        ∃ i ∈ indices.ints, ¬ h.Reaches (data.shape.extent a) i)
      (foldGather h axis (.ofConstants [data, indices]))
      fun r => (∀ i ∈ indices.ints, h.Reaches (data.shape.extent a) i) ∧ r.shape = out ∧
        r.PicksOf a data indices := by
  obtain ⟨ha, hout⟩ := (gatherShape_yields h axis data.shape indices.shape).value hgather
  dsimp only at ha hout
  unfold foldGather
  rw [Operands.constant_ofConstants h (c := data) rfl,
    Operands.constant_ofConstants h (c := indices) rfl]
  refine Yields.bind (Q := (data = ·)) (.ok rfl) ?_
  rintro _ rfl
  refine Yields.bind (Q := (indices = ·)) (.ok rfl) ?_
  rintro _ rfl
  rw [hgather]
  refine Yields.bind (Q := List.Forall₂ (h.Picks (data.shape.extent a)) indices.ints) ?_ ?_
  · refine Yields.mapM fun i hi => (wrapIndex_reaches h hword i).mono ?_ fun p hp => hp
    exact fun f hf => ⟨hf.1, i, hi, hf.2⟩
  · intro picked hpicked
    obtain ⟨r, hr, hshape, hpicks⟩ := ofBuffer_picksOf ha hpicked (congrArg Shape.dims hout)
    refine .of_eq_ok hr ⟨fun i hi => ?_, hshape, hpicks⟩
    obtain ⟨p, -, hp⟩ := forall₂_mem_left hpicked hi
    exact hp.1

end Fold

/-! ### Gathering -/

namespace Operator

/-- The inferred shape is the one that rows are picked for. -/
theorem gatherShape_of_outputShapes {op : Operator} {axis : Int64} {data indices : Constant}
    {out : Shape} (haction : op.action = .gather axis)
    (hout : op.outputShapes (.ofConstants [data, indices]) = .ok [out]) :
    ∃ a, gatherShape op.header axis data.shape indices.shape = .ok (a, out) ∧
      op.header.axis axis data.shape.rank = .ok a := by
  have hs := outputShapes_eq_ok.1 hout
  rw [outputShape, haction] at hs
  obtain ⟨_, hdata, hs⟩ := bind_eq_ok.1 hs
  obtain ⟨_, hindices, hs⟩ := bind_eq_ok.1 hs
  obtain rfl : data.shape = _ := Except.ok.inj hdata
  obtain rfl : indices.shape = _ := Except.ok.inj hindices
  obtain ⟨⟨a, s⟩, hgather, hs⟩ := bind_eq_ok.1 hs
  obtain rfl : s = out := pure_eq_ok.1 hs
  obtain ⟨a', haxis, hpair⟩ := bind_eq_ok.1 hgather
  obtain rfl : a' = a := congrArg Prod.fst (pure_eq_ok.1 hpair)
  exact ⟨a', hgather, haxis⟩

/-- **A gathering of constants.** The index tensor takes the place of the axis. It succeeds if and
only if every index names a row and the extent has a word with a sign wherever it is added to an
index. Otherwise it is refused as malformed, or given up, but this only beyond such extents. Where
it succeeds, every element is that of the named row, and each row that is read lies within the
data. -/
theorem gather_picks (op : Operator) {axis : Int64} {data indices : Constant} {out : Shape}
    (haction : op.action = .gather axis)
    (hout : op.outputShapes (.ofConstants [data, indices]) = .ok [out])
    (hwords : ∀ d ∈ data.shape.dims, d < wordLimit) :
    ∃ a, op.header.axis axis data.shape.rank = .ok a ∧
      out.dims = data.shape.dims.take a ++ indices.shape.dims ++ data.shape.dims.drop (a + 1) ∧
      ((∃ values, op.foldOutputs (.ofConstants [data, indices]) = .ok values) ↔
        ∀ i ∈ indices.ints, op.header.Names (data.shape.extent a) i ∧
          (i.toInt < 0 → data.shape.extent a < signedLimit)) ∧
      (∀ f, op.foldOutputs (.ofConstants [data, indices]) = .error f →
        f.kind = .malformed ∨ f.kind = .fatal ∧ signedLimit ≤ data.shape.extent a) ∧
      ∀ values, op.foldOutputs (.ofConstants [data, indices]) = .ok values →
        ∃ r, values = [r] ∧ r.shape = out ∧ r.PicksOf a data indices ∧
          ∀ o < positions (data.shape.dims.take a), ∀ i ∈ indices.ints, ∀ p : Nat,
            (p : Int) = SliceBounds.position i (data.shape.extent a) →
            (o * data.shape.extent a + p) * positions (data.shape.dims.drop (a + 1)) +
              positions (data.shape.dims.drop (a + 1)) ≤ data.source.size := by
  obtain ⟨a, hgather, haxis⟩ := gatherShape_of_outputShapes haction hout
  obtain ⟨ha, hdims⟩ := (gatherShape_yields _ axis data.shape indices.shape).value hgather
  have hfold : op.fold (.ofConstants [data, indices]) =
      foldGather op.header axis (.ofConstants [data, indices]) := by
    rw [fold, foldBy, haction]
  have hyields := foldOutputs_of_fold
    (hfold ▸ foldGather_picksOf hgather (Shape.extent_lt hwords a))
  refine ⟨a, haxis, congrArg Shape.dims hdims, ⟨?_, fun hnames => ?_⟩, ?_, ?_⟩
  · rintro ⟨values, hvalues⟩
    obtain ⟨r, -, hnames, -⟩ := hyields.value hvalues
    exact hnames
  · have hnone : ∀ f : Fault,
        ¬ ((f.kind = .malformed ∨ f.kind = .fatal ∧ signedLimit ≤ data.shape.extent a) ∧
          ∃ i ∈ indices.ints, ¬ op.header.Reaches (data.shape.extent a) i) := by
      rintro f ⟨-, i, hi, hnot⟩
      exact hnot (hnames i hi)
    obtain ⟨values, hvalues, -⟩ := hyields.exists_value hnone
    exact ⟨values, hvalues⟩
  · exact fun f hf => (hyields.fault hf).1
  · intro values hvalues
    obtain ⟨r, rfl, hnames, hshape, hpicks⟩ := hyields.value hvalues
    refine ⟨r, rfl, hshape, hpicks, fun o ho i hi p hp => ?_⟩
    have hrow : op.header.Picks (data.shape.extent a) i p := ⟨hnames i hi, hp⟩
    exact row_end_le (size_source_axis ha) ho hrow.lt

/-- Columns picked by indices that count from the back, which came with one version. -/
def pickColumns (opset : Int64) : Operator := ⟨⟨"Gather", "columns", opset⟩, .gather 1⟩

/-- Two rows of three, column by column in memory. -/
def threeColumns : Constant :=
  ⟨⟨[2, 3]⟩, ⟨[.depth, .batchWidth], by decide⟩, .ints #[31, 41, 32, 42, 33, 43], rfl, rfl⟩

/-- The last column, and the first one twice. -/
def lastFirst : Constant := ⟨⟨[1, 3]⟩, .uncommitted, .ints #[-1, 0, -3], rfl, rfl⟩

/-- The picked columns are where the axis was. One version earlier the indices are refused. -/
theorem gather_picks_columns :
    (∃ r, (pickColumns 11).foldOutputs (.ofConstants [threeColumns, lastFirst]) = .ok [r] ∧
      r.shape = ⟨[2, 1, 3]⟩ ∧ r.source = .ints #[33, 31, 31, 43, 41, 41] ∧
      r.PicksOf 1 threeColumns lastFirst) ∧
    ∃ f, (pickColumns 10).foldOutputs (.ofConstants [threeColumns, lastFirst]) = .error f ∧
      f.kind = .malformed := by
  have hout (opset : Int64) : (pickColumns opset).outputShapes
      (.ofConstants [threeColumns, lastFirst]) = .ok [⟨[2, 1, 3]⟩] := rfl
  have haxis (opset : Int64) : (pickColumns opset).header.axis 1 2 = .ok 1 := rfl
  have hwords : ∀ d ∈ threeColumns.shape.dims, d < wordLimit := by decide
  constructor
  · obtain ⟨a, ha, -, -, -, hvalues⟩ := gather_picks (pickColumns 11) rfl (hout 11) hwords
    obtain rfl : a = 1 := Except.ok.inj (ha.symm.trans (haxis 11))
    let picked : Constant :=
      ⟨⟨[2, 1, 3]⟩, .uncommitted, .ints #[33, 31, 31, 43, 41, 41], rfl, rfl⟩
    have hpicked :
        (pickColumns 11).foldOutputs (.ofConstants [threeColumns, lastFirst]) = .ok [picked] := by
      cbv
    obtain ⟨r, hr, -, hpicks, -⟩ := hvalues _ hpicked
    obtain rfl := List.singleton_inj.1 hr
    exact ⟨picked, hpicked, rfl, rfl, hpicks⟩
  · obtain ⟨a, ha, -, hsuccess, hmalformed, -⟩ := gather_picks (pickColumns 10) rfl (hout 10) hwords
    obtain rfl : a = 1 := Except.ok.inj (ha.symm.trans (haxis 10))
    have hlast : ¬ (pickColumns 10).header.Names 3 (-1) := by decide
    cases hfold : (pickColumns 10).foldOutputs (.ofConstants [threeColumns, lastFirst]) with
    | ok values => exact absurd (hsuccess.1 ⟨values, hfold⟩ (-1) (by decide)).1 hlast
    | error f =>
      rcases hmalformed f hfold with hkind | ⟨-, hextent⟩
      · exact ⟨f, rfl, hkind⟩
      · exact absurd hextent (by decide)

/-- **The last column cannot be picked from the back** if there are more columns than an index with
a sign can name: the index names it, and is refused as malformed. -/
theorem gather_manyColumns :
    ∃ (data last : Constant) (f : Fault), data.shape = ⟨[0, 9223372036854775813]⟩ ∧
      last.ints = [-1] ∧ (pickColumns 11).outputShapes (.ofConstants [data, last]) = .ok [⟨[0]⟩] ∧
      (pickColumns 11).foldOutputs (.ofConstants [data, last]) = .error f ∧ f.kind = .malformed ∧
      (pickColumns 11).header.Names (data.shape.extent 1) (-1) := by
  let data : Constant := ⟨⟨[0, 9223372036854775813]⟩, .uncommitted, .floats #[], rfl, rfl⟩
  let last : Constant := ⟨⟨[]⟩, .uncommitted, .ints #[-1], rfl, rfl⟩
  exact ⟨data, last, _, rfl, rfl, rfl, rfl, rfl, by decide⟩

end Operator

end Lamina
