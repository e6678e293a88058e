import Mathlib
import Lamina.Proofs.Elementwise
import Lamina.Proofs.Slices

/-!
# Joining and slicing undo each other

A joined tensor is made block by block: for each position before the axis the block of every part in
turn, each of its own size. A slice is one strided reading from an offset on. That one takes back
what the other put together is seen at the level of indices: an index of a part is found in the
whole, moved along the axis by the extents of the parts before it (`foldConcat_joinOf`), and a slice
that starts there moves it by the same distance (`foldSlice_cutOf`).

In the other direction the ranges between neighbouring cuts have to cover the axis. A position is in
the range behind the last cut that is not beyond it (`exists_part`), also where ranges are empty.

**Theorem** (`Operator.concat_slice_inverse`): slicing a joined tensor gives back each part, and
joining the slices between consecutive cuts gives back the tensor. The bounds of a slice have a
sign, and so the extent of the axis has to have a word with a sign; tensors can be joined beyond
that, and then no part is given back (`Operator.slicing_manyRows`).
-/

namespace Lamina

/-! ### The shape of a join -/

/-- The positions that some shapes have together along an axis. -/
def Shape.joinedExtent (axis : Nat) (shapes : List Shape) : Nat :=
  (shapes.map fun s => s.extent axis).sum

theorem Shape.joinedExtent_cons (axis : Nat) (s : Shape) (shapes : List Shape) :
    joinedExtent axis (s :: shapes) = s.extent axis + joinedExtent axis shapes := by
  simp [joinedExtent]

theorem Shape.joinedExtent_append (axis : Nat) (front back : List Shape) :
    joinedExtent axis (front ++ back) = joinedExtent axis front + joinedExtent axis back := by
  simp [joinedExtent]

theorem agreeExcept_iff {axis : Nat} {a b : Shape} (ha : axis < a.rank) (n : Nat) :
    agreeExcept axis a b = true ↔ b.setExtent axis n = a.setExtent axis n := by
  constructor
  · intro h
    have hrank : a.rank = b.rank := by
      simp only [agreeExcept, Bool.and_eq_true, beq_iff_eq] at h
      exact h.1
    obtain ⟨hfront, hback⟩ := agreeExcept_spec h
    have hb : axis < b.dims.length := ha.trans_eq hrank
    rw [Shape.setExtent, Shape.setExtent, List.set_eq_take_append_cons_drop,
      List.set_eq_take_append_cons_drop, if_pos hb, if_pos (show axis < a.dims.length from ha),
      hfront, hback]
  · intro h
    have hrank : a.rank = b.rank := by
      rw [← rank_setExtent a axis n, ← h, rank_setExtent]
    simp only [agreeExcept, Bool.and_eq_true, beq_iff_eq, List.all_eq_true, Bool.or_eq_true]
    refine ⟨hrank, fun i _ => ?_⟩
    by_cases hi : i = axis
    · exact .inl hi
    · right
      rw [← a.extent_setExtent_ne (Ne.symm hi) n, ← h, b.extent_setExtent_ne (Ne.symm hi)]

/-- What shapes are joined to: they differ from the result along the axis only, where it has their
positions together. -/
theorem setExtent_of_joinedShape {h : Header} {axis : Int64} {shapes : List Shape} {a : Nat}
    {out : Shape} (hjoined : joinedShape h axis shapes = .ok (a, out)) :
    shapes ≠ [] ∧ h.axis axis out.rank = .ok a ∧
      ∀ s ∈ shapes, s.setExtent a (Shape.joinedExtent a shapes) = out := by
  obtain ⟨first, rest, rfl, ha, hagree, hout⟩ := (joinedShape_yields h axis _).value hjoined
  dsimp only at ha hagree hout
  have htotal : rest.foldl (fun n s => n + s.extent a) (first.extent a) =
      Shape.joinedExtent a (first :: rest) := by
    rw [foldl_add_eq_sum]
    rfl
  rw [htotal] at hout
  refine ⟨by simp, ?_, ?_⟩
  · obtain ⟨a', haxis, hjoined⟩ := bind_eq_ok.1 hjoined
    obtain ⟨_, -, hjoined⟩ := bind_eq_ok.1 hjoined
    cases pure_eq_ok.1 hjoined
    rwa [rank_setExtent]
  · intro s hs
    rw [hout]
    rcases List.mem_cons.1 hs with rfl | hs
    · rfl
    · exact (agreeExcept_iff ha _).1 (hagree s hs)

/-- **When shapes can be joined**: they differ from the result along the axis only, and their
positions together have a word. -/
theorem joinedShape_of_setExtent {h : Header} {axis : Int64} {shapes : List Shape} {a : Nat}
    {out : Shape} (hne : shapes ≠ []) (haxis : h.axis axis out.rank = .ok a)
    (hall : ∀ s ∈ shapes, s.setExtent a (Shape.joinedExtent a shapes) = out)
    (hword : Shape.joinedExtent a shapes < wordLimit) :
    joinedShape h axis shapes = .ok (a, out) := by
  obtain ⟨first, rest, rfl⟩ := List.exists_cons_of_ne_nil hne
  have hfirst := hall first List.mem_cons_self
  have hrank : out.rank = first.rank := by rw [← hfirst, rank_setExtent]
  rw [hrank] at haxis
  have ha : a < first.rank := (h.axis_yields axis _).value haxis
  suffices hyields : Yields (fun _ => False) (joinedShape h axis (first :: rest))
      fun r => r = (a, out) by
    obtain ⟨_, hok, rfl⟩ := hyields.exists_ok
    exact hok
  unfold joinedShape
  refine Yields.bind (Q := (a = ·)) (.of_eq_ok haxis rfl) ?_
  rintro _ rfl
  refine Yields.bind (Q := fun n => n = Shape.joinedExtent a (first :: rest)) ?_ ?_
  · refine Yields.foldlM_passed (I := fun passed n => n = Shape.joinedExtent a (first :: passed)) ?_
      (by simp [Shape.joinedExtent])
    rintro passed s left rfl _ rfl
    refine (Yields.ensure fun hfalse => ?_).bind fun _ _ => ?_
    · have hagree := (agreeExcept_iff ha _).2 ((hall s (by simp)).trans hfirst.symm)
      rw [hagree] at hfalse
      cases hfalse
    · -- no beginning has more positions than all have together
      simp only [Shape.joinedExtent_cons, Shape.joinedExtent_append] at hword
      refine (Yields.word fun hlimit => ?_).imp ?_
      · rw [Shape.joinedExtent_cons] at hlimit
        omega
      · rintro _ ⟨rfl, -⟩
        rw [Shape.joinedExtent_cons, Shape.joinedExtent_cons, Shape.joinedExtent_append]
        simp [Shape.joinedExtent, Nat.add_assoc]
  · rintro _ rfl
    exact .pure (by rw [hfirst])

/-! ### The place of a part -/

theorem Shape.setExtent_setExtent (s : Shape) (axis n m : Nat) :
    (s.setExtent axis n).setExtent axis m = s.setExtent axis m := by
  rw [setExtent, setExtent, setExtent, List.set_set]

/-- A part differs from the whole along the axis only. -/
theorem Shape.of_setExtent_eq {s out : Shape} {a n : Nat} (hout : s.setExtent a n = out)
    (ha : a < out.rank) :
    a < s.dims.length ∧ out.dims.take a = s.dims.take a ∧
      s.dims.drop (a + 1) = out.dims.drop (a + 1) ∧ out.extent a = n := by
  subst hout
  rw [rank_setExtent] at ha
  refine ⟨ha, List.take_set_of_le (Nat.le_refl a), ?_, extent_setExtent_self ha n⟩
  exact (List.drop_set_of_lt (Nat.lt_succ_self a)).symm

theorem place_modify {dims ix : List Nat} {a start n : Nat} (ha : a < dims.length)
    (h : Within dims ix) :
    place (dims.set a n) (ix.modify a (start + ·)) =
      place (dims.take a) (ix.take a) * positions ((dims.set a n).drop a) +
        (start * positions (dims.drop (a + 1)) + place (dims.drop a) (ix.drop a)) := by
  induction h generalizing a with
  | nil => cases ha
  | @cons d i ds ix _ hrest ih =>
    cases a with
    | zero =>
      simp only [List.set_cons_zero, List.modify_zero_cons, List.take_zero, List.drop_zero,
        List.drop_succ_cons, place]
      ring
    | succ a =>
      have hcount : positions (ds.set a n) =
          positions (ds.take a) * positions ((ds.set a n).drop a) := by
        rw [← positions_append, ← List.take_set_of_le (Nat.le_refl a) (a := n),
          List.take_append_drop]
      simp only [List.set_cons_succ, List.modify_succ_cons, List.take_succ_cons,
        List.drop_succ_cons, place, ih (Nat.lt_of_succ_lt_succ ha), hcount]
      ring

/-- An index of a part, moved behind the parts before it along an axis, is found in the same block
behind their blocks. -/
theorem place_joined {s out : Shape} {a n start : Nat} {ix : List Nat}
    (hout : s.setExtent a n = out) (ha : a < out.rank) (hix : Within s.dims ix) :
    place out.dims (ix.modify a (start + ·)) =
      place (out.dims.take a) (ix.take a) * positions (out.dims.drop a) +
        (start * positions (out.dims.drop (a + 1)) + place (s.dims.drop a) (ix.drop a)) := by
  obtain ⟨hlt, htake, hdrop, -⟩ := Shape.of_setExtent_eq hout ha
  rw [htake, ← hdrop, ← hout]
  exact place_modify hlt hix

/-! ### The elements of a join -/

/-- A tensor consists of parts one behind the other along an axis. -/
structure Constant.JoinOf (r : Constant) (axis : Nat) (parts : List Constant) : Prop where
  shape : ∀ c ∈ parts, r.shape =
    c.shape.setExtent axis (Shape.joinedExtent axis (parts.map Constant.shape))
  elementType : ∀ c ∈ parts, r.data.elementType = c.data.elementType
  element : ∀ front c back, parts = front ++ c :: back → ∀ ix, Within c.shape.dims ix →
    r.elementAt (ix.modify axis (Shape.joinedExtent axis (front.map Constant.shape) + ·)) =
      c.elementAt ix

/-- The blocks of parts that differ along the axis only. -/
theorem sum_blocks {a n : Nat} {out : Shape} {parts : List Constant} (ha : a < out.rank)
    (hall : ∀ c ∈ parts, c.shape.setExtent a n = out) :
    (parts.map fun c => positions (c.shape.dims.drop a)).sum =
      Shape.joinedExtent a (parts.map Constant.shape) * positions (out.dims.drop (a + 1)) := by
  have hblock : ∀ c ∈ parts, positions (c.shape.dims.drop a) =
      c.shape.extent a * positions (out.dims.drop (a + 1)) := by
    intro c hc
    obtain ⟨hlt, -, hdrop, -⟩ := Shape.of_setExtent_eq (hall c hc) ha
    rw [positions_drop hlt, hdrop, Shape.extent]
  rw [List.map_congr_left hblock, List.sum_map_mul_right, Shape.joinedExtent, List.map_map]
  rfl

/-- **Joined buffers have the elements of their parts**, at the index moved along the axis. -/
theorem getElem?_joined {α : Type} {h : Header} {axis : Int64} {a : Nat} {out : Shape}
    {front back : List Constant} {c : Constant} {ix : List Nat} (values : Constant → Array α)
    (hvalues : ∀ c, (values c).size = c.shape.count)
    (hjoined : joinedShape h axis ((front ++ c :: back).map Constant.shape) = .ok (a, out))
    (hix : Within c.shape.dims ix) :
    (interleave ((front ++ c :: back).map fun c => (values c, positions (c.shape.dims.drop a)))
        (positions (out.dims.take a)))[place out.dims
          (ix.modify a (Shape.joinedExtent a (front.map Constant.shape) + ·))]? =
      (values c)[place c.shape.dims ix]? := by
  obtain ⟨-, haxis, hall⟩ := setExtent_of_joinedShape hjoined
  have ha : a < out.rank := (h.axis_yields axis _).value haxis
  replace hall : ∀ d ∈ front ++ c :: back, d.shape.setExtent a _ = out :=
    fun d hd => hall d.shape (List.mem_map_of_mem hd)
  have hout := hall c (by simp)
  obtain ⟨-, htake, -, htotal⟩ := Shape.of_setExtent_eq hout ha
  have hsizes := size_part hvalues hjoined
  have hblocks (l : List Constant) : (l.map fun c => positions (c.shape.dims.drop a)) =
      (l.map fun c => (values c, positions (c.shape.dims.drop a))).map Prod.snd := by
    rw [List.map_map]
    rfl
  have ho : place (out.dims.take a) (ix.take a) < positions (out.dims.take a) :=
    place_lt (htake ▸ hix.take a)
  rw [place_joined hout ha hix, positions_drop ha, ← Shape.extent, htotal, ← sum_blocks ha hall,
    ← sum_blocks ha fun d hd => hall d (List.mem_append_left _ hd), hblocks, hblocks]
  rw [List.map_append, List.map_cons] at hsizes ⊢
  rw [getElem?_interleave hsizes ho (place_lt (hix.drop a)), place_split hix a, htake]

/-! ### Folding a join -/

theorem joinedType_eq {t : ElementType} {types : List ElementType} (hne : types ≠ [])
    (htypes : ∀ u ∈ types, u = t) : joinedType types = t := by
  cases types with
  | nil => exact absurd rfl hne
  | cons u types =>
    obtain rfl := htypes u List.mem_cons_self
    rw [joinedType]
    have hrest : ∀ v ∈ types, v = u := fun v hv => htypes v (List.mem_cons_of_mem _ hv)
    clear htypes hne
    induction types with
    | nil => rfl
    | cons v types ih =>
      obtain rfl := hrest v List.mem_cons_self
      rw [List.foldl_cons, if_pos rfl]
      exact ih fun w hw => hrest w (List.mem_cons_of_mem _ hw)

/-- The values of all inputs are the constants. -/
theorem Operands.constants_ofConstants (h : Header) (cs : List Constant) :
    ((List.range (ofConstants cs).length).mapM fun i => (ofConstants cs).constant h i) =
      .ok cs := by
  refine mapM_eq_ok.2 (List.forall₂_iff_get.2 ⟨by simp [ofConstants], fun i hi hi' => ?_⟩)
  rw [List.get_eq_getElem, List.getElem_range, List.get_eq_getElem]
  exact constant_ofConstants h (List.getElem?_eq_getElem hi')

/-- The values of a tensor in axis order, by their type. -/
theorem Constant.source_eq_floats {c : Constant} (h : c.elementType = .float) :
    c.source = .floats c.floats := by
  rw [elementType, ← c.elementType_source] at h
  unfold floats
  cases hsource : c.source with
  | floats v => rfl
  | ints v =>
    rw [hsource] at h
    cases h

theorem Constant.source_eq_ints {c : Constant} (h : c.elementType = .int64) :
    c.source = .ints c.source.toInts := by
  rw [elementType, ← c.elementType_source] at h
  cases hsource : c.source with
  | ints v => rfl
  | floats v =>
    rw [hsource] at h
    cases h

/-- A part moved to its place lies within the whole. -/
theorem within_joined {front back : List Constant} {c : Constant} {a : Nat} {out : Shape}
    {ix : List Nat} (ha : a < out.rank)
    (hout : c.shape.setExtent a
      (Shape.joinedExtent a ((front ++ c :: back).map Constant.shape)) = out)
    (hix : Within c.shape.dims ix) :
    Within out.dims (ix.modify a (Shape.joinedExtent a (front.map Constant.shape) + ·)) := by
  obtain ⟨-, -, -, htotal⟩ := Shape.of_setExtent_eq hout ha
  have hpart : out.setExtent a (c.shape.extent a) = c.shape := by
    rw [← hout, Shape.setExtent_setExtent, Shape.setExtent_self]
  apply Within.modify (n := c.shape.extent a)
  · rwa [← hpart] at hix
  · rw [← Shape.extent, htotal, List.map_append, List.map_cons, Shape.joinedExtent_append,
      Shape.joinedExtent_cons]
    omega

/-- A buffer that has the elements of the parts is joined from them. -/
theorem Constant.joinOf_of_elements {h : Header} {axis : Int64} {cs : List Constant} {a : Nat}
    {out : Shape} {data : Buffer}
    (hjoined : joinedShape h axis (cs.map Constant.shape) = .ok (a, out))
    (hsize : data.size = out.count) (htype : ∀ c ∈ cs, data.elementType = c.data.elementType)
    (helement : ∀ front c back, cs = front ++ c :: back → ∀ ix, Within c.shape.dims ix →
      data.get? (place out.dims
        (ix.modify a (Shape.joinedExtent a (front.map Constant.shape) + ·))) =
        c.source.get? (place c.shape.dims ix)) :
    ∃ r, ofBuffer out data = .ok r ∧ r.shape = out ∧ r.JoinOf a cs := by
  obtain ⟨-, haxis, hall⟩ := setExtent_of_joinedShape hjoined
  have ha : a < out.rank := (h.axis_yields axis _).value haxis
  obtain ⟨r, hr, rfl, rfl⟩ := exists_ofBuffer hsize
  refine ⟨r, hr, rfl, fun c hc => (hall c.shape (List.mem_map_of_mem hc)).symm, fun c hc => ?_, ?_⟩
  · rw [← r.elementType_source, htype c hc]
  · rintro front c back rfl ix hix
    have hout := hall c.shape (by simp)
    rw [← source_get? (within_joined ha hout hix), helement front c back rfl ix hix,
      source_get? hix]

/-- **Folding a concatenation joins the constants.** -/
theorem foldConcat_joinOf {h : Header} {axis : Int64} {cs : List Constant} {t : ElementType}
    {a : Nat} {out : Shape} (htypes : ∀ c ∈ cs, c.elementType = t)
    (hjoined : joinedShape h axis (cs.map Constant.shape) = .ok (a, out)) :
    ∃ r, foldConcat h axis (.ofConstants cs) = .ok r ∧ r.shape = out ∧ r.JoinOf a cs := by
  have hne : cs.map Constant.elementType ≠ [] := by
    simpa using (setExtent_of_joinedShape hjoined).1
  have htype : joinedType (cs.map Constant.elementType) = t :=
    joinedType_eq hne fun u hu => by
      obtain ⟨c, hc, rfl⟩ := List.mem_map.1 hu
      exact htypes c hc
  unfold foldConcat
  rw [Operands.shapes_ofConstants, hjoined, Operands.constants_ofConstants]
  cases t with
  | float =>
    simp only [bind, Except.bind, htype]
    refine Constant.joinOf_of_elements hjoined (size_joined Constant.size_floats hjoined)
      (fun c hc => (htypes c hc).symm) ?_
    rintro front c back rfl ix hix
    rw [Constant.source_eq_floats (htypes c (by simp))]
    exact congrArg (Option.map Element.float) (getElem?_joined _ Constant.size_floats hjoined hix)
  | int64 =>
    have hsize (c : Constant) : c.source.toInts.size = c.shape.count :=
      (Buffer.size_toInts _).trans c.size_source
    simp only [bind, Except.bind, htype]
    refine Constant.joinOf_of_elements hjoined (size_joined hsize hjoined)
      (fun c hc => (htypes c hc).symm) ?_
    rintro front c back rfl ix hix
    rw [Constant.source_eq_ints (htypes c (by simp))]
    exact congrArg (Option.map Element.int) (getElem?_joined _ hsize hjoined hix)

/-! ### Taking a join apart -/

/-- **A slice of a join is the part.** -/
theorem Constant.CutOf.part {parts front back : List Constant} {c r y : Constant} {a : Nat}
    (hcut : y.CutOf [⟨a, Shape.joinedExtent a (front.map Constant.shape), c.shape.extent a⟩] r)
    (hjoin : r.JoinOf a parts) (hparts : parts = front ++ c :: back) :
    y.shape = c.shape ∧ y.source = c.source := by
  have hc : c ∈ parts := by simp [hparts]
  have hshape : y.shape = c.shape := by
    rw [hcut.shape, AxisRange.apply_cons, hjoin.shape c hc]
    exact (Shape.setExtent_setExtent ..).trans (Shape.setExtent_self ..)
  refine ⟨hshape, source_eq_of_elements hshape ?_ fun ix hix => ?_⟩
  · rw [hcut.elementType, hjoin.elementType c hc]
  · rw [hcut.element ix (hshape ▸ hix)]
    exact hjoin.element front c back hparts ix hix

/-! ### Putting slices together -/

/-- The ranges between neighbouring cuts along an axis. -/
def AxisRange.between (axis : Nat) : List Nat → List AxisRange
  | lo :: hi :: cuts => ⟨axis, lo, hi - lo⟩ :: between axis (hi :: cuts)
  | _ => []

theorem AxisRange.axis_of_mem_between {axis : Nat} {cuts : List Nat} {s : AxisRange}
    (h : s ∈ between axis cuts) : s.axis = axis := by
  fun_induction between axis cuts with
  | case1 lo hi cuts ih =>
    rcases List.mem_cons.1 h with rfl | h
    · rfl
    · exact ih h
  | case2 => cases h

section Cuts

variable {x c : Constant} {a : Nat}

theorem Constant.CutOf.extent {s : AxisRange} (h : c.CutOf [s] x) (hs : s.axis < x.shape.rank) :
    c.shape.extent s.axis = s.length := by
  rw [h.shape]
  exact Shape.extent_setExtent_self hs _

/-- The parts between cuts have the positions between the first and the last one. -/
theorem joinedExtent_between (ha : a < x.shape.rank) {cuts : List Nat} {lo hi : Nat}
    {parts : List Constant} (hsorted : (lo :: cuts).Pairwise (· ≤ ·))
    (hlast : (lo :: cuts).getLast? = some hi)
    (hparts : List.Forall₂ (fun c s => Constant.CutOf c [s] x) parts
      (AxisRange.between a (lo :: cuts))) :
    lo + Shape.joinedExtent a (parts.map Constant.shape) = hi := by
  induction cuts generalizing lo parts with
  | nil =>
    cases hparts
    exact Option.some.inj hlast
  | cons next cuts ih =>
    obtain ⟨hle, hsorted⟩ := List.pairwise_cons.1 hsorted
    rw [AxisRange.between] at hparts
    obtain ⟨c, parts, hcut, hrest, rfl⟩ := List.forall₂_cons_right_iff.1 hparts
    have hnext := ih hsorted (by simpa using hlast) hrest
    have hextent : c.shape.extent a = next - lo := hcut.extent ha
    have hfirst : lo ≤ next := hle next List.mem_cons_self
    rw [List.map_cons, Shape.joinedExtent_cons, hextent]
    omega

/-- **A position between the cuts is in one of the parts**, which begins where those before it
end. -/
theorem exists_part (ha : a < x.shape.rank) {cuts : List Nat} {lo hi i : Nat}
    {parts : List Constant} (hsorted : (lo :: cuts).Pairwise (· ≤ ·))
    (hlast : (lo :: cuts).getLast? = some hi)
    (hparts : List.Forall₂ (fun c s => Constant.CutOf c [s] x) parts
      (AxisRange.between a (lo :: cuts))) (hlow : lo ≤ i) (hhigh : i < hi) :
    ∃ front c back start, parts = front ++ c :: back ∧
      start = lo + Shape.joinedExtent a (front.map Constant.shape) ∧
      c.CutOf [⟨a, start, c.shape.extent a⟩] x ∧
      start ≤ i ∧ i < start + c.shape.extent a := by
  induction cuts generalizing lo parts with
  | nil =>
    have : lo = hi := Option.some.inj hlast
    omega
  | cons next cuts ih =>
    obtain ⟨hle, hsorted⟩ := List.pairwise_cons.1 hsorted
    rw [AxisRange.between] at hparts
    obtain ⟨c, parts, hcut, hrest, rfl⟩ := List.forall₂_cons_right_iff.1 hparts
    have hextent : c.shape.extent a = next - lo := hcut.extent ha
    by_cases hi : i < next
    · refine ⟨[], c, parts, lo, rfl, rfl, ?_, hlow, ?_⟩
      · rwa [hextent]
      · omega
    · obtain ⟨front, d, back, start, rfl, hstart, hrange⟩ :=
        ih hsorted (by simpa using hlast) hrest (Nat.not_lt.1 hi)
      refine ⟨c :: front, d, back, start, rfl, ?_, hrange⟩
      have hfirst : lo ≤ next := hle next List.mem_cons_self
      rw [hstart, List.map_cons, Shape.joinedExtent_cons, hextent]
      omega

/-- **Parts between cuts, joined, are the whole.** -/
theorem Constant.JoinOf.whole {r : Constant} {cuts : List Nat} {parts : List Constant}
    (ha : a < x.shape.rank) (hsorted : (0 :: cuts).Pairwise (· ≤ ·))
    (hlast : (0 :: cuts).getLast? = some (x.shape.extent a))
    (hparts : List.Forall₂ (fun c s => Constant.CutOf c [s] x) parts
      (AxisRange.between a (0 :: cuts)))
    (hshape : r.shape = x.shape) (htype : r.data.elementType = x.data.elementType)
    (hjoin : r.JoinOf a parts) : r.source = x.source := by
  refine source_eq_of_elements hshape htype fun ix hix => ?_
  have hlt : ix.getD a 0 < x.shape.extent a := hix.getD_lt ha
  obtain ⟨front, c, back, start, hsplit, hstart, hcut, hlow, hhigh⟩ :=
    exists_part ha hsorted hlast hparts (Nat.zero_le _) hlt
  -- the index belongs to a part, which was cut out where it is put
  obtain ⟨jx, hjx, rfl⟩ := hix.exists_modify hlow hhigh
  have hjx' : Within c.shape.dims jx := by
    rw [hcut.shape]
    exact hjx
  rw [Nat.zero_add] at hstart
  rw [hstart, hjoin.element front c back hsplit jx hjx', hcut.element jx hjx', ← hstart]
  rfl

end Cuts

/-! ### Slices of one range -/

/-- A slice keeps one range of a constant, whether its bounds are attributes or inputs. -/
def Operator.KeepsRange (op : Operator) (ops : Operands) (x : Constant) (s : AxisRange) : Prop :=
  ops.bound? 0 = some ⟨x.shape, some x⟩ ∧
    ∃ bounds, op.action = .slice bounds ∧ keptSlices op.header bounds ops = .ok [s]

/-- The slice from one position to another along an axis. -/
def Operator.slicing (h : Header) (axis : Int64) (start stop : Nat) : Operator :=
  ⟨h, .slice (some ⟨[Int64.ofNat start], [Int64.ofNat stop], some [axis], none⟩)⟩

theorem Operator.KeepsRange.folds {op : Operator} {ops : Operands} {x : Constant} {s : AxisRange}
    (h : op.KeepsRange ops x s) : ∃ y, op.foldOutputs ops = .ok [y] ∧ y.CutOf [s] x := by
  obtain ⟨hx, bounds, haction, hkept⟩ := h
  obtain ⟨y, hy, hcut⟩ := foldSlice_cutOf hx hkept
  exact ⟨y, foldOutputs_of_foldSlice haction hy, hcut⟩

theorem exists_folds {x : Constant} {slices : List (Operator × Operands)} {ranges : List AxisRange}
    (h : List.Forall₂ (fun cut s => Operator.KeepsRange cut.1 cut.2 x s) slices ranges) :
    ∃ parts, List.Forall₂ (fun cut c => Operator.foldOutputs cut.1 cut.2 = .ok [c]) slices parts ∧
      List.Forall₂ (fun c s => Constant.CutOf c [s] x) parts ranges := by
  induction h with
  | nil => exact ⟨[], .nil, .nil⟩
  | cons hcut _ ih =>
    obtain ⟨y, hy, hcut⟩ := hcut.folds
    obtain ⟨parts, hfolds, hcuts⟩ := ih
    exact ⟨y :: parts, .cons hy hfolds, .cons hcut hcuts⟩

/-- Whatever range a slice keeps is along an axis whose extent has a word with a sign. -/
theorem Operator.KeepsRange.extent_lt {op : Operator} {ops : Operands} {x : Constant}
    {s : AxisRange} (h : op.KeepsRange ops x s) : x.shape.extent s.axis < signedLimit := by
  obtain ⟨hx, bounds, -, hkept⟩ := h
  obtain ⟨b, x', -, hx', hkeeps, -⟩ := keptSlices_keeps hkept
  obtain rfl := Option.some.inj (hx.symm.trans hx')
  obtain ⟨found, hperm, hanswers⟩ := hkeeps.answers
  obtain ⟨_, -, hs⟩ := forall₂_mem_left hanswers.flip (hperm.mem_iff.2 (List.mem_singleton_self s))
  exact hs.signed

theorem SliceBounds.clamp_ofNat {h : Header} {n extent : Nat} (hn : n ≤ extent)
    (hextent : extent < signedLimit) : clamp h (Int64.ofNat n) extent = .ok n := by
  have hvalue : (Int64.ofNat n).toInt = n := Int64.toInt_ofNat_of_lt (hn.trans_lt hextent)
  rw [clamp_eq_ok, position, hvalue]
  exact ⟨hextent, by omega⟩

section Slicing

variable {h : Header} {axis : Int64} {x : Constant} {a start stop : Nat}

/-- A single range is kept from where its bounds are clamped to. -/
theorem keptSlices_slicing (haxis : h.axis axis x.shape.rank = .ok a) :
    keptSlices h (some ⟨[Int64.ofNat start], [Int64.ofNat stop], some [axis], none⟩)
        (.ofConstants [x]) = do
      let first ← SliceBounds.clamp h (Int64.ofNat start) (x.shape.extent a)
      let last ← SliceBounds.clamp h (Int64.ofNat stop) (x.shape.extent a)
      return [⟨a, first, last - first⟩] := by
  change SliceBounds.resolve ⟨[Int64.ofNat start], [Int64.ofNat stop], some [axis], none⟩ h
    x.shape = _
  cases hfirst : SliceBounds.clamp h (Int64.ofNat start) (x.shape.extent a) with
  | error f =>
    simp [SliceBounds.resolve, SliceBounds.resolveFrom, haxis, hfirst, bind, Except.bind]
  | ok first =>
    cases hlast : SliceBounds.clamp h (Int64.ofNat stop) (x.shape.extent a) with
    | error f =>
      simp [SliceBounds.resolve, SliceBounds.resolveFrom, haxis, hfirst, hlast, bind, Except.bind]
    | ok last =>
      simp [SliceBounds.resolve, SliceBounds.resolveFrom, haxis, hfirst, hlast, bind, Except.bind,
        pure, Except.pure]

/-- Positions that are 64-bit integers can be named by a slice. -/
theorem Operator.slicing_keepsRange (haxis : h.axis axis x.shape.rank = .ok a)
    (hle : start ≤ stop) (hstop : stop ≤ x.shape.extent a)
    (hextent : x.shape.extent a < signedLimit) :
    (slicing h axis start stop).KeepsRange (.ofConstants [x]) x ⟨a, start, stop - start⟩ := by
  refine ⟨Operands.bound?_ofConstants rfl, _, rfl, ?_⟩
  refine (keptSlices_slicing haxis).trans ?_
  rw [SliceBounds.clamp_ofNat (hle.trans hstop) hextent, SliceBounds.clamp_ofNat hstop hextent]
  rfl

/-- Along an axis with more positions a slice is given up. -/
theorem Operator.slicing_fatal (haxis : h.axis axis x.shape.rank = .ok a)
    (hextent : signedLimit ≤ x.shape.extent a) :
    ∃ f, (slicing h axis start stop).foldOutputs (.ofConstants [x]) = .error f ∧
      f.kind = .fatal := by
  have hclamp : SliceBounds.clamp h (Int64.ofNat start) (x.shape.extent a) =
      .error ⟨h.site, .word (.unsigned (x.shape.extent a))⟩ := if_neg (not_lt.2 hextent)
  have hkept : keptSlices h (some ⟨[Int64.ofNat start], [Int64.ofNat stop], some [axis], none⟩)
      (.ofConstants [x]) = .error ⟨h.site, .word (.unsigned (x.shape.extent a))⟩ := by
    rw [keptSlices_slicing haxis, hclamp]
    rfl
  refine ⟨⟨h.site, .word (.unsigned (x.shape.extent a))⟩, foldOutputs_eq_error.2 ?_, rfl⟩
  change (do
    let slices ← keptSlices h _ (.ofConstants [x])
    let out := AxisRange.apply slices x.shape
    let base := AxisRange.base slices x.shape
    Constant.ofBuffer out
      (x.source.rearrange fun v => readStrided v base out.dims x.shape.strides)) = _
  rw [hkept]
  rfl

end Slicing

/-! ### Both ways -/

namespace Operator

variable {join : Operator} {axis : Int64}

theorem foldOutputs_of_foldConcat {ops : Operands} {r : Constant}
    (haction : join.action = .concat axis) (hr : foldConcat join.header axis ops = .ok r) :
    join.foldOutputs ops = .ok [r] := by
  rw [foldOutputs_eq_ok, fold, foldBy, haction]
  exact hr

theorem joinedShape_of_outputShapes {ops : Operands} {out : Shape}
    (haction : join.action = .concat axis) (hout : join.outputShapes ops = .ok [out]) :
    ∃ a, joinedShape join.header axis ops.shapes = .ok (a, out) := by
  have hs := outputShapes_eq_ok.1 hout
  rw [outputShape, haction] at hs
  obtain ⟨⟨a, s⟩, hjoined, rfl⟩ := map_eq_ok.1 hs
  exact ⟨a, hjoined⟩

/-- **Slices between cuts, joined, give back the tensor.** -/
theorem exists_concat_of_between {x : Constant} {a : Nat} {cuts : List Nat}
    {parts : List Constant} (haction : join.action = .concat axis)
    (hextent : x.shape.extent a < signedLimit)
    (haxis : join.header.axis axis x.shape.rank = .ok a) (hcuts : cuts ≠ [])
    (hsorted : (0 :: cuts).Pairwise (· ≤ ·))
    (hlast : (0 :: cuts).getLast? = some (x.shape.extent a))
    (hparts : List.Forall₂ (fun c s => Constant.CutOf c [s] x) parts
      (AxisRange.between a (0 :: cuts))) :
    ∃ y, join.foldOutputs (.ofConstants parts) = .ok [y] ∧ y.shape = x.shape ∧
      y.source = x.source := by
  have ha : a < x.shape.rank := (join.header.axis_yields axis _).value haxis
  have htotal := joinedExtent_between ha hsorted hlast hparts
  rw [Nat.zero_add] at htotal
  have hne : parts ≠ [] := by
    rintro rfl
    cases cuts with
    | nil => exact hcuts rfl
    | cons hi cuts => cases hparts
  have hcut : ∀ c ∈ parts, ∃ s, s.axis = a ∧ c.CutOf [s] x := by
    intro c hc
    obtain ⟨s, hs, hcut⟩ := forall₂_mem_left hparts hc
    exact ⟨s, AxisRange.axis_of_mem_between hs, hcut⟩
  have htypes : ∀ c ∈ parts, c.elementType = x.elementType := by
    intro c hc
    obtain ⟨s, -, hcut⟩ := hcut c hc
    exact hcut.elementType
  have hjoined : joinedShape join.header axis (parts.map Constant.shape) = .ok (a, x.shape) := by
    refine joinedShape_of_setExtent (by simpa using hne) haxis (fun shape hshape => ?_) ?_
    · obtain ⟨c, hc, rfl⟩ := List.mem_map.1 hshape
      obtain ⟨s, rfl, hs⟩ := hcut c hc
      rw [htotal, hs.shape]
      exact (Shape.setExtent_setExtent ..).trans (Shape.setExtent_self ..)
    · rw [htotal]
      exact hextent.trans (by decide)
  obtain ⟨y, hy, hshape, hjoin⟩ := foldConcat_joinOf htypes hjoined
  refine ⟨y, foldOutputs_of_foldConcat haction hy, hshape, ?_⟩
  obtain ⟨c, hc⟩ := List.exists_mem_of_ne_nil parts hne
  exact hjoin.whole ha hsorted hlast hparts hshape ((hjoin.elementType c hc).trans (htypes c hc))

/-- **Joining and slicing undo each other.** Constants of one type whose shapes can be joined are
joined, and a slice of the result that keeps the range of a part gives a tensor with its shape and
values. Slices of a tensor between consecutive cuts, which may coincide, give it back when joined.
Every range is kept by a slice if the extent of the axis has a word with a sign; otherwise the slice
is given up. -/
theorem concat_slice_inverse (join : Operator) {axis : Int64}
    (haction : join.action = .concat axis) :
    (∀ (parts : List Constant) (t : ElementType) (out : Shape),
      (∀ c ∈ parts, c.elementType = t) → join.outputShapes (.ofConstants parts) = .ok [out] →
      ∃ a r, join.header.axis axis out.rank = .ok a ∧
        join.foldOutputs (.ofConstants parts) = .ok [r] ∧ r.shape = out ∧
        ∀ front c back, parts = front ++ c :: back → ∀ cut ops,
          KeepsRange cut ops r
            ⟨a, Shape.joinedExtent a (front.map Constant.shape), c.shape.extent a⟩ →
          ∃ y, cut.foldOutputs ops = .ok [y] ∧ y.shape = c.shape ∧ y.source = c.source) ∧
    (∀ (x : Constant) (a : Nat) (cuts : List Nat),
      join.header.axis axis x.shape.rank = .ok a → cuts ≠ [] → (0 :: cuts).Pairwise (· ≤ ·) →
      (0 :: cuts).getLast? = some (x.shape.extent a) →
      ∀ slices : List (Operator × Operands),
        List.Forall₂ (fun cut s => KeepsRange cut.1 cut.2 x s) slices
          (AxisRange.between a (0 :: cuts)) →
        ∃ parts y, List.Forall₂ (fun cut c => foldOutputs cut.1 cut.2 = .ok [c]) slices parts ∧
          join.foldOutputs (.ofConstants parts) = .ok [y] ∧ y.shape = x.shape ∧
          y.source = x.source) ∧
    ∀ (h : Header) (k : Int64) (x : Constant) (a start stop : Nat),
      h.axis k x.shape.rank = .ok a → start ≤ stop → stop ≤ x.shape.extent a →
      (x.shape.extent a < signedLimit →
        (slicing h k start stop).KeepsRange (.ofConstants [x]) x ⟨a, start, stop - start⟩) ∧
      (signedLimit ≤ x.shape.extent a → ∃ f,
        (slicing h k start stop).foldOutputs (.ofConstants [x]) = .error f ∧ f.kind = .fatal) := by
  refine ⟨?_, ?_, fun h k x a start stop haxis hle hstop => ?_⟩
  · intro parts t out htypes hout
    obtain ⟨a, hjoined⟩ := joinedShape_of_outputShapes haction hout
    rw [Operands.shapes_ofConstants] at hjoined
    obtain ⟨r, hr, hshape, hjoin⟩ := foldConcat_joinOf htypes hjoined
    have haxis := (setExtent_of_joinedShape hjoined).2.1
    refine ⟨a, r, haxis, foldOutputs_of_foldConcat haction hr, hshape, ?_⟩
    intro front c back hparts cut ops hkeeps
    obtain ⟨y, hy, hcut⟩ := hkeeps.folds
    exact ⟨y, hy, hcut.part hjoin hparts⟩
  · intro x a cuts haxis hcuts hsorted hlast slices hslices
    -- there is a slice, and so the extent has a word with a sign
    have hextent : x.shape.extent a < signedLimit := by
      obtain ⟨next, cuts, rfl⟩ := List.exists_cons_of_ne_nil hcuts
      rw [AxisRange.between] at hslices
      obtain ⟨cut, rest, hkeeps, -, rfl⟩ := List.forall₂_cons_right_iff.1 hslices
      exact hkeeps.extent_lt
    obtain ⟨parts, hfolds, hparts⟩ := exists_folds hslices
    obtain ⟨y, hy, hwhole⟩ :=
      exists_concat_of_between haction hextent haxis hcuts hsorted hlast hparts
    exact ⟨parts, y, hfolds, hy, hwhole⟩
  · exact ⟨slicing_keepsRange haxis hle hstop, slicing_fatal haxis⟩

/-- Tensors side by side. -/
def joinBeside : Operator := ⟨⟨"Concat", "beside", 13⟩, .concat (-1)⟩

/-- One column, in axis order. -/
def leftColumn : Constant := ⟨⟨[2, 1]⟩, .uncommitted, .ints #[7, 8], rfl, rfl⟩

/-- Two columns, one behind the other in memory. -/
def rightColumns : Constant :=
  ⟨⟨[2, 2]⟩, ⟨[.depth, .height], by decide⟩, .ints #[11, 21, 12, 22], rfl, rfl⟩

/-- Two columns are taken back from three, under an axis that counts from the back. Cut into a
column, nothing and two columns, the three are joined again. -/
theorem concat_slice_inverse_beside :
    ∃ r y z parts, joinBeside.foldOutputs (.ofConstants [leftColumn, rightColumns]) = .ok [r] ∧
      r.shape = ⟨[2, 3]⟩ ∧ r.source = .ints #[7, 11, 12, 8, 21, 22] ∧
      (slicing ⟨"Slice", "right", 13⟩ (-1) 1 3).foldOutputs (.ofConstants [r]) = .ok [y] ∧
      y.shape = rightColumns.shape ∧ y.source = rightColumns.source ∧
      List.Forall₂ (fun cut c => foldOutputs cut.1 cut.2 = .ok [c])
        ([(0, 1), (1, 1), (1, 3)].map fun e =>
          (slicing ⟨"Slice", "cut", 9⟩ 1 e.1 e.2, .ofConstants [r])) parts ∧
      joinBeside.foldOutputs (.ofConstants parts) = .ok [z] ∧ z.shape = r.shape ∧
      z.source = r.source := by
  obtain ⟨hparts, hwhole, hkeeps⟩ := concat_slice_inverse joinBeside rfl
  have htypes : ∀ c ∈ [leftColumn, rightColumns], c.elementType = .int64 := by
    simpa using ⟨rfl, rfl⟩
  obtain ⟨a, r, ha, hr, hshape, hslices⟩ :=
    hparts [leftColumn, rightColumns] .int64 ⟨[2, 3]⟩ htypes rfl
  have hlast : joinBeside.header.axis (-1) 2 = .ok 1 := rfl
  obtain rfl : a = 1 := Except.ok.inj (ha.symm.trans hlast)
  let joined : Constant := ⟨⟨[2, 3]⟩, .uncommitted, .ints #[7, 11, 12, 8, 21, 22], rfl, rfl⟩
  have hjoined :
      joinBeside.foldOutputs (.ofConstants [leftColumn, rightColumns]) = .ok [joined] := by cbv
  obtain rfl : r = joined := List.singleton_inj.1 (Except.ok.inj (hr.symm.trans hjoined))
  obtain ⟨y, hy, hpart⟩ := hslices [leftColumn] rightColumns [] rfl _ _
    ((hkeeps ⟨"Slice", "right", 13⟩ (-1) joined 1 1 3 rfl (by decide) (by decide)).1 (by decide))
  have hkeep (start stop : Nat) (hle : start ≤ stop) (hstop : stop ≤ 3) :=
    (hkeeps ⟨"Slice", "cut", 9⟩ 1 joined 1 start stop rfl hle hstop).1 (by decide)
  obtain ⟨parts, z, hfolds, hz⟩ := hwhole joined 1 [1, 1, 3] rfl (by simp) (by decide) rfl
    ([(0, 1), (1, 1), (1, 3)].map fun e =>
      (slicing ⟨"Slice", "cut", 9⟩ 1 e.1 e.2, .ofConstants [joined]))
    (.cons (hkeep 0 1 (by decide) (by decide)) (.cons (hkeep 1 1 (by decide) (by decide))
      (.cons (hkeep 1 3 (by decide) (by decide)) .nil)))
  exact ⟨joined, y, z, parts, hr, rfl, rfl, hy, hpart.1, hpart.2, hfolds, hz⟩

/-- Tensors one above the other. -/
def joinAbove : Operator := ⟨⟨"Concat", "j", 9⟩, .concat 0⟩

/-- **Parts that are not given back.** Rows without elements can be joined to more rows than a slice
can name, and the slice that is to take back the first part is given up. -/
theorem slicing_manyRows :
    ∃ (many five r : Constant) (f : Fault), many.shape = ⟨[4611686018427387904, 0]⟩ ∧
      five.shape = ⟨[5, 0]⟩ ∧
      joinAbove.outputShapes (.ofConstants [many, many, five]) = .ok [r.shape] ∧
      joinAbove.foldOutputs (.ofConstants [many, many, five]) = .ok [r] ∧
      r.shape = ⟨[9223372036854775813, 0]⟩ ∧
      (slicing ⟨"Slice", "s", 9⟩ 0 0 4611686018427387904).foldOutputs (.ofConstants [r]) =
        .error f ∧ f.kind = .fatal := by
  let many : Constant := ⟨⟨[4611686018427387904, 0]⟩, .uncommitted, .floats #[], rfl, rfl⟩
  let five : Constant := ⟨⟨[5, 0]⟩, .uncommitted, .floats #[], rfl, rfl⟩
  have hout : joinAbove.outputShapes (.ofConstants [many, many, five]) =
      .ok [⟨[9223372036854775813, 0]⟩] := by cbv
  obtain ⟨a, hjoined⟩ := joinedShape_of_outputShapes rfl hout
  rw [Operands.shapes_ofConstants] at hjoined
  have htypes : ∀ c ∈ [many, many, five], c.elementType = .float := by
    simpa using ⟨rfl, rfl⟩
  obtain ⟨r, hr, hshape, -⟩ := foldConcat_joinOf htypes hjoined
  have haxis : Header.axis ⟨"Slice", "s", 9⟩ 0 r.shape.rank = .ok 0 := by
    rw [hshape]
    rfl
  have hextent : signedLimit ≤ r.shape.extent 0 := by
    rw [hshape]
    decide +kernel
  obtain ⟨f, hf, hfatal⟩ : ∃ f, (slicing ⟨"Slice", "s", 9⟩ 0 0 4611686018427387904).foldOutputs
      (.ofConstants [r]) = .error f ∧ f.kind = .fatal := slicing_fatal haxis hextent
  exact ⟨many, five, r, f, rfl, rfl, hshape ▸ hout, foldOutputs_of_foldConcat rfl hr, hshape, hf,
    hfatal⟩

end Operator

end Lamina
