import Mathlib
import Lamina.Proofs.FoldOutcomes
import Lamina.Proofs.LayoutIndependence
import Lamina.Proofs.UnitAxes

/-!
# Unit axes put in and taken out

One operator puts unit axes into a shape, another one takes them out. Both are given the same kind
of list: axes in any order, which may be counted from the end. But one counts them in what it
makes, the other in what it is given. The two ranks are the same if the operators are applied one
after the other, in either order, and so are the axes that the list stands for.

What is left is a matter of extents. Unit axes put in at some positions are taken out there again
(`dropFrom_insertFrom`), and unit axes taken out are put in again (`insertFrom_dropFrom`), by
induction on the positions from left to right.

**Theorem** (`Operator.squeeze_unsqueeze`): with the same list of axes each of the operators undoes
the other one, for shapes as well as for the values of constants.
-/

namespace Lamina

variable {axis count : Nat} {axes dims : List Nat}

/-! ### Extents -/

/-- **What is put in is taken out again.** -/
theorem dropFrom_insertFrom
    (h : ((List.range' axis count).filter (· ∉ axes)).length = dims.length) :
    dropFrom axis (Shape.insertFrom axes axis count dims) axes = dims := by
  induction count generalizing axis dims with
  | zero =>
    obtain rfl : dims = [] := List.eq_nil_of_length_eq_zero h.symm
    rfl
  | succ count ih =>
    rw [Shape.insertFrom]
    rw [List.range'_succ] at h
    by_cases hin : axis ∈ axes
    · rw [if_pos (by simpa using hin), dropFrom_cons_of_mem hin]
      exact ih (by simpa [hin] using h)
    · rw [if_neg (by simpa using hin), dropFrom_cons_of_notMem hin]
      cases dims with
      | nil => simp [hin] at h
      | cons d dims => exact congrArg (d :: ·) (ih (by simpa [hin] using h))

/-- **What is taken out is put in again**, if it is a unit axis. -/
theorem insertFrom_dropFrom (h : ∀ a ∈ axes, axis ≤ a → dims.getD (a - axis) 1 = 1) :
    Shape.insertFrom axes axis dims.length (dropFrom axis dims axes) = dims := by
  induction dims generalizing axis with
  | nil => rfl
  | cons d dims ih =>
    have hrest := ih (getD_tail h)
    rw [List.length_cons, Shape.insertFrom]
    by_cases hin : axis ∈ axes
    · obtain rfl : d = 1 := by simpa using h axis hin le_rfl
      rw [if_pos (by simpa using hin), dropFrom_cons_of_mem hin, hrest]
    · rw [if_neg (by simpa using hin), dropFrom_cons_of_notMem hin, List.headD_cons,
        List.tail_cons, hrest]

theorem length_insertFrom : (Shape.insertFrom axes axis count dims).length = count := by
  induction count generalizing axis dims with
  | zero => rfl
  | succ count ih =>
    rw [Shape.insertFrom]
    split <;> rw [List.length_cons, ih]

theorem getElem?_insertFrom_of_mem {i : Nat} (hi : i < count) (hin : axis + i ∈ axes) :
    (Shape.insertFrom axes axis count dims)[i]? = some 1 := by
  induction count generalizing axis dims i with
  | zero => omega
  | succ count ih =>
    rw [Shape.insertFrom]
    cases i with
    | zero =>
      rw [if_pos (by simpa using hin)]
      rfl
    | succ i =>
      have hin' : axis + 1 + i ∈ axes := by rwa [Nat.add_assoc, Nat.add_comm 1 i]
      split <;> exact ih (by omega) hin'

namespace Shape

variable {s : Shape}

theorem rank_insertAxes (s : Shape) (axes : List Nat) :
    (s.insertAxes axes).rank = s.rank + axes.length := length_insertFrom

/-- An axis that is put in is a unit axis. -/
theorem getElem?_insertAxes {a : Nat} (hin : a ∈ axes) (hlt : a < s.rank + axes.length) :
    (s.insertAxes axes).dims[a]? = some 1 :=
  getElem?_insertFrom_of_mem hlt (by rwa [Nat.zero_add])

theorem rank_dropAxes (hnodup : axes.Nodup) (hlt : ∀ a ∈ axes, a < s.rank) :
    (s.dropAxes axes).rank + axes.length = s.rank := by
  have hlength := length_filter_notMem hnodup hlt
  have hfilter : ((List.range s.rank).filter fun a => !axes.contains a) =
      (List.range s.rank).filter (· ∉ axes) := by
    congr 1
    funext a
    simp
  rw [rank, dropAxes, List.length_map, otherAxes, hfilter]
  exact hlength

theorem dropAxes_insertAxes (hnodup : axes.Nodup)
    (hlt : ∀ a ∈ axes, a < s.rank + axes.length) : (s.insertAxes axes).dropAxes axes = s := by
  have hlength := length_filter_notMem hnodup hlt
  have hdims : ((s.insertAxes axes).dropAxes axes).dims = s.dims := by
    rw [dims_dropAxes]
    apply dropFrom_insertFrom
    rw [← List.range_eq_range']
    exact Nat.add_right_cancel hlength
  exact congrArg Shape.mk hdims

theorem insertAxes_dropAxes (hnodup : axes.Nodup) (hlt : ∀ a ∈ axes, a < s.rank)
    (hunit : ∀ a ∈ axes, s.extent a = 1) : (s.dropAxes axes).insertAxes axes = s := by
  have hdims : ((s.dropAxes axes).insertAxes axes).dims = s.dims := by
    rw [insertAxes, rank_dropAxes hnodup hlt, dims_dropAxes]
    apply insertFrom_dropFrom
    intro a ha _
    exact hunit a ha
  exact congrArg Shape.mk hdims

end Shape

/-! ### Lists of axes -/

/-- What an axis stands for depends on the opset, and on nothing else that a node says about
itself. -/
theorem Header.axis_of_opset {h h' : Header} (hopset : h.opset = h'.opset) {a : Int64}
    {rank r : Nat} (ha : h.axis a rank = .ok r) : h'.axis a rank = .ok r := by
  unfold Header.axis at ha ⊢
  rw [← hopset]
  dsimp only at ha ⊢
  split at ha
  · exact absurd ha Site.fail_ne_ok
  · rename_i hnegative
    rw [if_neg hnegative]
    generalize (if a.toInt < 0 then a.toInt + rank else a.toInt) = resolved at ha ⊢
    split at ha
    · exact absurd ha Site.fail_ne_ok
    · rename_i hrange
      rw [if_neg hrange]
      exact ha

theorem Header.distinctAxes_eq_ok {h : Header} {listed : List Int64} {rank : Nat}
    {sorted : List Nat} :
    h.distinctAxes listed rank = .ok sorted ↔
      ∃ found, List.Forall₂ (fun a r => h.axis a rank = .ok r) listed found ∧
        ascending found = sorted ∧ hasAdjacentEqual sorted = false := by
  have hcheck : ∀ l, (if hasAdjacentEqual l then h.fail (.rearrange (.repeatedAxis listed))
      else return l) = Except.ok sorted ↔ hasAdjacentEqual l = false ∧ l = sorted := by
    intro l
    cases hasAdjacentEqual l with
    | true => exact ⟨fun hfail => absurd hfail Site.fail_ne_ok, fun hl => absurd hl.1 (by simp)⟩
    | false => simp [pure_eq_ok]
  unfold distinctAxes sortedAxes
  simp only [bind_eq_ok, map_eq_ok, mapM_eq_ok, hcheck]
  constructor
  · rintro ⟨_, ⟨found, hfound, rfl⟩, hdistinct, rfl⟩
    exact ⟨found, hfound, rfl, hdistinct⟩
  · rintro ⟨found, hfound, rfl, hdistinct⟩
    exact ⟨_, ⟨found, hfound, rfl⟩, hdistinct, rfl⟩

theorem Header.distinctAxes_of_opset {h h' : Header} (hopset : h.opset = h'.opset)
    {listed : List Int64} {rank : Nat} {sorted : List Nat}
    (hsorted : h.distinctAxes listed rank = .ok sorted) :
    h'.distinctAxes listed rank = .ok sorted := by
  obtain ⟨found, hfound, hascending, hdistinct⟩ := distinctAxes_eq_ok.1 hsorted
  exact distinctAxes_eq_ok.2
    ⟨found, hfound.imp fun _ _ => axis_of_opset hopset, hascending, hdistinct⟩

/-- A node lists axes by its attribute or by a constant second input. -/
inductive ListsAxes (listed : List Int64) : Option (List Int64) → Operands → Prop where
  | stated (others : Operands) : ListsAxes listed (some listed) others
  | input (s : Shape) (c : Constant) (others : Operands) (h : c.ints = listed) :
    ListsAxes listed none (some ⟨s, some c⟩ :: others)

theorem listedAxes_of_lists {listed : List Int64} {axes : Option (List Int64)} {others : Operands}
    (hlists : ListsAxes listed axes others) (h : Header) (x : Option Operand) :
    listedAxes h axes (x :: others) = .ok (some listed) := by
  cases hlists with
  | stated => rfl
  | input s c others hc =>
    rw [← hc]
    rfl

/-- Listed axes are taken out if they are distinct unit axes. -/
theorem squeezedAxes_eq_ok {listed : List Int64} {axes : Option (List Int64)} {others : Operands}
    (hlists : ListsAxes listed axes others) {h : Header} {x : Shape} {k : Option Constant}
    {dropped : List Nat} :
    squeezedAxes h axes (some ⟨x, k⟩ :: others) = .ok dropped ↔
      h.distinctAxes listed x.rank = .ok dropped ∧ ∀ a ∈ dropped, x.extent a = 1 := by
  unfold squeezedAxes
  rw [show Operands.shape (some ⟨x, k⟩ :: others) h 0 = pure x from rfl, pure_bind,
    show listedAxes h axes (some ⟨x, k⟩ :: others) = pure (some listed) from
      listedAxes_of_lists hlists h _, pure_bind]
  dsimp only
  rw [bind_eq_ok]
  constructor
  · rintro ⟨sorted, hsorted, hok⟩
    split at hok
    · exact absurd hok Site.fail_ne_ok
    · rename_i hnone
      obtain rfl := pure_eq_ok.1 hok
      exact ⟨hsorted, by simpa using hnone⟩
  · rintro ⟨hsorted, hunit⟩
    have hnone : dropped.find? (fun a => decide (x.extent a ≠ 1)) = none := by simpa using hunit
    refine ⟨dropped, hsorted, ?_⟩
    rw [hnone]
    rfl

/-! ### The operators -/

namespace Operator

/-- The operator takes out the listed axes, and its inputs behind the first one are given. -/
def SqueezesAt (op : Operator) (listed : List Int64) (others : Operands) : Prop :=
  ∃ axes, op.action = .squeeze axes ∧ ListsAxes listed axes others

/-- The operator puts in the listed axes, and its inputs behind the first one are given. -/
def UnsqueezesAt (op : Operator) (listed : List Int64) (others : Operands) : Prop :=
  ∃ axes, op.action = .unsqueeze axes ∧ ListsAxes listed axes others

variable {op : Operator} {listed : List Int64} {others : Operands} {x y : Shape}
  {k : Option Constant}

theorem SqueezesAt.outputShape_eq_ok (hop : op.SqueezesAt listed others) :
    op.outputShape (some ⟨x, k⟩ :: others) = .ok y ↔
      ∃ sorted, op.header.distinctAxes listed x.rank = .ok sorted ∧
        (∀ a ∈ sorted, x.extent a = 1) ∧ x.dropAxes sorted = y := by
  obtain ⟨axes, haction, hlists⟩ := hop
  unfold outputShape
  rw [haction]
  dsimp only
  unfold squeezeShape
  rw [show Operands.shape (some ⟨x, k⟩ :: others) op.header 0 = pure x from rfl, pure_bind]
  simp only [bind_eq_ok, pure_eq_ok, squeezedAxes_eq_ok hlists, and_assoc]

theorem UnsqueezesAt.outputShape_eq_ok (hop : op.UnsqueezesAt listed others) :
    op.outputShape (some ⟨x, k⟩ :: others) = .ok y ↔
      ∃ sorted, op.header.distinctAxes listed (x.rank + listed.length) = .ok sorted ∧
        x.insertAxes sorted = y := by
  obtain ⟨axes, haction, hlists⟩ := hop
  unfold outputShape
  rw [haction]
  dsimp only
  unfold unsqueezeShape
  rw [show Operands.shape (some ⟨x, k⟩ :: others) op.header 0 = pure x from rfl, pure_bind,
    show listedAxes op.header axes (some ⟨x, k⟩ :: others) = pure (some listed) from
      listedAxes_of_lists hlists op.header _, pure_bind]
  simp only [bind_eq_ok, pure_eq_ok]

theorem SqueezesAt.fold_eq (hop : op.SqueezesAt listed others) (ops : Operands) :
    op.fold ops = foldReshaped op.header ops (op.outputShape ops) := by
  obtain ⟨axes, haction, -⟩ := hop
  unfold fold foldBy
  rw [haction]

theorem UnsqueezesAt.fold_eq (hop : op.UnsqueezesAt listed others) (ops : Operands) :
    op.fold ops = foldReshaped op.header ops (op.outputShape ops) := by
  obtain ⟨axes, haction, -⟩ := hop
  unfold fold foldBy
  rw [haction]

/-- An operator that keeps the elements keeps them in axis order. -/
theorem exists_fold_of_reshaped {c : Constant}
    (hfold : ∀ ops, op.fold ops = foldReshaped op.header ops (op.outputShape ops))
    (hshape : op.outputShape (some ⟨x, some c⟩ :: others) = .ok y)
    (hcount : y.count = c.shape.count) :
    ∃ c', op.foldOutputs (some ⟨x, some c⟩ :: others) = .ok [c'] ∧ c'.shape = y ∧
      c'.source = c.source := by
  obtain ⟨c', hc', hshape', hsource⟩ := Constant.exists_ofBuffer (c.size_source.trans hcount.symm)
  have hreshaped : op.fold (some ⟨x, some c⟩ :: others) = .ok c' := by
    rw [hfold, hshape, foldReshaped]
    exact (Constant.reshaped_eq hcount).trans hc'
  refine ⟨c', ?_, hshape', hsource⟩
  rw [foldOutputs, hreshaped]
  rfl

/-- A second operator undoes what a first one makes of a shape: it gives the shape back, and for
constants of the shape their values in axis order as well. -/
structure Undone (first second : Operator) (others others' : Operands) (x y : Shape) : Prop where
  shape : ∀ k, second.outputShapes (some ⟨y, k⟩ :: others') = .ok [x]
  value : ∀ c : Constant, c.shape = x → ∃ c' c'' : Constant,
    first.foldOutputs (some ⟨x, some c⟩ :: others) = .ok [c'] ∧ c'.shape = y ∧
    second.foldOutputs (some ⟨y, some c'⟩ :: others') = .ok [c''] ∧ c''.shape = x ∧
    c''.source = c.source

/-- For operators that keep the elements it is enough to look at the shapes. -/
theorem undone_of_shapes {first second : Operator} {others' : Operands}
    (hfirst : ∀ ops, first.fold ops = foldReshaped first.header ops (first.outputShape ops))
    (hsecond : ∀ ops, second.fold ops = foldReshaped second.header ops (second.outputShape ops))
    (hcount : y.count = x.count)
    (hthere : ∀ k, first.outputShape (some ⟨x, k⟩ :: others) = .ok y)
    (hback : ∀ k, second.outputShape (some ⟨y, k⟩ :: others') = .ok x) :
    first.Undone second others others' x y := by
  refine ⟨fun k => outputShapes_eq_ok.2 (hback k), fun c hc => ?_⟩
  obtain ⟨c', hfold, hshape, hsource⟩ :=
    exists_fold_of_reshaped hfirst (hthere (some c)) (hc.symm ▸ hcount)
  obtain ⟨c'', hfold', hshape', hsource'⟩ :=
    exists_fold_of_reshaped hsecond (hback (some c')) (hshape.symm ▸ hcount.symm)
  exact ⟨c', c'', hfold, hshape, hfold', hshape', hsource'.trans hsource⟩

variable {sq un : Operator} {others' : Operands}

/-- **Taking axes out undoes putting them in.** -/
theorem UnsqueezesAt.undone (hun : un.UnsqueezesAt listed others')
    (hsq : sq.SqueezesAt listed others) (hopset : un.header.opset = sq.header.opset)
    (hy : un.outputShape (some ⟨x, k⟩ :: others') = .ok y) :
    un.Undone sq others' others x y := by
  obtain ⟨sorted, hsorted, rfl⟩ := hun.outputShape_eq_ok.1 hy
  obtain ⟨hnodup, hlt, hlength⟩ := (un.header.distinctAxes_yields listed _).value hsorted
  rw [← hlength] at hlt
  have hrank : (x.insertAxes sorted).rank = x.rank + listed.length := by
    rw [Shape.rank_insertAxes, hlength]
  refine undone_of_shapes hun.fold_eq hsq.fold_eq
    (dropsUnits_insertAxes hnodup hlt).positions_eq.symm
    (fun _ => hun.outputShape_eq_ok.2 ⟨sorted, hsorted, rfl⟩)
    fun _ => hsq.outputShape_eq_ok.2 ⟨sorted, ?_, fun a ha => ?_, ?_⟩
  · rw [hrank]
    exact Header.distinctAxes_of_opset hopset hsorted
  · rw [Shape.extent, List.getD_eq_getElem?_getD, Shape.getElem?_insertAxes ha (hlt a ha)]
    rfl
  · exact Shape.dropAxes_insertAxes hnodup hlt

/-- **Putting axes in undoes taking them out.** -/
theorem SqueezesAt.undone (hsq : sq.SqueezesAt listed others)
    (hun : un.UnsqueezesAt listed others') (hopset : un.header.opset = sq.header.opset)
    (hy : sq.outputShape (some ⟨x, k⟩ :: others) = .ok y) :
    sq.Undone un others others' x y := by
  obtain ⟨sorted, hsorted, hunit, rfl⟩ := hsq.outputShape_eq_ok.1 hy
  obtain ⟨hnodup, hlt, hlength⟩ := (sq.header.distinctAxes_yields listed _).value hsorted
  have hrank : (x.dropAxes sorted).rank + listed.length = x.rank := by
    rw [← hlength, Shape.rank_dropAxes hnodup hlt]
  refine undone_of_shapes hsq.fold_eq hun.fold_eq (dropsUnits_dropAxes hunit).positions_eq
    (fun _ => hsq.outputShape_eq_ok.2 ⟨sorted, hsorted, hunit, rfl⟩)
    fun _ => hun.outputShape_eq_ok.2 ⟨sorted, ?_, ?_⟩
  · rw [hrank]
    exact Header.distinctAxes_of_opset hopset.symm hsorted
  · exact Shape.insertAxes_dropAxes hnodup hlt hunit

/-- Every listed axis stands for a unit axis of the result. -/
theorem UnsqueezesAt.unit_axes (hun : un.UnsqueezesAt listed others')
    (hy : un.outputShape (some ⟨x, k⟩ :: others') = .ok y) :
    y.rank = x.rank + listed.length ∧
      ∀ a ∈ listed, ∃ r, un.header.axis a y.rank = .ok r ∧ y.dims[r]? = some 1 := by
  obtain ⟨sorted, hsorted, rfl⟩ := hun.outputShape_eq_ok.1 hy
  obtain ⟨-, hlt, hlength⟩ := (un.header.distinctAxes_yields listed _).value hsorted
  have hrank : (x.insertAxes sorted).rank = x.rank + listed.length := by
    rw [Shape.rank_insertAxes, hlength]
  refine ⟨hrank, fun a ha => ?_⟩
  obtain ⟨found, hfound, rfl, -⟩ := Header.distinctAxes_eq_ok.1 hsorted
  obtain ⟨r, hr, haxis⟩ := forall₂_mem_left hfound ha
  have hmem : r ∈ ascending found := (List.mergeSort_perm found _).mem_iff.2 hr
  rw [← hlength] at hlt
  exact ⟨r, hrank ▸ haxis, Shape.getElem?_insertAxes hmem (hlt r hmem)⟩

/-- **Taking axes out and putting them in are inverse** for one list of axes and one opset, in
either order, for all shapes for which the first of the two is possible. -/
theorem squeeze_unsqueeze (hsq : sq.SqueezesAt listed others)
    (hun : un.UnsqueezesAt listed others') (hopset : un.header.opset = sq.header.opset)
    (x : Shape) :
    (∀ k y, un.outputShapes (some ⟨x, k⟩ :: others') = .ok [y] →
      y.rank = x.rank + listed.length ∧
      (∀ a ∈ listed, ∃ r, un.header.axis a y.rank = .ok r ∧ y.dims[r]? = some 1) ∧
      un.Undone sq others' others x y) ∧
    ∀ k z, sq.outputShapes (some ⟨x, k⟩ :: others) = .ok [z] → sq.Undone un others others' x z := by
  refine ⟨fun k y hy => ?_, fun k z hz => ?_⟩
  · obtain ⟨hrank, hunit⟩ := hun.unit_axes (outputShapes_eq_ok.1 hy)
    exact ⟨hrank, hunit, hun.undone hsq hopset (outputShapes_eq_ok.1 hy)⟩
  · exact hsq.undone hun hopset (outputShapes_eq_ok.1 hz)

/-- Takes out the first and the last axis, which its second input lists. -/
def takeOutEnds : Operator := ⟨⟨"Squeeze", "out", 13⟩, .squeeze none⟩

/-- Puts in a first and a last axis, which its attribute lists. -/
def putInEnds : Operator := ⟨⟨"Unsqueeze", "in", 13⟩, .unsqueeze (some [-1, 0])⟩

/-- The ends are counted from both sides, and they are the same axes for either operator. -/
theorem squeeze_unsqueeze_ends :
    takeOutEnds.SqueezesAt [-1, 0] [some ⟨⟨[2]⟩, some (.ofInts #[-1, 0])⟩] ∧
    putInEnds.UnsqueezesAt [-1, 0] [] ∧
    putInEnds.outputShapes [some ⟨⟨[3, 1]⟩, none⟩] = .ok [⟨[1, 3, 1, 1]⟩] ∧
    putInEnds.Undone takeOutEnds [] [some ⟨⟨[2]⟩, some (.ofInts #[-1, 0])⟩]
      ⟨[3, 1]⟩ ⟨[1, 3, 1, 1]⟩ ∧
    takeOutEnds.Undone putInEnds [some ⟨⟨[2]⟩, some (.ofInts #[-1, 0])⟩] []
      ⟨[1, 3, 1, 1]⟩ ⟨[3, 1]⟩ := by
  have hsq : takeOutEnds.SqueezesAt [-1, 0] [some ⟨⟨[2]⟩, some (.ofInts #[-1, 0])⟩] :=
    ⟨none, rfl, .input _ _ _ rfl⟩
  have hun : putInEnds.UnsqueezesAt [-1, 0] [] := ⟨_, rfl, .stated _⟩
  have hout : putInEnds.outputShapes [some ⟨⟨[3, 1]⟩, none⟩] = .ok [⟨[1, 3, 1, 1]⟩] := by cbv
  obtain ⟨-, -, hundone⟩ := (squeeze_unsqueeze hsq hun rfl ⟨[3, 1]⟩).1 none _ hout
  have hback := (squeeze_unsqueeze hsq hun rfl ⟨[1, 3, 1, 1]⟩).2 none _ (hundone.shape none)
  exact ⟨hsq, hun, hout, hundone, hback⟩

end Operator

end Lamina
