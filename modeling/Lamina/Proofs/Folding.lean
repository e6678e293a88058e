import Mathlib
import Lamina.Operator.Fold
import Lamina.Proofs.Blocks
import Lamina.Proofs.Inference

/-!
# Constant folding: values have the inferred shape

**Theorem** (`Operator.fold_yields`): where a shape was inferred, folding gives a value of that
shape or fails with a fault of the operator or of the arithmetic. No fault comes from putting a
constant together: each rule below counts the elements it produces and finds as many as the shape
has positions.

The counting is done in blocks. A buffer in row-major order consists of one block for each position
before an axis (`positions_split`), and joining and gathering move such blocks as a whole
(`size_interleave`, `size_pickRows`).
-/

namespace Lamina

/-! ### Operands with known values -/

/-- The value of an operand has the shape that is known of it. -/
def Operand.Consistent (op : Operand) : Prop := ∀ c, op.constant = some c → c.shape = op.shape

/-- The values of all operands have their shapes. -/
def Operands.Consistent (ops : Operands) : Prop :=
  ∀ i op, ops.bound? i = some op → op.Consistent

theorem Operands.mem_of_bound? {ops : Operands} {i : Nat} {op : Operand}
    (h : ops.bound? i = some op) : some op ∈ ops := by
  unfold Operands.bound? at h
  exact List.mem_of_getElem? (Option.join_eq_some_iff.1 h)

theorem Operands.mem_shapes {ops : Operands} {i : Nat} {op : Operand}
    (h : ops.bound? i = some op) : op.shape ∈ ops.shapes := by
  refine List.mem_map.2 ⟨op, List.mem_filterMap.2 ⟨some op, mem_of_bound? h, rfl⟩, rfl⟩

variable {ops : Operands} {h : Header}

/-- A value that is asked for has the shape of its operand. -/
theorem Operands.Consistent.constant (hops : ops.Consistent) (i : Nat) :
    Yields (Fault.Own h.site) (ops.constant h i) fun c =>
      ∃ op, ops.bound? i = some op ∧ c.shape = op.shape :=
  (ops.constant_yields h i).imp fun c ⟨op, hop, hc⟩ => ⟨op, hop, hops i op hop c hc⟩

/-- The value of an operand whose shape is known already. -/
theorem Operands.Consistent.constant_of_bound (hops : ops.Consistent) {i : Nat} {op : Operand}
    (hop : ops.bound? i = some op) :
    Yields (Fault.Own h.site) (ops.constant h i) fun c => c.shape = op.shape :=
  (hops.constant i).imp fun c ⟨op', hop', hc⟩ => by
    obtain rfl := Option.some.inj (hop.symm.trans hop')
    exact hc

theorem Operands.Consistent.constant? (hops : ops.Consistent) (i : Nat) :
    Yields (Fault.Own h.site) (ops.constant? h i) fun c =>
      ∀ v, c = some v → ∃ op, ops.bound? i = some op ∧ v.shape = op.shape :=
  (ops.constant?_yields h i).imp fun c hc v hv => by
    obtain ⟨op, hop, hval⟩ := hc v hv
    exact ⟨op, hop, hops i op hop v hval⟩

theorem Operands.bound?_of_shape {i : Nat} {s : Shape} (hs : ops.shape h i = .ok s) :
    ∃ op, ops.bound? i = some op ∧ op.shape = s :=
  (ops.shape_yields h i).value hs

/-! ### Elementwise operators -/

theorem clipBound_yields (h : Header) (c : Option Constant) (default : Binary32) :
    Yields (Fault.Own h.site) (clipBound h c default) fun _ => True := by
  unfold clipBound
  split
  · exact .ok trivial
  · split
    · exact .ok trivial
    · exact .own rfl

theorem resolveFunction_yields (h : Header) (function : Activation) (boundsAreInputs : Bool)
    (low high : Option Constant) :
    Yields (Fault.Own h.site) (resolveFunction h function boundsAreInputs low high)
      fun _ => True := by
  unfold resolveFunction
  split
  · refine (clipBound_yields h low _).bind fun _ _ => ?_
    exact (clipBound_yields h high _).bind fun _ _ => .pure trivial
  · exact .pure trivial

/-- Activations keep the shape. -/
theorem foldActivation_yields (hops : ops.Consistent) (function : Activation)
    (boundsAreInputs : Bool) {x : Operand} (hx : ops.bound? 0 = some x) :
    Yields (Fault.Own h.site) (foldActivation h function boundsAreInputs ops)
      fun c => c.shape = x.shape := by
  unfold foldActivation
  refine (ops.constant?_yields h 1).bind fun low _ => ?_
  refine (ops.constant?_yields h 2).bind fun high _ => ?_
  refine (resolveFunction_yields h function boundsAreInputs low high).bind fun resolved _ => ?_
  refine (hops.constant_of_bound hx).bind fun c hc => ?_
  refine (Kernel.unary_yields _ c.data).bind fun data hdata => ?_
  exact (Constant.ofParts_yields c.layout_fits (hdata.trans c.size_eq)).imp
    fun c' hc' => hc'.1.trans hc

/-- An aligned operand can be repeated up to the shape it is aligned in. -/
theorem expandOperand_yields (h : Header) {mode : Alignment} {out : Shape} {c : Constant}
    (hc : Broadcast.Aligned mode c.shape out) :
    Yields (Fault.Own h.site) (expandOperand h mode out c) fun c' => c'.shape = out := by
  unfold expandOperand
  refine (Yields.of_faults fun f hf => (Broadcast.offset_yields h.site mode _ _).fault hf).bind
    fun k hk => ?_
  exact Broadcast.constant_yields (hc.2 h.site k hk)

/-- One more operand, brought to the common shape first. -/
theorem combineOperand_yields (h : Header) (op : BinaryOp) {mode : Alignment} {out : Shape}
    {acc : Option Constant} {c : Constant} (hc : Broadcast.Aligned mode c.shape out)
    (hacc : ∀ left, acc = some left → left.shape = out) :
    Yields (Fault.Own h.site) (combineOperand h op mode out acc c) fun acc' =>
      ∀ left, acc' = some left → left.shape = out := by
  unfold combineOperand
  refine (expandOperand_yields h hc).bind fun expanded hexpanded => ?_
  split
  · exact .pure fun left hleft => Option.some.inj hleft ▸ hexpanded
  · rename_i left
    split
    · exact .own rfl
    · refine (Kernel.binary_yields op left.data expanded.data).bind fun data hdata => ?_
      have hsize : data.size = out.count := by
        rw [hdata.2, left.size_eq, hacc left rfl]
      refine (Constant.ofBuffer_yields hsize).bind fun c' hc' => .pure fun left' hleft' => ?_
      exact Option.some.inj hleft' ▸ hc'.1

/-- Operands are combined from the left. -/
theorem foldEltwise_yields (hops : ops.Consistent) (op : Pointwise) (mode : Alignment) {s : Shape}
    (hs : commonShape h mode ops.shapes = .ok s) :
    Yields (Fault.Own h.site) (foldEltwise h op mode ops) fun c => c.shape = s := by
  have haligned := (commonShape_yields h mode ops.shapes).value hs
  unfold foldEltwise
  rw [hs]
  have hrun : Yields (Fault.Own h.site) ((List.range ops.length).foldlM (fun acc i => do
      combineOperand h op.binary mode s acc (← ops.constant h i)) none) fun acc =>
        ∀ left, acc = some left → left.shape = s := by
    refine Yields.foldlM (fun acc i _ hacc => ?_) fun left hleft => nomatch hleft
    refine (hops.constant i).bind ?_
    rintro c ⟨x, hx, hc⟩
    refine combineOperand_yields h op.binary ?_ hacc
    rw [hc]
    exact haligned x.shape (Operands.mem_shapes hx)
  refine hrun.bind fun acc hacc => ?_
  split
  · exact .pure (hacc _ rfl)
  · exact .own rfl

theorem foldSoftmax_yields (hops : ops.Consistent) (axis : Int64) {x : Operand}
    (hx : ops.bound? 0 = some x) :
    Yields (Fault.Own h.site) (foldSoftmax h axis ops) fun c => c.shape = x.shape := by
  unfold foldSoftmax
  refine (hops.constant_of_bound hx).bind fun c hc => ?_
  refine (softmaxAxis_yields h axis _).bind fun a _ => ?_
  refine Yields.product_own.bind fun inner _ => ?_
  refine (Kernel.softmax_yields c.floats inner).bind fun data hdata => ?_
  have hsize : (Buffer.floats data).size = c.shape.count := by
    rw [← Constant.size_floats c, ← hdata]
    rfl
  exact (Constant.ofBuffer_yields hsize).imp fun c' hc' => hc'.1.trans hc

/-- Reduced axes may be kept with one position or be left out. -/
theorem count_meanShape (x : Shape) (reduced : List Nat) (keepDims : Bool) :
    (meanShape x reduced keepDims).count = positions (Kernel.reducedDims x.dims reduced) := by
  unfold meanShape
  split
  · rfl
  · have hreduced : Kernel.reducedDims x.dims reduced =
        (List.range x.rank).map fun a => if a ∈ reduced then 1 else x.extent a := by
      refine List.ext_getElem (by simp [Kernel.reducedDims, Shape.rank]) fun i hi hi' => ?_
      have hi : i < x.dims.length := by simpa [Kernel.reducedDims] using hi
      simp [Kernel.reducedDims, Shape.extent, List.getD_eq_getElem?_getD,
        List.getElem?_eq_getElem hi]
    have hkept : (Shape.otherAxes x.rank reduced).map x.extent =
        (Shape.otherAxes x.rank reduced).map fun a => if a ∈ reduced then 1 else x.extent a := by
      refine List.map_congr_left fun a ha => ?_
      have : a ∉ reduced := by simpa using (List.mem_filter.1 ha).2
      rw [if_neg this]
    rw [Shape.count, Shape.dropAxes, hkept, hreduced]
    refine positions_map_filter fun a _ ha => if_pos ?_
    simpa using ha

theorem foldReduceMean_yields (hops : ops.Consistent) (axes : Option (List Int64)) (keepDims : Bool)
    {x : Operand} (hx : ops.bound? 0 = some x) {reduced : List Nat}
    (hreduced : reducedAxes h axes x.shape.rank = .ok reduced) :
    Yields (Fault.Own h.site) (foldReduceMean h axes keepDims ops)
      fun c => c.shape = meanShape x.shape reduced keepDims := by
  unfold foldReduceMean
  refine (hops.constant_of_bound hx).bind fun c hc => ?_
  rw [hc, hreduced]
  refine (Kernel.reduceMean_yields c.floats x.shape.dims reduced).bind fun data hdata => ?_
  have hsize : (Buffer.floats data).size = (meanShape x.shape reduced keepDims).count :=
    hdata.trans (count_meanShape ..).symm
  exact (Constant.ofBuffer_yields hsize).imp fun c' hc' => hc'.1

/-! ### Matrices -/

variable {p : MatrixProduct}

theorem foldGemm_yields (hops : ops.Consistent) (params : Gemm) {s : Shape}
    (hs : gemmShape h params ops = .ok s) :
    Yields (Fault.Own h.site) (foldGemm p h params ops) fun c => c.shape = s := by
  obtain ⟨a, b, d, ha, hb, hd, rfl, hfree⟩ := (gemmShape_yields h params ops).value hs
  unfold foldGemm
  refine (hops.constant_of_bound ha).bind fun ca hca => ?_
  refine (hops.constant_of_bound hb).bind fun cb hcb => ?_
  rw [hca, hcb, hd]
  refine (Kernel.matmul_yields p _ _ 1 d.m d.k d.n).bind fun product hproduct => ?_
  refine (Buffer.scaled_yields (.floats product) params.alpha).bind fun scaled hscaled => ?_
  have hsize : scaled.size = Shape.count ⟨[d.m, d.n]⟩ := by
    rw [hscaled, Buffer.size, hproduct]
    simp [Shape.count]
  refine (hops.constant? 2).bind fun c hc => ?_
  split
  · exact (Constant.ofBuffer_yields hsize).imp fun c' hc' => hc'.1
  · rename_i c
    obtain ⟨op, hop, hshape⟩ := hc c rfl
    have haligned := hfree op hop
    rw [← hshape] at haligned
    refine Yields.difference_own.bind ?_
    rintro _ ⟨-, rfl⟩
    have hembeds := haligned.2 h.site _ (Broadcast.offset_trailing haligned.1)
    refine (Broadcast.constant_yields hembeds).bind fun expanded _ => ?_
    refine (Buffer.scaled_yields _ params.beta).bind fun bias _ => ?_
    refine (Kernel.binary_yields .add scaled bias).bind fun data hdata => ?_
    exact (Constant.ofBuffer_yields (hdata.2.trans hsize)).imp fun c' hc' => hc'.1

/-- A stack of products, row by row. -/
theorem foldMatMul_yields (hops : ops.Consistent) {a b : Operand} {d : StackDims}
    (ha : ops.bound? 0 = some a) (hb : ops.bound? 1 = some b)
    (hd : StackDims.ofShapes h a.shape b.shape = .ok d) :
    Yields (Fault.Own h.site) (foldMatMul p h ops) fun c => c.shape = d.output := by
  unfold foldMatMul
  refine (hops.constant_of_bound ha).bind fun ca hca => ?_
  refine (hops.constant_of_bound hb).bind fun cb hcb => ?_
  rw [hca, hcb, hd]
  refine (Kernel.matmul_yields p _ _ _ _ _ _).bind fun product hproduct => ?_
  have hsize : (Buffer.floats product).size = d.output.count :=
    hproduct.trans ((StackDims.ofShapes_yields h a.shape b.shape).value hd).1.symm
  exact (Constant.ofBuffer_yields hsize).imp fun c' hc' => hc'.1

/-! ### Rearranging operators -/

/-- The same elements under another shape. -/
theorem foldReshaped_yields (hops : ops.Consistent) {s : Shape} {x : Operand}
    (hx : ops.bound? 0 = some x) (hcount : s.count = x.shape.count) :
    Yields (Fault.Own h.site) (foldReshaped h ops (.ok s)) fun c => c.shape = s := by
  unfold foldReshaped
  refine (hops.constant_of_bound hx).bind fun c hc => ?_
  exact Constant.reshaped_yields (hcount.trans (congrArg Shape.count hc).symm)

/-- Shapes that agree except along an axis have the same extents before and behind it. -/
theorem agreeExcept_spec {axis : Nat} {a b : Shape} (h : agreeExcept axis a b = true) :
    b.dims.take axis = a.dims.take axis ∧ b.dims.drop (axis + 1) = a.dims.drop (axis + 1) := by
  simp only [agreeExcept, Bool.and_eq_true, beq_iff_eq, List.all_eq_true, List.mem_range,
    Bool.or_eq_true] at h
  obtain ⟨hrank, hall⟩ := h
  have hget : ∀ i, i ≠ axis → b.dims[i]? = a.dims[i]? := by
    intro i hi
    by_cases hlt : i < a.rank
    · have hlt' : i < b.dims.length := hlt.trans_eq hrank
      have := (hall i hlt).resolve_left hi
      simp only [Shape.extent, List.getD_eq_getElem?_getD] at this
      rw [List.getElem?_eq_getElem hlt', List.getElem?_eq_getElem hlt] at this ⊢
      exact congrArg some this.symm
    · have hlt' : b.dims.length ≤ i := by
        unfold Shape.rank at hrank hlt
        omega
      rw [List.getElem?_eq_none hlt', List.getElem?_eq_none (Nat.not_lt.1 hlt)]
  refine ⟨List.ext_getElem? fun i => ?_, List.ext_getElem? fun i => ?_⟩
  · rw [List.getElem?_take, List.getElem?_take]
    split
    · exact hget i (by omega)
    · rfl
  · rw [List.getElem?_drop, List.getElem?_drop]
    exact hget _ (by omega)

/-- The values of all inputs, with the shapes that are known of them. -/
theorem Operands.Consistent.constants (hops : ops.Consistent) :
    Yields (Fault.Own h.site) ((List.range ops.length).mapM fun i => ops.constant h i)
      fun tensors => tensors.map Constant.shape = ops.shapes := by
  refine (Yields.mapM fun i _ => hops.constant i).imp fun tensors htensors => ?_
  have hlength : ops.length = tensors.length := by simpa using htensors.length_eq
  -- every input is bound, so that no shape is left out
  have hall : List.Forall₂ (fun o c => ∃ op, o = some op ∧ Constant.shape c = op.shape)
      ops tensors := by
    refine List.forall₂_iff_get.2 ⟨hlength, fun i hi hi' => ?_⟩
    have hrange : i < (List.range ops.length).length := by simpa using hi
    obtain ⟨op, hop, hshape⟩ := htensors.get hrange hi'
    refine ⟨op, ?_, hshape⟩
    have hop : ops[i]? = some (some op) := by
      simpa [Operands.bound?] using Option.join_eq_some_iff.1 hop
    simpa [List.getElem?_eq_getElem hi] using hop
  clear htensors hlength
  unfold Operands.shapes
  induction hall with
  | nil => rfl
  | cons hhead _ ih =>
    obtain ⟨op, rfl, hshape⟩ := hhead
    have ih := ih fun i op hi => hops (i + 1) op hi
    rw [List.map_cons, hshape, ih]
    rfl

theorem foldl_add_eq_sum (shapes : List Shape) (axis start : Nat) :
    shapes.foldl (fun n s => n + s.extent axis) start =
      start + (shapes.map fun s => s.extent axis).sum := by
  induction shapes generalizing start with
  | nil => rfl
  | cons s shapes ih => rw [List.foldl_cons, ih, List.map_cons, List.sum_cons, Nat.add_assoc]

/-- The elements of a concatenation are those of its parts. -/
theorem count_joined {axis : Int64} {shapes : List Shape} {a : Nat} {out : Shape}
    (hjoined : joinedShape h axis shapes = .ok (a, out)) :
    (∀ s ∈ shapes, s.count = positions (out.dims.take a) * positions (s.dims.drop a)) ∧
      out.count = positions (out.dims.take a) *
        (shapes.map fun s => positions (s.dims.drop a)).sum := by
  obtain ⟨first, rest, rfl, ha, hagree, hout⟩ := (joinedShape_yields h axis shapes).value hjoined
  dsimp only at ha hagree hout
  have hlt : a < first.dims.length := ha
  have htake : out.dims.take a = first.dims.take a := by
    rw [hout, Shape.setExtent, List.take_set_of_le (Nat.le_refl a)]
  -- parts agree with the first one before and behind the axis
  have hparts : ∀ s ∈ first :: rest, s.dims.take a = first.dims.take a ∧
      s.dims.drop (a + 1) = first.dims.drop (a + 1) ∧ a < s.dims.length := by
    intro s hs
    have hrank := rank_of_joinedShape hjoined hs
    have hrank' := rank_of_joinedShape hjoined (List.mem_cons_self (a := first))
    have hlen : a < s.dims.length := by
      unfold Shape.rank at hrank hrank'
      omega
    rcases List.mem_cons.1 hs with rfl | hs
    · exact ⟨rfl, rfl, hlen⟩
    · obtain ⟨hfront, hback⟩ := agreeExcept_spec (hagree s hs)
      exact ⟨hfront, hback, hlen⟩
  have hblock : ∀ s ∈ first :: rest, positions (s.dims.drop a) =
      s.extent a * positions (first.dims.drop (a + 1)) := by
    intro s hs
    obtain ⟨-, hback, hlen⟩ := hparts s hs
    rw [List.drop_eq_getElem_cons hlen, positions_cons, hback, Shape.extent,
      List.getD_eq_getElem?_getD, List.getElem?_eq_getElem hlen, Option.getD_some]
  refine ⟨fun s hs => ?_, ?_⟩
  · rw [htake, ← (hparts s hs).1, ← positions_append, List.take_append_drop]
    rfl
  · have hrank : a < out.dims.length := by
      have := rank_of_joinedShape hjoined (List.mem_cons_self (a := first))
      unfold Shape.rank at this
      omega
    rw [Shape.count, positions_split hrank, List.map_congr_left hblock, List.sum_map_mul_right]
    congr 2
    · rw [hout, Shape.setExtent, List.getD_eq_getElem?_getD, List.getElem?_set_self hlt,
        Option.getD_some, foldl_add_eq_sum]
      simp
    · rw [hout, Shape.setExtent, List.drop_set_of_lt (Nat.lt_succ_self a)]

section Joined

variable {α : Type} {axis : Int64} {a : Nat} {out : Shape} {tensors : List Constant}
  {values : Constant → Array α}

/-- Every part consists of as many blocks as the concatenation. -/
theorem size_part (hvalues : ∀ c, (values c).size = c.shape.count)
    (hjoined : joinedShape h axis (tensors.map Constant.shape) = .ok (a, out)) :
    ∀ p ∈ tensors.map fun c => (values c, positions (c.shape.dims.drop a)),
      p.1.size = positions (out.dims.take a) * p.2 := by
  intro p hp
  obtain ⟨c, hc, rfl⟩ := List.mem_map.1 hp
  rw [hvalues]
  exact (count_joined hjoined).1 c.shape (List.mem_map_of_mem hc)

theorem size_joined (hvalues : ∀ c, (values c).size = c.shape.count)
    (hjoined : joinedShape h axis (tensors.map Constant.shape) = .ok (a, out)) :
    (interleave (tensors.map fun c => (values c, positions (c.shape.dims.drop a)))
      (positions (out.dims.take a))).size = out.count := by
  rw [size_interleave (size_part hvalues hjoined), (count_joined hjoined).2, List.map_map,
    List.map_map]
  rfl

end Joined

/-- Blocks of the parts alternate. -/
theorem foldConcat_yields (hops : ops.Consistent) {axis : Int64} {a : Nat} {out : Shape}
    (hjoined : joinedShape h axis ops.shapes = .ok (a, out)) :
    Yields (Fault.Own h.site) (foldConcat h axis ops) fun c => c.shape = out := by
  unfold foldConcat
  rw [hjoined]
  refine hops.constants.bind fun tensors htensors => ?_
  rw [← htensors] at hjoined
  refine (Constant.ofBuffer_yields ?_).imp fun c hc => hc.1
  dsimp only
  split
  · exact size_joined Constant.size_floats hjoined
  · exact size_joined (fun c => (Buffer.size_toInts _).trans c.size_source) hjoined

theorem countedIndex_yields (h : Header) (extent : Nat) (index : Int64) :
    Yields (Fault.Own h.site) (countedIndex h extent index) fun _ => True := by
  unfold countedIndex
  split
  · dsimp only
    split
    · exact .ok trivial
    · exact .own rfl
  · exact .ok trivial

theorem wrapIndex_yields (h : Header) (extent : Nat) (index : Int64) :
    Yields (Fault.Own h.site) (wrapIndex h extent index) fun i => i < extent := by
  unfold wrapIndex
  split
  · exact .own rfl
  · refine (countedIndex_yields h extent index).bind fun resolved _ => ?_
    split
    · exact .own rfl
    · refine .pure ?_
      omega

/-- Blocks are picked by their index. -/
theorem foldGather_yields (hops : ops.Consistent) (axis : Int64) {data indices : Operand} {a : Nat}
    {out : Shape} (hdata : ops.bound? 0 = some data) (hindices : ops.bound? 1 = some indices)
    (hgather : gatherShape h axis data.shape indices.shape = .ok (a, out)) :
    Yields (Fault.Own h.site) (foldGather h axis ops) fun c => c.shape = out := by
  obtain ⟨ha, hout⟩ := (gatherShape_yields h axis data.shape indices.shape).value hgather
  dsimp only at ha hout
  unfold foldGather
  refine (hops.constant_of_bound hdata).bind fun cd hcd => ?_
  refine (hops.constant_of_bound hindices).bind fun ci hci => ?_
  rw [hcd, hci, hgather]
  refine (Yields.mapM fun i _ => wrapIndex_yields h _ i).bind fun picked hpicked => ?_
  have hlength : picked.length = indices.shape.count := by
    rw [← hpicked.length_eq, Constant.length_ints, hci]
  have hrows : ∀ r ∈ picked, r < data.shape.extent a := by
    intro r hr
    obtain ⟨_, -, hlt⟩ := forall₂_mem_left hpicked.flip hr
    exact hlt
  refine (Constant.ofBuffer_yields (Buffer.size_rearrange fun v hv => ?_)).imp fun c hc => hc.1
  rw [size_pickRows _ hrows, hlength, hout]
  · simp only [Shape.count, positions_append, Nat.mul_assoc]
  · rw [hv, Constant.size_source, hcd]
    exact positions_split ha

theorem foldFilled_yields {value : Constant} (hvalue : value.shape.count = 1) {s : Shape}
    (hs : filledShape h ops = .ok s) :
    Yields (Fault.Own h.site) (foldFilled h value ops) fun c => c.shape = s := by
  unfold foldFilled
  rw [hs]
  refine Yields.product_own.bind ?_
  rintro _ ⟨rfl, -⟩
  refine (Constant.ofBuffer_yields (Buffer.size_rearrange fun v hv => ?_)).imp fun c hc => hc.1
  have hone : v.toList.length = 1 := by
    rw [Array.length_toList, hv, value.size_eq, hvalue]
  obtain ⟨x, hx⟩ := List.length_eq_one_iff.1 hone
  simp [hx, Shape.count]

/-! ### Slices -/

theorem AxisRange.apply_cons (s : AxisRange) (slices : List AxisRange) (shape : Shape) :
    apply (s :: slices) shape = apply slices (shape.setExtent s.axis s.length) := rfl

theorem AxisRange.rank_apply (slices : List AxisRange) (shape : Shape) :
    (apply slices shape).rank = shape.rank := by
  induction slices generalizing shape with
  | nil => rfl
  | cons s slices ih => rw [apply_cons, ih, rank_setExtent]

/-- An axis that no range is along keeps its extent. -/
theorem AxisRange.getElem?_apply {slices : List AxisRange} {axis : Nat} {shape : Shape}
    (h : axis ∉ slices.map AxisRange.axis) :
    (apply slices shape).dims[axis]? = shape.dims[axis]? := by
  induction slices generalizing shape with
  | nil => rfl
  | cons s slices ih =>
    rw [List.map_cons, List.mem_cons, not_or] at h
    rw [apply_cons, ih h.2, Shape.setExtent, List.getElem?_set_ne (Ne.symm h.1)]

/-- The other axes keep their extents. -/
theorem Shape.extent_setExtent_ne (shape : Shape) {axis axis' : Nat} (h : axis ≠ axis')
    (length : Nat) : (shape.setExtent axis length).extent axis' = shape.extent axis' := by
  simp only [extent, setExtent, List.getD_eq_getElem?_getD, List.getElem?_set_ne h]

theorem AxisRange.Within.head_notMem {s : AxisRange} {slices : List AxisRange} {shape : Shape}
    (h : Within shape (s :: slices)) : s.axis ∉ slices.map AxisRange.axis := by
  have hnodup := h.1
  rw [List.map_cons, List.nodup_cons] at hnodup
  exact hnodup.1

theorem AxisRange.Within.head_ne {s : AxisRange} {slices : List AxisRange} {shape : Shape}
    (h : Within shape (s :: slices)) {t : AxisRange} (ht : t ∈ slices) : s.axis ≠ t.axis :=
  fun heq => h.head_notMem (heq ▸ List.mem_map_of_mem ht)

/-- The ranges behind one that was applied are along other axes, whose extents are as before. -/
theorem AxisRange.Within.tail {s : AxisRange} {slices : List AxisRange} {shape : Shape}
    (h : Within shape (s :: slices)) : Within (shape.setExtent s.axis s.length) slices := by
  refine ⟨h.1.of_cons, fun t ht => ?_⟩
  rw [rank_setExtent, shape.extent_setExtent_ne (h.head_ne ht)]
  exact h.2 t (List.mem_cons_of_mem _ ht)

/-- What a slice keeps lies within the reach of the whole. -/
theorem AxisRange.base_add_reach_le {slices : List AxisRange} {shape : Shape} (strides : List Nat)
    (hwithin : Within shape slices) (hpos : positions (apply slices shape).dims ≠ 0) :
    positions shape.dims ≠ 0 ∧
      slices.foldr (fun s rest => s.start * strides.getD s.axis 0 + rest) 0 +
        reach (apply slices shape).dims strides ≤ reach shape.dims strides := by
  induction slices generalizing shape with
  | nil => exact ⟨hpos, by simp [apply]⟩
  | cons s slices ih =>
    obtain ⟨haxis, hrange⟩ := hwithin.2 s List.mem_cons_self
    rw [apply_cons] at hpos ⊢
    -- an empty range would leave nothing to be read
    have hlength : 0 < s.length := by
      refine Nat.pos_of_ne_zero fun hzero => hpos (positions_eq_zero.2 ?_)
      refine List.mem_of_getElem? (i := s.axis) ?_
      rw [getElem?_apply hwithin.head_notMem, Shape.setExtent, List.getElem?_set_self haxis, hzero]
    obtain ⟨hset, hnext⟩ := ih hwithin.tail hpos
    refine ⟨fun hzero => hset (positions_eq_zero.2 ?_), ?_⟩
    · obtain ⟨i, hi⟩ := List.getElem?_of_mem (positions_eq_zero.1 hzero)
      have hne : s.axis ≠ i := by
        rintro rfl
        rw [Shape.extent, List.getD_eq_getElem?_getD, hi, Option.getD_some] at hrange
        omega
      refine List.mem_of_getElem? (i := i) ?_
      rw [Shape.setExtent, List.getElem?_set_ne hne, hi]
    · rw [List.foldr_cons, Nat.add_assoc]
      exact (Nat.add_le_add_left hnext _).trans (reach_set_add_le hlength haxis hrange)

/-- What a slice keeps lies within the buffer. -/
theorem AxisRange.base_add_reach_lt {slices : List AxisRange} {shape : Shape}
    (hwithin : Within shape slices) (hpos : positions (apply slices shape).dims ≠ 0) :
    base slices shape + reach (apply slices shape).dims shape.strides < shape.count := by
  obtain ⟨hcount, hle⟩ := base_add_reach_le shape.strides hwithin hpos
  have hlast := reach_rowMajorStrides hcount
  rw [Shape.count]
  unfold base
  unfold Shape.strides at hle ⊢
  omega

/-- What is cut out lies within the buffer. -/
theorem foldSlice_yields (hops : ops.Consistent) {bounds : Option SliceBounds} {x : Operand}
    (hx : ops.bound? 0 = some x) {slices : List AxisRange}
    (hslices : keptSlices h bounds ops = .ok slices) :
    Yields (Fault.Own h.site) (foldSlice h bounds ops)
      fun c => c.shape = AxisRange.apply slices x.shape := by
  obtain ⟨x', hx', hwithin⟩ := (keptSlices_yields h bounds ops).value hslices
  obtain rfl := Option.some.inj (hx.symm.trans hx')
  unfold foldSlice
  refine (hops.constant_of_bound hx).bind fun c hc => ?_
  rw [hslices]
  rw [← hc] at hwithin ⊢
  refine (Constant.ofBuffer_yields (Buffer.size_rearrange fun v hv => ?_)).imp fun c' hc' => hc'.1
  refine size_readStrided fun hpos => ?_
  rw [hv, Constant.size_source]
  exact AxisRange.base_add_reach_lt hwithin hpos

/-! ### All operators -/

/-- What is filled in is a single value, as reading a node makes sure. -/
def Action.FillsOne : Action → Prop
  | .constantOfShape value => value.shape.count = 1
  | _ => True

/-- **A folded value has the inferred shape**, and folding fails with faults of the operator or of
the arithmetic only. -/
theorem Operator.fold_yields {op : Operator} (hfill : op.action.FillsOne) (hops : ops.Consistent)
    {s : Shape} (hs : op.outputShape ops = .ok s) :
    Yields (Fault.Own op.header.site) (op.fold ops) fun c => c.shape = s := by
  have hs' := hs
  unfold outputShape at hs
  unfold fold foldBy
  dsimp only at hs ⊢
  -- reshaping rules ask for the shape once more, which is what `hs'` is kept for
  generalize op.action = action at hs hfill ⊢
  cases action with
  | identity =>
    obtain ⟨x, hx, rfl⟩ := Operands.bound?_of_shape hs
    exact hops.constant_of_bound hx
  | eltwise e mode =>
    exact foldEltwise_yields hops e mode hs
  | activation function boundsAreInputs =>
    obtain ⟨x, hx, rfl⟩ := Operands.bound?_of_shape hs
    exact foldActivation_yields hops function boundsAreInputs hx
  | gemm params =>
    exact foldGemm_yields hops params hs
  | matMul =>
    obtain ⟨_, hleft, hs⟩ := bind_eq_ok.1 hs
    obtain ⟨_, hright, hs⟩ := bind_eq_ok.1 hs
    obtain ⟨a, ha, rfl⟩ := Operands.bound?_of_shape hleft
    obtain ⟨b, hb, rfl⟩ := Operands.bound?_of_shape hright
    obtain ⟨d, hd, hs⟩ := bind_eq_ok.1 hs
    obtain rfl := pure_eq_ok.1 hs
    exact foldMatMul_yields hops ha hb hd
  | softmax axis =>
    obtain ⟨_, hshape, hs⟩ := bind_eq_ok.1 hs
    obtain ⟨_, -, hs⟩ := bind_eq_ok.1 hs
    obtain ⟨x, hx, rfl⟩ := Operands.bound?_of_shape hshape
    obtain rfl := pure_eq_ok.1 hs
    exact foldSoftmax_yields hops axis hx
  | flatten axis =>
    obtain ⟨_, hshape, hs⟩ := bind_eq_ok.1 hs
    obtain ⟨x, hx, rfl⟩ := Operands.bound?_of_shape hshape
    rw [hs']
    exact foldReshaped_yields hops hx ((flattenShape_yields op.header axis x.shape).value hs)
  | reshape requested =>
    obtain ⟨_, hshape, hs⟩ := bind_eq_ok.1 hs
    obtain ⟨extents, -, hs⟩ := bind_eq_ok.1 hs
    obtain ⟨x, hx, rfl⟩ := Operands.bound?_of_shape hshape
    rw [hs']
    exact foldReshaped_yields hops hx ((reshapeTarget_yields op.header x.shape extents).value hs)
  | squeeze axes =>
    obtain ⟨x, hx, hunits⟩ := (squeezeShape_yields op.header axes ops).value hs
    rw [hs']
    exact foldReshaped_yields hops hx hunits.positions_eq
  | unsqueeze axes =>
    obtain ⟨x, hx, hunits⟩ := (unsqueezeShape_yields op.header axes ops).value hs
    rw [hs']
    exact foldReshaped_yields hops hx hunits.positions_eq.symm
  | concat axis =>
    obtain ⟨⟨a, out⟩, hjoined, rfl⟩ := map_eq_ok.1 hs
    exact foldConcat_yields hops hjoined
  | shapeOf =>
    obtain ⟨x, hx, hs⟩ := bind_eq_ok.1 hs
    obtain rfl := pure_eq_ok.1 hs
    rw [hx]
    refine .pure ?_
    simp [Constant.ofInts, Shape.rank]
  | gather axis =>
    obtain ⟨_, hleft, hs⟩ := bind_eq_ok.1 hs
    obtain ⟨_, hright, hs⟩ := bind_eq_ok.1 hs
    obtain ⟨data, hdata, rfl⟩ := Operands.bound?_of_shape hleft
    obtain ⟨indices, hindices, rfl⟩ := Operands.bound?_of_shape hright
    obtain ⟨⟨a, out⟩, hgather, hs⟩ := bind_eq_ok.1 hs
    obtain rfl := pure_eq_ok.1 hs
    exact foldGather_yields hops axis hdata hindices hgather
  | constantOfShape value =>
    exact foldFilled_yields hfill hs
  | constant value =>
    exact .ok (Except.ok.inj hs)
  | slice bounds =>
    obtain ⟨slices, hslices, hs⟩ := bind_eq_ok.1 hs
    obtain ⟨_, hshape, hs⟩ := bind_eq_ok.1 hs
    obtain ⟨x, hx, rfl⟩ := Operands.bound?_of_shape hshape
    obtain rfl := pure_eq_ok.1 hs
    exact foldSlice_yields hops hx hslices
  | reduceMean axes keepDims =>
    obtain ⟨_, hshape, hs⟩ := bind_eq_ok.1 hs
    obtain ⟨reduced, hreduced, hs⟩ := bind_eq_ok.1 hs
    obtain ⟨x, hx, rfl⟩ := Operands.bound?_of_shape hshape
    obtain rfl := pure_eq_ok.1 hs
    exact foldReduceMean_yields hops axes keepDims hx hreduced
  | conv | pool | globalPool | batchNorm | lrn | lstm => exact .own rfl

end Lamina
