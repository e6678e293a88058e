import Mathlib
import Lamina.Proofs.Broadcasting
import Lamina.Proofs.Words

/-!
# Output shapes: what an inferred shape says

One statement for each rule of shape inference: if it fails, the fault is one of the operator, and
if it gives a shape, then what folding and lowering will rely on holds of that shape and of the
inputs (`convShape_yields`, `gemmShape_yields`, `joinedShape_yields` and so on). Rules that only
rearrange data are stated through the number of elements, which they keep, or through the unit axes
that they drop and put in (`DropsUnits`).
-/

namespace Lamina

/-! ### Operands -/

namespace Operands

variable (ops : Operands) (h : Header) (i : Nat)

theorem get_yields : Yields (Fault.Own h.site) (ops.get h i) fun op => ops.bound? i = some op := by
  unfold get
  split
  · rename_i op hop
    exact .ok hop
  · exact .own rfl

theorem shape_yields :
    Yields (Fault.Own h.site) (ops.shape h i)
      fun s => ∃ op, ops.bound? i = some op ∧ op.shape = s :=
  (ops.get_yields h i).map fun op hop => ⟨op, hop, rfl⟩

theorem constantOf_yields (op : Operand) :
    Yields (Fault.Own h.site) (constantOf h i op) fun c => op.constant = some c := by
  unfold constantOf
  split
  · rename_i c hc
    exact .ok hc
  · exact .own rfl

theorem constant_yields :
    Yields (Fault.Own h.site) (ops.constant h i)
      fun c => ∃ op, ops.bound? i = some op ∧ op.constant = some c := by
  refine (ops.get_yields h i).bind fun op hop => ?_
  exact (constantOf_yields h i op).imp fun c hc => ⟨op, hop, hc⟩

theorem constant?_yields :
    Yields (Fault.Own h.site) (ops.constant? h i)
      fun c => ∀ v, c = some v → ∃ op, ops.bound? i = some op ∧ op.constant = some v := by
  unfold constant?
  split
  · rename_i op hop
    refine (constantOf_yields h i op).map fun c hc v hv => ?_
    obtain rfl := Option.some.inj hv
    exact ⟨op, hop, hc⟩
  · exact .ok fun v hv => nomatch hv

end Operands

/-! ### Axes -/

namespace Header

variable (h : Header)

/-- An axis counted from either end lies within the rank. -/
theorem axis_yields (axis : Int64) (rank : Nat) :
    Yields (Fault.Own h.site) (h.axis axis rank) fun a => a < rank := by
  unfold Header.axis
  dsimp only
  split
  · exact .own rfl
  · generalize (if axis.toInt < 0 then axis.toInt + rank else axis.toInt) = resolved
    split
    · exact .own rfl
    · refine .ok ?_
      omega

/-- Axes come out in order, as many as were asked for. -/
theorem sortedAxes_yields (axes : List Int64) (rank : Nat) :
    Yields (Fault.Own h.site) (h.sortedAxes axes rank) fun sorted =>
      sorted.Pairwise (· ≤ ·) ∧ (∀ a ∈ sorted, a < rank) ∧ sorted.length = axes.length := by
  unfold sortedAxes
  have hall := Yields.mapM (l := axes) fun a _ => h.axis_yields a rank
  refine hall.map fun found hfound => ⟨?_, fun a ha => ?_, ?_⟩
  · exact pairwise_sorted_by (fun a => a) found
  · have ha : a ∈ found := (List.mergeSort_perm found _).mem_iff.1 ha
    obtain ⟨_, -, hlt⟩ := forall₂_mem_left hfound.flip ha
    exact hlt
  · rw [ascending, List.length_mergeSort, ← hfound.length_eq]

end Header

/-- Without equal neighbours, what is in order is in strict order. -/
theorem pairwise_lt_of_hasAdjacentEqual {l : List Nat} (hle : l.Pairwise (· ≤ ·))
    (h : hasAdjacentEqual l = false) : l.Pairwise (· < ·) := by
  fun_induction hasAdjacentEqual l with
  | case1 a b rest ih =>
    simp only [Bool.or_eq_false_iff, beq_eq_false_iff_ne] at h
    have hrest := ih (List.pairwise_cons.1 hle).2 h.2
    refine List.pairwise_cons.2 ⟨fun c hc => ?_, hrest⟩
    have hab : a < b := lt_of_le_of_ne ((List.pairwise_cons.1 hle).1 b List.mem_cons_self) h.1
    rcases List.mem_cons.1 hc with rfl | hc
    · exact hab
    · exact hab.trans ((List.pairwise_cons.1 hrest).1 c hc)
  | case2 l hl =>
    match l, hl with
    | [], _ => exact .nil
    | [a], _ => exact List.pairwise_singleton _ a
    | a :: b :: rest, hl => exact absurd rfl (hl a b rest)

/-- Axes that are refused if repeated come out distinct. -/
theorem Header.distinctAxes_yields (h : Header) (axes : List Int64) (rank : Nat) :
    Yields (Fault.Own h.site) (h.distinctAxes axes rank) fun sorted =>
      sorted.Nodup ∧ (∀ a ∈ sorted, a < rank) ∧ sorted.length = axes.length := by
  unfold distinctAxes
  refine (h.sortedAxes_yields axes rank).bind fun sorted hsorted => ?_
  split
  · exact .own rfl
  · rename_i hdistinct
    have hlt := pairwise_lt_of_hasAdjacentEqual hsorted.1 (by simpa using hdistinct)
    exact .pure ⟨hlt.imp fun hab => Nat.ne_of_lt hab, hsorted.2⟩

theorem mem_of_mem_dropAdjacentEqual {l : List Nat} {a : Nat} (h : a ∈ dropAdjacentEqual l) :
    a ∈ l := by
  fun_induction dropAdjacentEqual l with
  | case1 b rest ih => exact List.mem_cons_of_mem _ (ih h)
  | case2 b c rest hne ih =>
    rcases List.mem_cons.1 h with rfl | h
    · exact List.mem_cons_self
    · exact List.mem_cons_of_mem _ (ih h)
  | case3 l => exact h

/-- Of what is in order, what is left without equal neighbours is in strict order. -/
theorem pairwise_lt_dropAdjacentEqual {l : List Nat} (hle : l.Pairwise (· ≤ ·)) :
    (dropAdjacentEqual l).Pairwise (· < ·) := by
  fun_induction dropAdjacentEqual l with
  | case1 b rest ih => exact ih (List.pairwise_cons.1 hle).2
  | case2 b c rest hne ih =>
    obtain ⟨hb, hrest⟩ := List.pairwise_cons.1 hle
    refine List.pairwise_cons.2 ⟨?_, ih hrest⟩
    intro a ha
    have hbc : b < c := lt_of_le_of_ne (hb c List.mem_cons_self) hne
    rcases List.mem_cons.1 (mem_of_mem_dropAdjacentEqual ha) with rfl | ha
    · exact hbc
    · exact hbc.trans_le ((List.pairwise_cons.1 hrest).1 a ha)
  | case3 l hl =>
    match l, hl with
    | [], _ => exact .nil
    | [a], _ => exact List.pairwise_singleton _ a
    | a :: b :: rest, hl => exact absurd rfl (hl a b rest)

/-- The axes of a mean are axes of its operand, each named once. -/
theorem reducedAxes_yields (h : Header) (axes : Option (List Int64)) (rank : Nat) :
    Yields (Fault.Own h.site) (reducedAxes h axes rank) fun reduced =>
      reduced.Pairwise (· < ·) ∧ ∀ a ∈ reduced, a < rank := by
  unfold reducedAxes
  split
  · exact .ok ⟨List.pairwise_lt_range, fun a ha => List.mem_range.1 ha⟩
  · refine (h.sortedAxes_yields _ rank).map fun sorted hsorted => ?_
    refine ⟨pairwise_lt_dropAdjacentEqual hsorted.1, ?_⟩
    intro a ha
    exact hsorted.2.1 a (mem_of_mem_dropAdjacentEqual ha)

/-! ### Windows -/

namespace Window

variable (site : Site)

theorem sized_yields (name : String) (values : Option (List Nat)) (length fill : Nat) :
    Yields (Fault.Own site) (sized site name values length fill) fun _ => True := by
  unfold sized
  split
  · exact .ok trivial
  · split
    · exact .ok trivial
    · exact .own rfl

theorem axisPads_yields (w : Window) (extents strides spans : List Nat) :
    Yields (Fault.Own site) (w.axisPads site extents strides spans) fun _ => True := by
  unfold axisPads
  dsimp only
  split
  · exact (sized_yields site _ _ _ _).bind fun _ _ => .pure trivial
  · exact .ok trivial
  · refine (Yields.mapM (R := fun _ _ => True) fun i _ => ?_).imp fun _ _ => trivial
    exact Yields.word_own.bind fun _ _ => .pure trivial

theorem resolve_yields (w : Window) (extents : List Nat) (weights : Option (List Nat)) :
    Yields (Fault.Own site) (w.resolve site extents weights)
      fun axes => axes.length = extents.length := by
  unfold resolve
  have hpoints : Yields (Fault.Own site) (w.points site weights) fun _ => True := by
    unfold points
    split
    · split
      · exact .ok trivial
      · exact .own rfl
    · exact .ok trivial
    · exact .ok trivial
    · exact .own rfl
  refine hpoints.bind fun points _ => ?_
  refine (sized_yields site _ _ _ _).bind fun kernel _ => ?_
  refine (sized_yields site _ _ _ _).bind fun strides _ => ?_
  refine (sized_yields site _ _ _ _).bind fun dilations _ => ?_
  split
  · exact .own rfl
  · refine (Yields.mapM fun i _ => Yields.word_own).bind fun spans _ => ?_
    refine (axisPads_yields site w extents strides spans).bind fun pads _ => ?_
    have halong : ∀ i ∈ List.range extents.length,
        Yields (Fault.Own site) (along site (extents.getD i 0) (kernel.getD i 1) (strides.getD i 1)
          (dilations.getD i 1) (spans.getD i 1) (pads.getD i (0, 0))) fun _ => True := by
      intro i _
      refine Yields.word_own.bind fun padded _ => ?_
      split
      · exact .own rfl
      · exact .pure trivial
    -- one window per extent, whatever the attributes are
    refine (Yields.mapM halong).imp fun axes haxes => ?_
    rw [← haxes.length_eq, List.length_range]

/-- The padding on either side is the same. -/
theorem evenPads_yields (axes : List AxisWindow) :
    Yields (Fault.Own site) (evenPads site axes) fun pads =>
      axes.map AxisWindow.before = axes.map AxisWindow.after ∧
        pads = Planar.ofList (axes.map AxisWindow.before) 0 := by
  unfold evenPads
  dsimp only
  split
  · rename_i heven
    exact .ok ⟨heven, rfl⟩
  · exact .own rfl

/-- The slots of a windowed tensor are distinct and as many as its axes. -/
theorem slots_yields (rank : Nat) :
    Yields (Fault.Own site) (slots site rank)
      fun slots => slots.Nodup ∧ slots.length = rank ∧ rank ≤ 4 := by
  unfold slots
  split
  · exact .ok (by decide)
  · exact .ok (by decide)
  · exact .own rfl

theorem rank_outputShape (input : Shape) (channels : Nat) (axes : List AxisWindow) :
    (outputShape input channels axes).rank = axes.length + 2 := by
  simp [outputShape, Shape.rank]

end Window

/-! ### Windowed operators -/

/-- A convolution has a window for each axis after the first two. -/
theorem convWindows_yields (h : Header) (group : Nat) (window : Window) (x w : Shape) :
    Yields (Fault.Own h.site) (convWindows h group window x w)
      fun axes => w.rank = x.rank ∧ axes.length + 2 = x.rank := by
  unfold convWindows
  refine (Yields.ensure_own rfl).bind fun _ hrank => ?_
  refine Yields.word_own.bind fun channels _ => ?_
  refine (Yields.ensure_own rfl).bind fun _ _ => ?_
  refine (window.resolve_yields h.site _ _).imp fun axes haxes => ?_
  simp only [Bool.and_eq_true, decide_eq_true_eq, beq_iff_eq] at hrank
  rw [haxes, List.length_drop]
  unfold Shape.rank at hrank ⊢
  omega

/-- The windows of a convolution are those that the weights leave room for. -/
theorem resolve_of_convWindows {h : Header} {group : Nat} {window : Window} {x w : Shape}
    {axes : List AxisWindow} (haxes : convWindows h group window x w = .ok axes) :
    window.resolve h.site (x.dims.drop 2) (some (w.dims.drop 2)) = .ok axes := by
  obtain ⟨_, -, haxes⟩ := bind_eq_ok.1 haxes
  obtain ⟨_, -, haxes⟩ := bind_eq_ok.1 haxes
  obtain ⟨_, -, haxes⟩ := bind_eq_ok.1 haxes
  exact haxes

/-- A convolution gives the positions of its windows; its bias is a list. -/
theorem convShape_yields (h : Header) (group : Nat) (window : Window) (ops : Operands) :
    Yields (Fault.Own h.site) (convShape h group window ops) fun s =>
      ∃ x w axes, ops.bound? 0 = some x ∧ ops.bound? 1 = some w ∧
        convWindows h group window x.shape w.shape = .ok axes ∧
        s = Window.outputShape x.shape (w.shape.extent 0) axes ∧
        ∀ b, ops.bound? 2 = some b → b.shape.rank = 1 := by
  unfold convShape
  refine (ops.shape_yields h 0).bind ?_
  rintro _ ⟨x, hx, rfl⟩
  refine (ops.shape_yields h 1).bind ?_
  rintro _ ⟨w, hw, rfl⟩
  have hfaults := fun f hf => (convWindows_yields h group window x.shape w.shape).fault (f := f) hf
  refine (Yields.of_faults hfaults).bind fun axes haxes => ?_
  split
  · rename_i b hb
    refine (Yields.ensure_own rfl).bind fun _ hdims => .pure ⟨x, w, axes, hx, hw, haxes, rfl, ?_⟩
    intro b' hb'
    obtain rfl := Option.some.inj (hb.symm.trans hb')
    rw [Shape.rank, of_decide_eq_true hdims]
    rfl
  · rename_i hb
    refine .pure ⟨x, w, axes, hx, hw, haxes, rfl, fun b hb' => ?_⟩
    rw [hb] at hb'
    cases hb'

/-- A pooling has a window for each axis after the first two. -/
theorem poolWindows_yields (h : Header) (window : Window) (x : Shape) :
    Yields (Fault.Own h.site) (poolWindows h window x) fun axes => axes.length + 2 = x.rank := by
  unfold poolWindows
  refine (Yields.ensure_own rfl).bind fun _ hrank => ?_
  refine (window.resolve_yields h.site _ _).imp fun axes haxes => ?_
  rw [haxes, List.length_drop]
  have := of_decide_eq_true hrank
  unfold Shape.rank at this ⊢
  omega

theorem resolve_of_poolWindows {h : Header} {window : Window} {x : Shape} {axes : List AxisWindow}
    (haxes : poolWindows h window x = .ok axes) :
    window.resolve h.site (x.dims.drop 2) none = .ok axes := by
  obtain ⟨_, -, haxes⟩ := bind_eq_ok.1 haxes
  exact haxes

/-- Pooling over everything keeps the rank. -/
theorem globalPoolShape_yields (h : Header) (x : Shape) :
    Yields (Fault.Own h.site) (globalPoolShape h x) fun s => s.rank = x.rank := by
  unfold globalPoolShape
  refine (Yields.ensure_own rfl).bind fun _ hrank => .pure ?_
  have := of_decide_eq_true hrank
  simp only [Shape.rank, List.length_append, List.length_take, List.length_replicate] at this ⊢
  omega

theorem checkStatistics_yields (h : Header) (ops : Operands) (channels : Nat) :
    Yields (Fault.Own h.site) (checkStatistics h ops channels) fun _ => True := by
  unfold checkStatistics
  refine (Yields.forM (R := fun _ => True) fun i _ => ?_).imp fun _ _ => trivial
  exact (ops.shape_yields h i).bind fun s _ => (Yields.ensure_own rfl).imp fun _ _ => trivial

theorem softmaxAxis_yields (h : Header) (axis : Int64) (rank : Nat) :
    Yields (Fault.Own h.site) (softmaxAxis h axis rank) fun _ => True := by
  unfold softmaxAxis
  refine (h.axis_yields axis _).bind fun a _ => ?_
  exact (Yields.ensure_own rfl).bind fun _ _ => .pure trivial

/-! ### Matrices and recurrences -/

/-- The factors of a matrix product are matrices. -/
theorem Gemm.dims_yields (g : Gemm) (h : Header) (a b : Shape) :
    Yields (Fault.Own h.site) (g.dims h a b) fun _ => a.rank = 2 ∧ b.rank = 2 := by
  unfold Gemm.dims
  split
  · rename_i a0 a1 b0 b1 ha hb
    dsimp only
    generalize (if g.transA = true then (a1, a0) else (a0, a1)) = left
    generalize (if g.transB = true then (b1, b0) else (b0, b1)) = right
    split
    · refine .ok ⟨?_, ?_⟩
      · rw [Shape.rank, ha]
        rfl
      · rw [Shape.rank, hb]
        rfl
    · exact .own rfl
  · exact .own rfl

/-- The free term of a matrix product embeds at the end of the result. -/
theorem gemmShape_yields (h : Header) (params : Gemm) (ops : Operands) :
    Yields (Fault.Own h.site) (gemmShape h params ops) fun s =>
      ∃ a b d, ops.bound? 0 = some a ∧ ops.bound? 1 = some b ∧
        params.dims h a.shape b.shape = .ok d ∧ s = ⟨[d.m, d.n]⟩ ∧
        ∀ c, ops.bound? 2 = some c → Broadcast.Aligned .trailing c.shape s := by
  unfold gemmShape
  refine (ops.shape_yields h 0).bind ?_
  rintro _ ⟨a, ha, rfl⟩
  refine (ops.shape_yields h 1).bind ?_
  rintro _ ⟨b, hb, rfl⟩
  have hdims := Yields.of_faults fun f hf => (params.dims_yields h a.shape b.shape).fault hf
  refine hdims.bind fun d hd => ?_
  dsimp only
  split
  · rename_i hc
    exact .pure ⟨a, b, d, ha, hb, hd, rfl, fun c hc' => nomatch hc.symm.trans hc'⟩
  · rename_i c hc
    refine (Broadcast.shapes_trailing_yields h.site ⟨[d.m, d.n]⟩ c.shape).bind fun s hs => ?_
    refine (Yields.ensure_own rfl).bind fun _ heq => ?_
    refine .pure ⟨a, b, d, ha, hb, hd, rfl, fun c' hc' => ?_⟩
    obtain rfl := Option.some.inj (hc.symm.trans hc')
    exact of_decide_eq_true heq ▸ hs.2.2

/-- A stacked product has one value per row and column of each product of the stack. -/
theorem StackDims.ofShapes_yields (h : Header) (a b : Shape) :
    Yields (Fault.Own h.site) (StackDims.ofShapes h a b) fun d =>
      d.output.count = d.batch.count * (d.product.m * d.product.n) ∧
        (2 ≤ a.rank → b.rank = 2 → d.output.rank = a.rank) := by
  unfold StackDims.ofShapes
  split
  · exact .own rfl
  · rename_i hscalar
    dsimp only
    generalize hl : (if a.rank = 1 then (⟨1 :: a.dims⟩ : Shape) else a) = left
    generalize hr : (if b.rank = 1 then (⟨b.dims ++ [1]⟩ : Shape) else b) = right
    split
    · exact .own rfl
    · refine (Broadcast.shapes_trailing_yields h.site _ _).bind fun batch hbatch => .pure ⟨?_, ?_⟩
      · -- a vector is a row or a column, and its missing axis has one position
        have hrows : positions (if 1 < a.rank then [left.extent (left.rank - 2)] else []) =
            left.extent (left.rank - 2) := by
          split
          · simp
          · have ha : a.rank = 1 := by omega
            have hlen : a.dims.length = 1 := ha
            simp [← hl, Shape.extent, Shape.rank, hlen]
        have hcolumns : positions (if 1 < b.rank then [right.extent (right.rank - 1)] else []) =
            right.extent (right.rank - 1) := by
          split
          · simp
          · have hb : b.rank = 1 := by omega
            have hlen : b.dims.length = 1 := hb
            simp [← hr, Shape.extent, Shape.rank, hlen]
        simp only [Shape.count, positions_append, hrows, hcolumns, Nat.mul_assoc]
      · intro ha hb
        have hleft : left = a := by rw [← hl, if_neg (by omega)]
        have hright : right = b := by rw [← hr, if_neg (by omega)]
        have hlead : ∀ s : Shape, (StackDims.leading s).rank = s.rank - 2 := by
          intro s
          simp [StackDims.leading, Shape.rank]
        have hrank : batch.dims.length = a.rank - 2 := by
          have := hbatch.1
          rw [hleft, hright, hlead, hlead, hb] at this
          simpa [Shape.rank] using this
        rw [if_pos (by omega), if_pos (by omega)]
        simp only [Shape.rank, List.length_append, List.length_singleton, hrank]
        unfold Shape.rank at ha
        omega

/-- Gate weights have the extents asked for. -/
theorem checkGates_yields (h : Header) (ops : Operands) (i : Nat) (what : String)
    (hidden columns : Nat) :
    Yields (Fault.Own h.site) (checkGates h ops i what hidden columns) fun _ =>
      ∃ w, ops.bound? i = some w ∧ w.shape.dims = [1, 4 * hidden, columns] := by
  unfold checkGates
  refine (ops.shape_yields h i).bind ?_
  rintro _ ⟨w, hw, rfl⟩
  refine Yields.word_own.bind ?_
  rintro _ ⟨rfl, -⟩
  exact (Yields.ensure_own rfl).imp fun _ hdims => ⟨w, hw, of_decide_eq_true hdims⟩

/-- A bias that may be left out has the extents asked for if it is there. -/
theorem checkGateBias_yields (h : Header) (ops : Operands) (hidden : Nat) :
    Yields (Fault.Own h.site) (checkGateBias h ops hidden) fun _ =>
      ∀ b, ops.bound? 3 = some b → b.shape.dims = [1, 8 * hidden] := by
  unfold checkGateBias
  split
  · rename_i b hb
    refine Yields.word_own.bind ?_
    rintro _ ⟨rfl, -⟩
    refine (Yields.ensure_own rfl).imp fun _ hdims b' hb' => ?_
    obtain rfl := Option.some.inj (hb.symm.trans hb')
    exact of_decide_eq_true hdims
  · rename_i hb
    exact .ok fun b hb' => nomatch hb.symm.trans hb'

theorem checkState_yields (h : Header) (ops : Operands) (i batch hidden : Nat) :
    Yields (Fault.Own h.site) (checkState h ops i batch hidden) fun _ => True := by
  unfold checkState
  split
  · exact (Yields.ensure_own rfl).imp fun _ _ => trivial
  · exact .ok trivial

/-- The weights of a recurrent unit have four gates, and its bias has two halves of four gates. -/
theorem lstmShape_yields (h : Header) (hidden : Nat) (ops : Operands) :
    Yields (Fault.Own h.site) (lstmShape h hidden ops) fun s =>
      ∃ x w r features, ops.bound? 0 = some x ∧ ops.bound? 1 = some w ∧ ops.bound? 2 = some r ∧
        s.rank = 4 ∧ x.shape.rank = 3 ∧ w.shape.dims = [1, 4 * hidden, features] ∧
        r.shape.dims = [1, 4 * hidden, hidden] ∧
        ∀ b, ops.bound? 3 = some b → b.shape.dims = [1, 8 * hidden] := by
  unfold lstmShape
  refine (ops.shape_yields h 0).bind ?_
  rintro _ ⟨x, hx, rfl⟩
  split
  · rename_i steps batch features hdims
    refine (checkGates_yields h ops 1 _ _ _).bind ?_
    rintro _ ⟨w, hw, hwdims⟩
    refine (checkGates_yields h ops 2 _ _ _).bind ?_
    rintro _ ⟨r, hr, hrdims⟩
    refine (checkGateBias_yields h ops hidden).bind fun _ hbias => ?_
    refine (checkState_yields h ops 5 _ _).bind fun _ _ => ?_
    refine (checkState_yields h ops 6 _ _).bind fun _ _ => ?_
    refine .pure ⟨x, w, r, features, hx, hw, hr, rfl, ?_, hwdims, hrdims, hbias⟩
    rw [Shape.rank, hdims]
    rfl
  · exact .own rfl

/-! ### Operators that keep the elements -/

/-- Two blocks of axes have as many positions as all axes. -/
theorem flattenShape_yields (h : Header) (axis : Int64) (x : Shape) :
    Yields (Fault.Own h.site) (flattenShape h axis x) fun s => s.count = x.count := by
  have hcount : ∀ a, Shape.count ⟨[positions (x.dims.take a), positions (x.dims.drop a)]⟩ =
      x.count := by
    intro a
    simp only [Shape.count, positions_cons, positions_nil, Nat.mul_one]
    rw [← positions_append, List.take_append_drop]
  have hproducts : ∀ a, Yields (Fault.Own h.site) (do
      return (⟨[← h.site.product (x.dims.take a), ← h.site.product (x.dims.drop a)]⟩ : Shape))
      fun s => s.count = x.count := by
    intro a
    refine Yields.product_own.bind ?_
    rintro _ ⟨rfl, -⟩
    refine Yields.product_own.bind ?_
    rintro _ ⟨rfl, -⟩
    exact .pure (hcount a)
  unfold flattenShape
  dsimp only
  split
  · exact hproducts _
  · exact (h.axis_yields axis x.rank).bind fun a _ => hproducts a

theorem requestedExtents_yields (h : Header) (input : Shape) (position : Nat) (inferred : Bool)
    (requested : List Int64) :
    Yields (Fault.Own h.site) (requestedExtents h input position inferred requested)
      fun _ => True := by
  induction requested generalizing position inferred with
  | nil => exact .ok trivial
  | cons d rest ih =>
    have hrest : ∀ extent : Option Nat, Yields (Fault.Own h.site) (do
        let extents ← requestedExtents h input (position + 1) (inferred || extent.isNone) rest
        return extent :: extents) fun _ => True := fun extent =>
      (ih _ _).bind fun _ _ => .pure trivial
    unfold requestedExtents
    dsimp only
    split
    · split
      · exact hrest _
      · exact .own_bind rfl
    · split
      · split
        · exact .own_bind rfl
        · exact hrest _
      · split
        · exact hrest _
        · exact .own_bind rfl

/-- A requested shape is accepted only with the elements of the input. -/
theorem reshapeTarget_yields (h : Header) (input : Shape) (requested : List Int64) :
    Yields (Fault.Own h.site) (reshapeTarget h input requested)
      fun s => s.count = input.count := by
  unfold reshapeTarget
  refine (requestedExtents_yields h input 0 false requested).bind fun extents _ => ?_
  refine Yields.product_own.bind fun known _ => ?_
  refine Yields.product_own.bind ?_
  rintro _ ⟨rfl, -⟩
  refine .refuse rfl fun _ => ?_
  refine Yields.product_own.bind ?_
  rintro _ ⟨rfl, -⟩
  split
  · rename_i hcount
    exact .pure hcount
  · exact .own rfl

theorem requestedShape_yields (h : Header) (requested : Option (List Int64)) (ops : Operands) :
    Yields (Fault.Own h.site) (requestedShape h requested ops) fun _ => True := by
  unfold requestedShape
  split
  · exact .ok trivial
  · exact (ops.constant_yields h 1).map fun _ _ => trivial

theorem listedAxes_yields (h : Header) (axes : Option (List Int64)) (ops : Operands) :
    Yields (Fault.Own h.site) (listedAxes h axes ops) fun _ => True := by
  unfold listedAxes
  split
  · exact .ok trivial
  · exact (ops.constant?_yields h 1).map fun _ _ => trivial

/-- A list of extents is another one without some of its unit axes. -/
inductive DropsUnits : (short long : List Nat) → Prop where
  | nil : DropsUnits [] []
  | keep (d : Nat) {short long : List Nat} : DropsUnits short long →
    DropsUnits (d :: short) (d :: long)
  | drop {short long : List Nat} : DropsUnits short long → DropsUnits short (1 :: long)

theorem DropsUnits.positions_eq {short long : List Nat} (h : DropsUnits short long) :
    positions short = positions long := by
  induction h with
  | nil => rfl
  | keep d _ ih => rw [positions_cons, positions_cons, ih]
  | drop _ ih => rw [positions_cons, ih, Nat.one_mul]

theorem dropsUnits_filter {l : List Nat} {keep : Nat → Bool} {extent : Nat → Nat}
    (h : ∀ a ∈ l, keep a = false → extent a = 1) :
    DropsUnits ((l.filter keep).map extent) (l.map extent) := by
  induction l with
  | nil => exact .nil
  | cons a l ih =>
    have ih := ih fun b hb => h b (List.mem_cons_of_mem _ hb)
    rw [List.filter_cons, List.map_cons]
    split
    · exact ih.keep (extent a)
    · rename_i hkeep
      rw [h a List.mem_cons_self (by simpa using hkeep)]
      exact ih.drop

/-- Leaving out axes of one position keeps the number of positions. -/
theorem positions_map_filter {l : List Nat} {keep : Nat → Bool} {extent : Nat → Nat}
    (h : ∀ a ∈ l, keep a = false → extent a = 1) :
    positions ((l.filter keep).map extent) = positions (l.map extent) :=
  (dropsUnits_filter h).positions_eq

/-- Unit axes can be left out. -/
theorem dropsUnits_dropAxes {s : Shape} {axes : List Nat} (h : ∀ a ∈ axes, s.extent a = 1) :
    DropsUnits (s.dropAxes axes).dims s.dims := by
  have hall : (List.range s.rank).map s.extent = s.dims := extents_by_axis s.dims 1
  conv_rhs => rw [← hall]
  apply dropsUnits_filter
  intro a _ ha
  apply h a
  simpa using ha

/-- Squeezing checks that the axes it drops are unit axes. -/
theorem squeezeShape_yields (h : Header) (axes : Option (List Int64)) (ops : Operands) :
    Yields (Fault.Own h.site) (squeezeShape h axes ops) fun s =>
      ∃ x, ops.bound? 0 = some x ∧ DropsUnits s.dims x.shape.dims := by
  unfold squeezeShape
  refine (ops.shape_yields h 0).bind ?_
  rintro _ ⟨x, hx, rfl⟩
  have hdropped : Yields (Fault.Own h.site) (squeezedAxes h axes ops) fun dropped =>
      ∀ a ∈ dropped, x.shape.extent a = 1 := by
    unfold squeezedAxes
    refine (ops.shape_yields h 0).bind ?_
    rintro _ ⟨x', hx', rfl⟩
    obtain rfl := Option.some.inj (hx.symm.trans hx')
    refine (listedAxes_yields h axes ops).bind fun listed _ => ?_
    have hunit : ∀ dropped : List Nat, dropped.find? (fun a => x.shape.extent a ≠ 1) = none →
        ∀ a ∈ dropped, x.shape.extent a = 1 := fun dropped hnone a ha => by
      simpa using List.find?_eq_none.1 hnone a ha
    dsimp only
    split
    · refine (h.distinctAxes_yields _ _).bind fun dropped _ => ?_
      split
      · exact .own rfl
      · rename_i hnone
        exact .pure (hunit dropped hnone)
    · rw [pure_bind]
      split
      · exact .own rfl
      · rename_i hnone
        exact .pure (hunit _ hnone)
  exact hdropped.bind fun dropped hunit => .pure ⟨x, hx, dropsUnits_dropAxes hunit⟩

/-- Inserted axes have one position, and each of the others takes the next extent. -/
theorem dropsUnits_insertFrom {inserted : List Nat} {axis count : Nat} {dims : List Nat}
    (h : dims.length = ((List.range' axis count).filter (· ∉ inserted)).length) :
    DropsUnits dims (Shape.insertFrom inserted axis count dims) := by
  induction count generalizing axis dims with
  | zero =>
    obtain rfl : dims = [] := List.eq_nil_of_length_eq_zero h
    exact .nil
  | succ count ih =>
    rw [Shape.insertFrom]
    rw [List.range'_succ] at h
    by_cases hin : axis ∈ inserted
    · rw [if_pos (by simpa using hin)]
      exact (ih (by simpa [hin] using h)).drop
    · rw [if_neg (by simpa using hin)]
      cases dims with
      | nil => simp [hin] at h
      | cons d dims => exact (ih (by simpa [hin] using h)).keep d

/-- Of `n` axes, those that are not among `k` given ones are `n - k`. -/
theorem length_filter_notMem {n : Nat} {axes : List Nat} (hnodup : axes.Nodup)
    (hlt : ∀ a ∈ axes, a < n) :
    ((List.range n).filter (· ∉ axes)).length + axes.length = n := by
  have hin : ((List.range n).filter (· ∈ axes)).Perm axes := by
    refine (List.perm_ext_iff_of_nodup (List.nodup_range.filter _) hnodup).2 fun a => ?_
    simp only [List.mem_filter, List.mem_range, decide_eq_true_eq]
    exact ⟨And.right, fun ha => ⟨hlt a ha, ha⟩⟩
  have hsum := List.length_eq_length_filter_add (l := List.range n) fun a => decide (a ∈ axes)
  rw [List.length_range, hin.length_eq] at hsum
  have hneg : (List.range n).filter (fun a => !decide (a ∈ axes)) =
      (List.range n).filter (· ∉ axes) := by
    congr 1
    funext a
    simp
  rw [hneg] at hsum
  omega

/-- Distinct unit axes can be put in. -/
theorem dropsUnits_insertAxes {s : Shape} {inserted : List Nat} (hnodup : inserted.Nodup)
    (hlt : ∀ a ∈ inserted, a < s.rank + inserted.length) :
    DropsUnits s.dims (s.insertAxes inserted).dims := by
  have hlength := length_filter_notMem hnodup hlt
  apply dropsUnits_insertFrom
  rw [← List.range_eq_range']
  unfold Shape.rank at hlength ⊢
  omega

/-- Unsqueezing puts in distinct unit axes. -/
theorem unsqueezeShape_yields (h : Header) (axes : Option (List Int64)) (ops : Operands) :
    Yields (Fault.Own h.site) (unsqueezeShape h axes ops) fun s =>
      ∃ x, ops.bound? 0 = some x ∧ DropsUnits x.shape.dims s.dims := by
  unfold unsqueezeShape
  refine (ops.shape_yields h 0).bind ?_
  rintro _ ⟨x, hx, rfl⟩
  refine (listedAxes_yields h axes ops).bind fun listed _ => ?_
  split
  · exact .own rfl
  · rename_i listed
    refine (h.distinctAxes_yields listed _).bind fun inserted ⟨hnodup, hlt, hlength⟩ => ?_
    rw [← hlength] at hlt
    exact .pure ⟨x, hx, dropsUnits_insertAxes hnodup hlt⟩

/-! ### Joining, gathering, filling -/

/-- Parts that are joined agree with the first one everywhere but along the axis. -/
theorem joinedShape_yields (h : Header) (axis : Int64) (shapes : List Shape) :
    Yields (Fault.Own h.site) (joinedShape h axis shapes) fun joined =>
      ∃ first rest, shapes = first :: rest ∧ joined.1 < first.rank ∧
        (∀ s ∈ rest, agreeExcept joined.1 first s = true) ∧
        joined.2 = first.setExtent joined.1
          (rest.foldl (fun n s => n + s.extent joined.1) (first.extent joined.1)) := by
  unfold joinedShape
  split
  · exact .own rfl
  · rename_i first rest
    refine (h.axis_yields axis first.rank).bind fun a ha => ?_
    refine Yields.bind (Q := fun total => (∀ s ∈ rest, agreeExcept a first s = true) ∧
      total = rest.foldl (fun n s => n + s.extent a) (first.extent a)) ?_ ?_
    · refine Yields.foldlM_passed (I := fun passed n =>
        (∀ s ∈ passed, agreeExcept a first s = true) ∧
          n = passed.foldl (fun n s => n + s.extent a) (first.extent a)) ?_ ⟨by simp, rfl⟩
      rintro passed s rest - _ ⟨hagree, rfl⟩
      refine (Yields.ensure_own rfl).bind fun _ hs => Yields.word_own.imp ?_
      rintro _ ⟨rfl, -⟩
      refine ⟨fun t ht => ?_, by rw [List.foldl_append]; rfl⟩
      rcases List.mem_append.1 ht with ht | ht
      · exact hagree t ht
      · rwa [List.mem_singleton.1 ht]
    · rintro _ ⟨hagree, rfl⟩
      exact .pure ⟨first, rest, rfl, ha, hagree, rfl⟩

theorem rank_setExtent (s : Shape) (axis extent : Nat) :
    (s.setExtent axis extent).rank = s.rank := by
  simp [Shape.setExtent, Shape.rank]

/-- All parts of a concatenation have the rank of the result. -/
theorem rank_of_joinedShape {h : Header} {axis : Int64} {shapes : List Shape} {a : Nat}
    {out : Shape} (hjoined : joinedShape h axis shapes = .ok (a, out)) {s : Shape}
    (hs : s ∈ shapes) : s.rank = out.rank := by
  obtain ⟨first, rest, rfl, -, hagree, hout⟩ := (joinedShape_yields h axis shapes).value hjoined
  have hrank : out.rank = first.rank := (congrArg Shape.rank hout).trans (rank_setExtent ..)
  rw [hrank]
  rcases List.mem_cons.1 hs with rfl | hs
  · rfl
  · have := hagree s hs
    simp only [agreeExcept, Bool.and_eq_true, beq_iff_eq] at this
    exact this.1.symm

/-- Gathering replaces an axis by the axes of the indices. -/
theorem gatherShape_yields (h : Header) (axis : Int64) (data indices : Shape) :
    Yields (Fault.Own h.site) (gatherShape h axis data indices) fun gathered =>
      gathered.1 < data.rank ∧ gathered.2 =
        ⟨data.dims.take gathered.1 ++ indices.dims ++ data.dims.drop (gathered.1 + 1)⟩ := by
  unfold gatherShape
  exact (h.axis_yields axis data.rank).bind fun a ha => .pure ⟨ha, rfl⟩

theorem filledShape_yields (h : Header) (ops : Operands) :
    Yields (Fault.Own h.site) (filledShape h ops) fun _ => True := by
  unfold filledShape
  refine (ops.constant_yields h 0).bind fun c _ => ?_
  refine Yields.bind (Q := fun _ => True) ?_ fun _ _ => .pure trivial
  refine (Yields.mapM (R := fun _ _ => True) fun d _ => ?_).imp fun _ _ => trivial
  split
  · exact .own rfl
  · exact .ok trivial

/-! ### Slices -/

theorem sliceBounds_yields (h : Header) (bounds : Option SliceBounds) (ops : Operands) :
    Yields (Fault.Own h.site) (sliceBounds h bounds ops) fun _ => True := by
  unfold sliceBounds
  split
  · exact .pure trivial
  · refine (ops.constant_yields h 1).bind fun _ _ => ?_
    refine (ops.constant_yields h 2).bind fun _ _ => ?_
    refine (ops.constant?_yields h 3).bind fun _ _ => ?_
    exact (ops.constant?_yields h 4).bind fun _ _ => .pure trivial

/-- The ranges of a slice lie within the shape, each along its own axis. -/
def AxisRange.Within (shape : Shape) (slices : List AxisRange) : Prop :=
  (slices.map AxisRange.axis).Nodup ∧
    ∀ s ∈ slices, s.axis < shape.rank ∧ s.start + s.length ≤ shape.extent s.axis

namespace SliceBounds

theorem clamp_yields (h : Header) (bound : Int64) (extent : Nat) :
    Yields (Fault.Own h.site) (clamp h bound extent) fun p => p ≤ extent := by
  unfold clamp
  dsimp only
  split
  · exact .ok (Nat.min_le_right _ _)
  · exact .own rfl

/-- One range after another, each clamped to the extent of its axis. -/
theorem resolveFrom_yields (h : Header) (shape : Shape) (done : List AxisRange)
    (rest : List (Int64 × Int64 × Int64)) (hdone : AxisRange.Within shape done) :
    Yields (Fault.Own h.site) (resolveFrom h shape done rest) (AxisRange.Within shape) := by
  induction rest generalizing done with
  | nil => exact .ok hdone
  | cons entry rest ih =>
    obtain ⟨start, stop, axis⟩ := entry
    unfold resolveFrom
    refine (h.axis_yields axis shape.rank).bind fun a ha => ?_
    split
    · exact .own rfl
    · rename_i hnew
      refine (clamp_yields h start (shape.extent a)).bind fun first hstart => ?_
      refine (clamp_yields h stop (shape.extent a)).bind fun last hstop => ?_
      refine ih _ ⟨?_, fun s hs => ?_⟩
      · rw [List.map_append, List.map_singleton, List.nodup_append']
        refine ⟨hdone.1, List.nodup_singleton _, fun b hb hb' => hnew ?_⟩
        obtain ⟨s, hs, rfl⟩ := List.mem_map.1 hb
        exact List.any_eq_true.2 ⟨s, hs, by simpa using hb'⟩
      · rcases List.mem_append.1 hs with hs | hs
        · exact hdone.2 s hs
        · obtain rfl := List.mem_singleton.1 hs
          refine ⟨ha, ?_⟩
          dsimp only
          omega

theorem resolve_yields (b : SliceBounds) (h : Header) (shape : Shape) :
    Yields (Fault.Own h.site) (b.resolve h shape) (AxisRange.Within shape) := by
  have hsort : ∀ slices, AxisRange.Within shape slices →
      AxisRange.Within shape (slices.mergeSort fun x y => decide (x.axis ≤ y.axis)) := by
    intro slices hslices
    have hperm := List.mergeSort_perm slices fun x y => decide (x.axis ≤ y.axis)
    exact ⟨(hperm.map _).nodup_iff.2 hslices.1, fun s hs => hslices.2 s (hperm.mem_iff.1 hs)⟩
  have hstart : AxisRange.Within shape [] := ⟨List.nodup_nil, fun s hs => nomatch hs⟩
  have hrest := fun entries => (resolveFrom_yields h shape [] entries hstart).bind
    fun slices hslices => Yields.pure (P := Fault.Own h.site) (hsort slices hslices)
  unfold resolve
  dsimp only
  split
  · exact .own_bind rfl
  · split
    · exact hrest _
    · split
      · exact .own_bind rfl
      · split
        · exact .own_bind rfl
        · exact hrest _

end SliceBounds

/-- The ranges of a slice lie within the shape of its input. -/
theorem keptSlices_yields (h : Header) (bounds : Option SliceBounds) (ops : Operands) :
    Yields (Fault.Own h.site) (keptSlices h bounds ops) fun slices =>
      ∃ x, ops.bound? 0 = some x ∧ AxisRange.Within x.shape slices := by
  unfold keptSlices
  refine (sliceBounds_yields h bounds ops).bind fun b _ => ?_
  refine (ops.shape_yields h 0).bind ?_
  rintro _ ⟨x, hx, rfl⟩
  exact (b.resolve_yields h x.shape).imp fun slices hslices => ⟨x, hx, hslices⟩

/-! ### All operators -/

/-- **Shape inference fails with faults of the operator only.** -/
theorem Operator.outputShape_yields (op : Operator) (ops : Operands) :
    Yields (Fault.Own op.header.site) (op.outputShape ops) fun _ => True := by
  have hx := ops.shape_yields op.header 0
  have hw := ops.shape_yields op.header 1
  unfold outputShape
  dsimp only
  split
  · exact hx.imp fun _ _ => trivial
  · exact hx.imp fun _ _ => trivial
  · exact (commonShape_yields op.header _ _).imp fun _ _ => trivial
  · exact (convShape_yields op.header _ _ ops).imp fun _ _ => trivial
  · exact hx.bind fun x _ => (poolWindows_yields op.header _ x).bind fun _ _ => .pure trivial
  · exact hx.bind fun x _ => (globalPoolShape_yields op.header x).imp fun _ _ => trivial
  · refine hx.bind fun x _ => (Yields.ensure_own rfl).bind fun _ _ => ?_
    exact (checkStatistics_yields op.header ops _).bind fun _ _ => .pure trivial
  · exact (gemmShape_yields op.header _ ops).imp fun _ _ => trivial
  · refine hx.bind fun a _ => hw.bind fun b _ => ?_
    exact (StackDims.ofShapes_yields op.header a b).bind fun _ _ => .pure trivial
  · refine hx.bind fun x _ => ?_
    exact (Yields.map (R := fun _ => True) (softmaxAxis_yields op.header _ _) fun _ h => h).bind
      fun _ _ => .pure trivial
  · exact hx.bind fun x _ => (Yields.ensure_own rfl).bind fun _ _ => .pure trivial
  · exact (lstmShape_yields op.header _ ops).imp fun _ _ => trivial
  · exact hx.bind fun x _ => (flattenShape_yields op.header _ x).imp fun _ _ => trivial
  · refine hx.bind fun x _ => (requestedShape_yields op.header _ ops).bind fun requested _ => ?_
    exact (reshapeTarget_yields op.header x requested).imp fun _ _ => trivial
  · exact (squeezeShape_yields op.header _ ops).imp fun _ _ => trivial
  · exact (unsqueezeShape_yields op.header _ ops).imp fun _ _ => trivial
  · exact (joinedShape_yields op.header _ _).map fun _ _ => trivial
  · exact hx.bind fun x _ => .pure trivial
  · refine hx.bind fun a _ => hw.bind fun b _ => ?_
    exact (gatherShape_yields op.header _ a b).bind fun _ _ => .pure trivial
  · exact (filledShape_yields op.header ops).imp fun _ _ => trivial
  · exact .ok trivial
  · exact (keptSlices_yields op.header _ ops).bind fun _ _ => hx.bind fun x _ => .pure trivial
  · refine hx.bind fun x _ => ?_
    exact (reducedAxes_yields op.header _ x.rank).bind fun _ _ => .pure trivial

end Lamina
