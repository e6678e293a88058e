import Mathlib
import Lamina.Operator.Lower
import Lamina.Proofs.Folding
import Lamina.Proofs.Layers
import Lamina.Proofs.Roles

/-!
# Lowering operators: the layers agree with the plan

**Theorem** (`Operator.lower_lowers`): where a shape was inferred for an operator, where tensors
stand for its operands (`Tensor.StandsFor`) and where the committed layout has one slot per axis,
lowering gives a tensor of the inferred shape. Its faults are those of the operator or of the
arithmetic; the layer graph refuses none of the layers, and no constant is put together wrongly.

Each rule is followed from its operands to its layer. What it needs to know about the shapes is what
inference has checked, so each lemma below starts from a shape that was inferred.
-/

namespace Lamina

variable {P : Fault → Prop} {site : Site} {g g' : LayerGraph} {ops : Operands} {s : Shape}
  {p : Placement}

/-! ### Tensors that stand for operands -/

/-- A valid tensor of the shape of an operand, and its value where that is known. -/
structure Tensor.StandsFor (g : LayerGraph) (t : Tensor) (op : Operand) : Prop where
  valid : t.Valid g
  shape : t.shape = op.shape
  constant : ∀ c, op.constant = some c → t = .constant c

theorem Tensor.StandsFor.mono {t : Tensor} {op : Operand} (h : t.StandsFor g op)
    (hg : ∀ o, g.HasOutlet o → g'.HasOutlet o) : t.StandsFor g' op :=
  ⟨h.valid.mono hg, h.shape, h.constant⟩

/-- A valid tensor of a shape. -/
def Tensor.HasShape (s : Shape) (t : Tensor) (g : LayerGraph) : Prop :=
  t.Valid g ∧ t.shape = s

/-- Tensors stand for the operands, and the output has its shape and a layout for it. -/
structure Placement.Ready (p : Placement) (g : LayerGraph) (ops : Operands) (out : Shape) :
    Prop where
  inputs : List.Forall₂ (Option.Rel fun op t => Tensor.StandsFor g t op) ops p.inputs
  shapes : p.shapes = [out]
  layouts : ∃ l, p.layouts = [l] ∧ l.rank = out.rank

namespace Placement

theorem Ready.grows (hp : p.Ready g ops s) (hg : g.Grows g') : p.Ready g' ops s := by
  refine ⟨hp.inputs.imp fun a b hab => ?_, hp.shapes, hp.layouts⟩
  cases hab with
  | none => exact .none
  | some hop => exact .some (hop.mono fun _ ho => ho.grows hg)

/-- What is known about an input and the tensor that is bound to it, at one position. -/
theorem Ready.rel (hp : p.Ready g ops s) (i : Nat) :
    Option.Rel (fun op t => Tensor.StandsFor g t op) (ops.bound? i) (p.input? i) := by
  unfold Operands.bound? input?
  have hlength := hp.inputs.length_eq
  by_cases hi : i < ops.length
  · have hi' : i < p.inputs.length := hlength ▸ hi
    have hrel := hp.inputs.get hi hi'
    rw [List.getElem?_eq_getElem hi, List.getElem?_eq_getElem hi']
    exact hrel
  · rw [List.getElem?_eq_none (not_lt.1 hi), List.getElem?_eq_none (hlength ▸ not_lt.1 hi)]
    exact .none

theorem Ready.bound?_of_input? (hp : p.Ready g ops s) {i : Nat} {t : Tensor}
    (ht : p.input? i = some t) : ∃ op, ops.bound? i = some op ∧ t.StandsFor g op := by
  have hrel := hp.rel i
  rw [ht] at hrel
  cases hop : ops.bound? i with
  | none => rw [hop] at hrel; cases hrel
  | some op =>
    rw [hop] at hrel
    cases hrel with
    | some hstands => exact ⟨op, rfl, hstands⟩

theorem Ready.input_yields (hp : p.Ready g ops s) (i : Nat) :
    Yields (Fault.Own p.header.site) (p.input i) fun t =>
      ∃ op, ops.bound? i = some op ∧ t.StandsFor g op := by
  unfold input
  split
  · rename_i t ht
    exact .ok (hp.bound?_of_input? ht)
  · exact .own rfl

/-- The tensor of an operand that is known to be bound. -/
theorem Ready.input_of_bound (hp : p.Ready g ops s) {i : Nat} {op : Operand}
    (hop : ops.bound? i = some op) :
    Yields (Fault.Own p.header.site) (p.input i) fun t => t.StandsFor g op :=
  (hp.input_yields i).imp fun t ⟨op', hop', ht⟩ => by
    obtain rfl := Option.some.inj (hop.symm.trans hop')
    exact ht

theorem constantOf_yields (p : Placement) (what : String) (t : Tensor) :
    Yields (Fault.Own p.header.site) (p.constantOf what t) fun c => t = .constant c := by
  unfold constantOf
  split
  · exact .ok rfl
  · exact .own rfl

theorem Ready.constant_yields (hp : p.Ready g ops s) (i : Nat) (what : String) :
    Yields (Fault.Own p.header.site) (p.constant i what) fun c =>
      ∃ op, ops.bound? i = some op ∧ c.shape = op.shape := by
  refine (hp.input_yields i).bind ?_
  rintro t ⟨op, hop, ht⟩
  refine (p.constantOf_yields what t).imp ?_
  rintro c rfl
  exact ⟨op, hop, ht.shape⟩

/-- The constant of an operand that is known to be bound. -/
theorem Ready.constant_of_bound (hp : p.Ready g ops s) {i : Nat} {op : Operand}
    (hop : ops.bound? i = some op) (what : String) :
    Yields (Fault.Own p.header.site) (p.constant i what) fun c => c.shape = op.shape :=
  (hp.constant_yields i what).imp fun c ⟨op', hop', hc⟩ => by
    obtain rfl := Option.some.inj (hop.symm.trans hop')
    exact hc

theorem Ready.constant?_yields (hp : p.Ready g ops s) (i : Nat) (what : String) :
    Yields (Fault.Own p.header.site) (p.constant? i what) fun c =>
      ∀ v, c = some v → ∃ op, ops.bound? i = some op ∧ v.shape = op.shape := by
  unfold constant?
  split
  · rename_i t ht
    obtain ⟨op, hop, hstands⟩ := hp.bound?_of_input? ht
    refine (p.constantOf_yields what t).map ?_
    rintro c rfl v hv
    exact ⟨op, hop, Option.some.inj hv ▸ hstands.shape⟩
  · exact .ok fun v hv => nomatch hv

theorem Ready.shape_yields (hp : p.Ready g ops s) : Yields P p.shape fun out => out = s := by
  unfold shape
  rw [hp.shapes]
  exact .ok rfl

theorem Ready.layout_yields (hp : p.Ready g ops s) :
    Yields P p.layout fun l => l.rank = s.rank := by
  obtain ⟨l, hl, hrank⟩ := hp.layouts
  unfold layout
  rw [hl]
  exact .ok hrank

/-! ### Inputs as run-time tensors -/

theorem firstSlots_yields (p : Placement) (rank : Nat) :
    Yields (Fault.Own p.header.site) (p.firstSlots rank) fun l => l.rank = rank := by
  unfold firstSlots
  split
  · rename_i hrank
    refine (Layout.ofSlots_rank_yields (Layout.nodup_take_all rank)).imp fun l hl => ?_
    rw [hl]
    exact List.length_take_of_le hrank
  · exact .own rfl

/-- An input as a handle; a constant is fed in under the first slots. -/
theorem Ready.handle_lowers (hp : p.Ready g ops s) {i : Nat} {op : Operand}
    (hop : ops.bound? i = some op) :
    Lowers p.header.site g (p.handle i) fun h g' => h.Valid g' ∧ h.shape = op.shape := by
  refine .lift_bind (hp.input_of_bound hop) fun t ht => ?_
  cases t with
  | handle h => exact .pure ⟨ht.valid, ht.shape⟩
  | constant c =>
    refine .lift_bind (p.firstSlots_yields _) fun l hl => ?_
    refine (Lowering.feed_lowers hl p.name).imp fun h g' _ hh => ?_
    exact ⟨hh.1, hh.2.1.trans ht.shape⟩

/-- An input as a handle under a layout of its rank. -/
theorem Ready.handleAs_lowers (hp : p.Ready g ops s) {i : Nat} {op : Operand}
    (hop : ops.bound? i = some op) {layout : Layout} (hrank : layout.rank = op.shape.rank) :
    Lowers p.header.site g (p.handleAs i layout) fun h g' =>
      h.Valid g' ∧ h.shape = op.shape ∧ h.layout = layout := by
  refine .lift_bind (hp.input_of_bound hop) fun t ht => ?_
  cases t with
  | handle h =>
    refine (Lowering.relayout_lowers (Handle.Valid.outlet ht.valid)
      (hrank.trans (congrArg Shape.rank ht.shape.symm)) p.name).imp fun h' g' _ hh => ?_
    exact ⟨hh.1, hh.2.1.trans ht.shape, hh.2.2⟩
  | constant c =>
    refine (Lowering.feed_lowers (hrank.trans (congrArg Shape.rank ht.shape.symm))
      p.name).imp fun h g' _ hh => ?_
    exact ⟨hh.1, hh.2.1.trans ht.shape, hh.2.2⟩

/-! ### Outputs -/

/-- A new layer and the handle on it. -/
theorem output_lowers (p : Placement) {kind : LayerKind} {inputs : List Outlet} {layout : Layout}
    (hinputs : ∀ o ∈ inputs, g.HasOutlet o) (hinner : kind.Inner) (hrank : layout.rank = s.rank) :
    Lowers site g (do return .handle (← p.add kind inputs s layout)) (Tensor.HasShape s) := by
  refine (Lowering.add_lowers hinputs hinner hrank p.name).bind fun h g' _ hh => ?_
  exact .pure ⟨hh.1, hh.2.1⟩

/-- The output of a layer that reads one handle. -/
theorem outputOn_lowers (p : Placement) {kind : LayerKind} {x : Handle} {layout : Layout}
    (hx : g.HasOutlet x.outlet) (hinner : kind.Inner) (hrank : layout.rank = s.rank) :
    Lowers site g (do return .handle (← p.add kind [x.outlet] s layout)) (Tensor.HasShape s) :=
  p.output_lowers (fun _ ho => List.mem_singleton.1 ho ▸ hx) hinner hrank

/-- An output that is only seen under another layout. -/
theorem relaid_lowers (p : Placement) {x : Handle} {layout : Layout} (hx : g.HasOutlet x.outlet)
    (hrank : layout.rank = x.shape.rank) :
    Lowers site g (do return .handle (← p.relayout x layout)) (Tensor.HasShape x.shape) := by
  refine (Lowering.relayout_lowers hx hrank p.name).bind fun h g' _ hh => ?_
  exact .pure ⟨hh.1, hh.2.1⟩

end Placement

/-! ### Elementwise operators -/

open Placement

/-- An operand keeps its shape when it is inverted. -/
theorem inverseOperand_lowers (p : Placement) (op : Pointwise) {t : Tensor} (ht : t.Valid g) :
    Lowers p.header.site g (inverseOperand p op t) (Tensor.HasShape t.shape) := by
  unfold inverseOperand
  split
  · rename_i c
    refine .lift_bind (Kernel.unary_yields _ c.data) fun data hdata => ?_
    refine .lift_bind (Constant.ofParts_yields c.layout_fits (hdata.trans c.size_eq))
      fun c' hc' => ?_
    exact .pure ⟨trivial, hc'.1⟩
  · rename_i h
    refine (Lowering.addOn_lowers (Handle.Valid.outlet ht) (by trivial)
      (Handle.Valid.rank ht) _).bind fun h' g' _ hh' => ?_
    exact .pure ⟨hh'.1, hh'.2.1⟩
  · rename_i c
    refine .lift_bind (Kernel.unary_yields _ _) fun data hdata => ?_
    refine .lift_bind (Constant.ofParts_yields (c.cast .float).layout_fits
      (hdata.trans (c.cast .float).size_eq)) fun c' hc' => ?_
    exact .pure ⟨trivial, hc'.1.trans (c.shape_cast .float)⟩
  · exact .fail rfl
  · exact .pure ⟨ht, rfl⟩

/-- The layout of an elementwise result comes from its first handle, if there is one. -/
theorem eltwiseLayout_yields (hp : p.Ready g ops s) (mode : Alignment) {committed : Layout}
    (hcommitted : committed.rank = s.rank) :
    Yields (Fault.Own p.header.site) (eltwiseLayout p mode s committed)
      fun l => l.rank = s.rank := by
  unfold eltwiseLayout
  dsimp only
  split
  · exact .ok hcommitted
  · rename_i h hfirst
    obtain ⟨t, ht, heq⟩ := List.exists_of_findSome?_eq_some hfirst
    have hvalid : h.Valid g := by
      split at heq
      · rename_i h'
        obtain rfl := Option.some.inj heq
        obtain ⟨op, _, hrel⟩ := forall₂_mem_left hp.inputs.flip ht
        cases hrel with
        | some hstands => exact hstands.valid
      · cases heq
    refine (Broadcast.offset_yields _ _ _ _).bind fun k hk => ?_
    exact Broadcast.embedLayout_yields _ _ (hvalid.rank ▸ hk)

/-- Every operand is brought to the common shape. -/
theorem lowerOperand_lowers (hp : p.Ready g ops s) (op : Pointwise) {mode : Alignment}
    {target : Layout} (hs : ∀ r ∈ ops.shapes, Broadcast.Aligned mode r s)
    (htarget : target.rank = s.rank) (i : Nat) :
    Lowers p.header.site g (lowerOperand p op mode s target i) fun o g' => g'.HasOutlet o := by
  unfold lowerOperand
  refine .lift_bind (hp.input_yields i) ?_
  rintro t ⟨x, hx, ht⟩
  have haligned : Broadcast.Aligned mode t.shape s := ht.shape ▸ hs _ (Operands.mem_shapes hx)
  dsimp only
  refine Lowers.either (S := Tensor.HasShape t.shape) ⟨ht.valid, rfl⟩
    (inverseOperand_lowers p op ht.valid) ?_
  rintro t' g' ⟨hvalid, hshape⟩
  refine .lift_bind (Yields.of_faults fun f hf =>
    (Broadcast.offset_yields p.header.site mode _ _).fault hf) fun k hk => ?_
  have hembeds : Broadcast.Embeds t'.shape k s := by
    rw [hshape] at hk ⊢
    exact haligned.2 _ k hk
  refine (Lowering.fit_lowers hvalid hembeds htarget p.name).bind fun t'' g'' _ ht'' => ?_
  cases t'' with
  | handle h => exact .pure (Handle.Valid.outlet ht''.1)
  | constant c =>
    have hrank : target.rank = (c.cast .float).shape.rank := by
      rw [c.shape_cast, htarget]
      exact congrArg Shape.rank ht''.2.symm
    exact (Lowering.feed_lowers hrank p.name).bind fun h g₃ _ hh => .pure hh.1.outlet

/-- The only input, passed on. -/
theorem passOn_lowers (hp : p.Ready g ops s)
    (hs : ∀ op, ops.bound? 0 = some op → op.shape = s) :
    Lowers p.header.site g (liftM (p.input 0)) (Tensor.HasShape s) := by
  refine .lift ((hp.input_yields 0).imp ?_)
  rintro t ⟨op, hop, ht⟩
  exact ⟨ht.valid, ht.shape.trans (hs op hop)⟩

/-- A single operand has the shape of the result. -/
theorem shapes_of_length_one (hp : p.Ready g ops s) (hlength : p.inputs.length = 1) {op : Operand}
    (hop : ops.bound? 0 = some op) : ops.shapes = [op.shape] := by
  obtain ⟨o, rfl⟩ := List.length_eq_one_iff.1 (hp.inputs.length_eq.trans hlength)
  obtain rfl : o = some op := by simpa [Operands.bound?] using hop
  rfl

/-- Operands of a common shape become the inputs of one layer. -/
theorem lowerEltwise_lowers (hp : p.Ready g ops s) (op : Pointwise) {mode : Alignment}
    (hs : commonShape p.header mode ops.shapes = .ok s) :
    Lowers p.header.site g (lowerEltwise p op mode) (Tensor.HasShape s) := by
  unfold lowerEltwise
  split
  · rename_i hlength
    refine passOn_lowers hp fun x hx => ?_
    rw [shapes_of_length_one hp hlength hx] at hs
    exact pure_eq_ok.1 hs
  · have haligned := (commonShape_yields p.header mode ops.shapes).value hs
    refine .lift_bind hp.shape_yields ?_
    rintro _ rfl
    refine .lift_bind hp.layout_yields fun committed hcommitted => ?_
    refine .lift_bind (eltwiseLayout_yields hp mode hcommitted) fun target htarget => ?_
    refine (Lowers.mapM (fun o _ _ ho hgrows => ho.grows hgrows) fun i _ g' hgrows =>
      lowerOperand_lowers (hp.grows hgrows) op haligned htarget i).bind
        fun outlets g' _ houtlets => ?_
    refine p.output_lowers houtlets ?_ htarget
    cases op <;> trivial

theorem lowerActivation_lowers (hp : p.Ready g ops s) (function : Activation)
    (boundsAreInputs : Bool) {x : Operand} (hx : ops.bound? 0 = some x) :
    Lowers p.header.site g (lowerActivation p function boundsAreInputs)
      (Tensor.HasShape x.shape) := by
  unfold lowerActivation
  refine .lift_bind (hp.constant?_yields 1 _) fun low _ => ?_
  refine .lift_bind (hp.constant?_yields 2 _) fun high _ => ?_
  refine .lift_bind (resolveFunction_yields p.header function boundsAreInputs low high)
    fun resolved _ => ?_
  refine (hp.handle_lowers hx).bind fun h g' _ hh => ?_
  rw [← hh.2]
  exact p.outputOn_lowers hh.1.outlet trivial hh.1.rank

/-- Both coefficients have one value per channel. -/
theorem normCoefficients_yields (epsilon : Binary32) (scale bias mean variance : Constant) :
    Yields (Fault.Own site) (normCoefficients epsilon scale bias mean variance)
      fun _ => True := by
  unfold normCoefficients
  refine (Kernel.binary_yields _ _ _).bind fun shifted _ => ?_
  refine (Kernel.unary_yields _ shifted).bind fun root _ => ?_
  refine (Kernel.unary_yields _ root).bind fun inverse _ => ?_
  refine (Kernel.binary_yields _ _ inverse).bind fun gamma hgamma => ?_
  refine (Kernel.binary_yields _ _ gamma).bind fun shift hshift => ?_
  refine (Kernel.binary_yields _ _ shift).bind fun beta hbeta => ?_
  refine (Layout.ofSlots_rank_yields (by decide)).bind fun layout hlayout => ?_
  have hfits : ∀ n, layout.fits (Shape.rank ⟨[n]⟩) = true := fun n =>
    Layout.fits_of_rank hlayout
  have hcount : ∀ n, Shape.count ⟨[n]⟩ = n := fun n => by simp [Shape.count]
  refine (Constant.ofParts_yields (hfits _) (hgamma.2.trans (hcount _).symm)).bind fun _ _ => ?_
  refine (Constant.ofParts_yields (hfits _) ?_).bind fun _ _ => .pure trivial
  rw [hcount, hbeta.2, hbeta.1, hshift.2, hshift.1, hgamma.2]

/-- A layer that works under the committed layout. -/
theorem lowerInPlace_lowers (hp : p.Ready g ops s) {kind : LayerKind} (hinner : kind.Inner)
    {x : Operand} (hx : ops.bound? 0 = some x) (hrank : s.rank = x.shape.rank) :
    Lowers p.header.site g (lowerInPlace p kind) (Tensor.HasShape s) := by
  unfold lowerInPlace
  refine .lift_bind hp.shape_yields ?_
  rintro _ rfl
  refine .lift_bind hp.layout_yields fun layout hlayout => ?_
  refine (hp.handleAs_lowers hx (hlayout.trans hrank)).bind fun h g' _ hh => ?_
  exact p.outputOn_lowers hh.1.outlet hinner hlayout

theorem lowerBatchNorm_lowers (hp : p.Ready g ops s) (epsilon : Binary32) {x : Operand}
    (hx : ops.bound? 0 = some x) (hrank : s.rank = x.shape.rank) :
    Lowers p.header.site g (lowerBatchNorm p epsilon) (Tensor.HasShape s) := by
  unfold lowerBatchNorm
  refine .lift_bind (hp.constant_yields 1 _) fun scale _ => ?_
  refine .lift_bind (hp.constant_yields 2 _) fun bias _ => ?_
  refine .lift_bind (hp.constant_yields 3 _) fun mean _ => ?_
  refine .lift_bind (hp.constant_yields 4 _) fun variance _ => ?_
  refine .lift_bind (normCoefficients_yields epsilon scale bias mean variance) fun r _ => ?_
  exact lowerInPlace_lowers hp (by trivial) hx hrank

/-- A softmax works under a layout of its own. -/
theorem lowerSoftmax_lowers (hp : p.Ready g ops s) (axis : Int64) {x : Operand}
    (hx : ops.bound? 0 = some x) (hrank : s.rank = x.shape.rank) :
    Lowers p.header.site g (lowerSoftmax p axis) (Tensor.HasShape s) := by
  unfold lowerSoftmax
  refine .lift_bind hp.shape_yields ?_
  rintro _ rfl
  refine .lift_bind (softmaxSlots_yields p.header axis _) fun slots ⟨hnodup, hlength⟩ => ?_
  refine .lift_bind (Layout.ofSlots_rank_yields hnodup) fun layout hlayout => ?_
  have hlayout : layout.rank = _ := hlayout.trans hlength
  refine (hp.handleAs_lowers hx (hlayout.trans hrank)).bind fun h g' _ hh => ?_
  exact p.outputOn_lowers hh.1.outlet trivial hlayout

/-! ### Windowed operators -/

/-- Windowed tensors have at most two spatial axes. -/
theorem windowLayout_yields (p : Placement) (rank : Nat) :
    Yields (Fault.Own p.header.site) (windowLayout p rank) fun l =>
      Window.slots p.header.site rank = .ok l.slots ∧ l.rank = rank ∧ rank ≤ 4 := by
  have hslots := Window.slots_yields p.header.site rank
  refine (Yields.of_faults fun f hf => hslots.fault hf).bind fun slots hok => ?_
  obtain ⟨hnodup, hlength, hle⟩ := hslots.value hok
  refine (Layout.ofSlots_yields hnodup).imp fun l hl => ?_
  exact ⟨hl ▸ hok, (congrArg List.length hl).trans hlength, hle⟩

/-- Filters of up to two spatial axes are stored with four axes. -/
theorem convKind_yields (p : Placement) (group channels : Nat) {weights : Constant}
    (hrank : weights.shape.rank ≤ 4) (bias : Option Constant) (params : ConvGeometry) :
    Yields (Fault.Own p.header.site) (convKind p group channels weights bias params) fun kind =>
      kind.Inner ∧ kind.window? =
        some ⟨params.kernel, params.strides, params.pads, params.dilations⟩ := by
  have htake : weights.shape.dims.take 4 = weights.shape.dims := List.take_of_length_le hrank
  unfold convKind
  dsimp only
  rw [htake]
  have hcount : Shape.count ⟨weights.shape.dims ++ List.replicate (4 - weights.shape.rank) 1⟩ =
      weights.shape.count := by simp [Shape.count]
  refine (Constant.reshaped_yields hcount).bind fun filter hfilter => ?_
  have hfour : filter.shape.rank = 4 := by
    rw [hfilter]
    simp only [Shape.rank, List.length_append, List.length_replicate] at hrank ⊢
    omega
  have hfits : ∀ l : Layout, l.rank = 4 → l.fits filter.shape.rank = true := fun l hl =>
    Layout.fits_of_rank (hl.trans hfour.symm)
  split
  · refine (Layout.ofSlots_rank_yields (by decide)).bind fun l hl => ?_
    exact (Constant.toLayout_yields (hfits l hl)).bind
      fun _ _ => .pure ⟨trivial, rfl⟩
  · split
    · refine (Layout.ofSlots_rank_yields (by decide)).bind fun l hl => ?_
      exact (Constant.toLayout_yields (hfits l hl)).bind
        fun _ _ => .pure ⟨trivial, rfl⟩
    · exact .own rfl

theorem channelVector_yields {c : Constant} (hc : c.shape.rank = 1) :
    Yields P (channelVector c) fun _ => True := by
  refine (Layout.ofSlots_rank_yields (by decide)).bind fun l hl => ?_
  refine (Constant.toLayout_yields (Layout.fits_of_rank ?_)).imp fun _ _ => trivial
  rw [c.shape_cast, hc]
  exact hl

/-- An optional constant is prepared if it is there. -/
theorem prepare_lowers {f : Constant → Except Fault Constant} {c : Option Constant}
    (h : ∀ v, c = some v → Yields (Fault.Own site) (f v) fun _ => True) :
    Lowers site g (c.mapM fun v => (f v : Lowering Constant)) fun _ _ => True := by
  cases c with
  | none => exact .pure trivial
  | some v => exact (Lowers.lift (Q := fun _ _ => True) (h v rfl)).map fun _ _ _ => trivial

/-- A layer that can be appended: what it reads is there, under the layout of what it gives. -/
structure Sliding.Valid (g : LayerGraph) (c : Sliding) : Prop where
  inner : c.kind.Inner
  input : c.input.Valid g
  layout : c.input.layout = c.layout
  rank : c.layout.rank = c.shape.rank

theorem Placement.slide_lowers (p : Placement) {c : Sliding} (hc : c.Valid g) :
    Lowers site g (p.slide c) fun h g' =>
      h.Valid g' ∧ h.shape = c.shape ∧ h.layout = c.layout :=
  Lowering.addOn_lowers hc.input.outlet hc.inner hc.rank p.name

/-- The output of a layer that slides a window. -/
theorem Placement.slideOut_lowers (p : Placement) {c : Sliding} (hc : c.Valid g) :
    Lowers site g (do return .handle (← p.slide c)) (Tensor.HasShape c.shape) :=
  (p.slide_lowers hc).bind fun _ _ _ hh => .pure ⟨hh.1, hh.2.1⟩

/-- A layer that slides windows over the spatial axes of what it reads. -/
structure Sliding.Over (site : Site) (window : Window) (axes : List AxisWindow) (c : Sliding) :
    Prop where
  /-- The spatial axes are on height and width. -/
  slots : Window.slots site c.shape.rank = .ok c.layout.slots
  /-- There is room for the windows. -/
  resolved : ∃ weights, window.resolve site (c.input.shape.dims.drop 2) weights = .ok axes
  /-- The padding is the same on either side. -/
  even : axes.map AxisWindow.before = axes.map AxisWindow.after
  /-- What comes out has one entry per position. -/
  output : c.shape.dims.drop 2 = axes.map AxisWindow.output

/-- The windows along the axes as the window of a layer. -/
def PlaneWindow.ofAxes (axes : List AxisWindow) (dilations : Planar) : PlaneWindow :=
  ⟨.ofList (axes.map AxisWindow.kernel) 1, .ofList (axes.map AxisWindow.stride) 1,
    .ofList (axes.map AxisWindow.before) 0, dilations⟩

/-- A convolution has constant weights, of which inference has checked the rank. -/
theorem convSliding_lowers (hp : p.Ready g ops s) (group : Nat) (window : Window)
    (hs : convShape p.header group window ops = .ok s) :
    Lowers p.header.site g (convSliding p group window) fun c g' => c.Valid g' ∧ c.shape = s ∧
      ∃ axes, c.Over p.header.site window axes ∧ c.kind.window? =
        some (.ofAxes axes (.ofList (axes.map AxisWindow.dilation) 1)) := by
  obtain ⟨x, w, axes, hx, hw, haxes, hout, hbias⟩ :=
    (convShape_yields p.header group window ops).value hs
  obtain ⟨hwrank, hlength⟩ := (convWindows_yields p.header group window x.shape w.shape).value haxes
  have hrank : s.rank = x.shape.rank := by rw [hout, Window.rank_outputShape, hlength]
  unfold convSliding
  refine .lift_bind hp.shape_yields ?_
  rintro _ rfl
  refine .lift_bind (windowLayout_yields p _) fun layout ⟨hslots, hlayout, hfour⟩ => ?_
  refine .lift_bind (hp.constant_of_bound hw _) fun weights hweights => ?_
  refine .lift_bind (hp.constant?_yields 2 _) fun bias hbound => ?_
  refine (prepare_lowers fun b hb => ?_).bind fun bias' g' hgrows _ => ?_
  · obtain ⟨op, hop, hshape⟩ := hbound b hb
    exact channelVector_yields (hshape ▸ hbias op hop)
  refine ((hp.grows hgrows).handleAs_lowers hx (hlayout.trans hrank)).bind fun h g'' _ hh => ?_
  have hfilters : (weights.cast .float).shape = w.shape := (weights.shape_cast _).trans hweights
  -- the windows are the ones that inference has found
  rw [hh.2.1, hfilters]
  refine .lift_bind (.of_eq_ok haxes rfl) ?_
  rintro _ rfl
  refine .lift_bind (Window.evenPads_yields p.header.site axes) ?_
  rintro _ ⟨heven, rfl⟩
  have hweightsRank : (weights.cast .float).shape.rank ≤ 4 := by
    rw [hfilters, hwrank, ← hrank]
    exact hfour
  refine .lift_bind (convKind_yields p group _ hweightsRank bias' _) fun kind hkind => ?_
  refine .pure ⟨⟨hkind.1, hh.1, hh.2.2, hlayout⟩, rfl, axes, ⟨hslots, ?_, heven, ?_⟩, hkind.2⟩
  · exact ⟨_, by rw [hh.2.1]; exact resolve_of_convWindows haxes⟩
  · rw [hout]
    rfl

theorem lowerConv_lowers (hp : p.Ready g ops s) (group : Nat) (window : Window)
    (hs : convShape p.header group window ops = .ok s) :
    Lowers p.header.site g (lowerConv p group window) (Tensor.HasShape s) := by
  refine (convSliding_lowers hp group window hs).bind ?_
  rintro c g' - ⟨hc, rfl, -⟩
  exact p.slideOut_lowers hc

theorem poolSliding_lowers (hp : p.Ready g ops s) (kind : PoolKind) (window : Window) {x : Operand}
    (hx : ops.bound? 0 = some x) {axes : List AxisWindow}
    (haxes : poolWindows p.header window x.shape = .ok axes)
    (hs : s = Window.outputShape x.shape (x.shape.extent 1) axes) :
    Lowers p.header.site g (poolSliding p kind window) fun c g' => c.Valid g' ∧ c.shape = s ∧
      c.Over p.header.site window axes ∧ c.kind.window? = some (.ofAxes axes ⟨1, 1⟩) := by
  have hrank : s.rank = x.shape.rank := by
    rw [hs, Window.rank_outputShape, (poolWindows_yields p.header window x.shape).value haxes]
  unfold poolSliding
  refine .lift_bind hp.shape_yields ?_
  rintro _ rfl
  refine .lift_bind (windowLayout_yields p _) fun layout ⟨hslots, hlayout, _⟩ => ?_
  refine (hp.handleAs_lowers hx (hlayout.trans hrank)).bind fun h g' _ hh => ?_
  rw [hh.2.1]
  refine .lift_bind (.of_eq_ok haxes rfl) ?_
  rintro _ rfl
  refine .lift_bind (Window.evenPads_yields p.header.site axes) ?_
  rintro _ ⟨heven, rfl⟩
  refine .pure ⟨⟨trivial, hh.1, hh.2.2, hlayout⟩, rfl, ⟨hslots, ?_, heven, ?_⟩, rfl⟩
  · exact ⟨_, by rw [hh.2.1]; exact resolve_of_poolWindows haxes⟩
  · rw [hs]
    rfl

theorem lowerPool_lowers (hp : p.Ready g ops s) (kind : PoolKind) (window : Window) {x : Operand}
    (hx : ops.bound? 0 = some x) {axes : List AxisWindow}
    (haxes : poolWindows p.header window x.shape = .ok axes)
    (hs : s = Window.outputShape x.shape (x.shape.extent 1) axes) :
    Lowers p.header.site g (lowerPool p kind window) (Tensor.HasShape s) := by
  refine (poolSliding_lowers hp kind window hx haxes hs).bind ?_
  rintro c g' - ⟨hc, rfl, -⟩
  exact p.slideOut_lowers hc

theorem lowerGlobalPool_lowers (hp : p.Ready g ops s) (kind : PoolKind) {x : Operand}
    (hx : ops.bound? 0 = some x) (hrank : s.rank = x.shape.rank) :
    Lowers p.header.site g (lowerGlobalPool p kind) (Tensor.HasShape s) := by
  unfold lowerGlobalPool
  refine .lift_bind hp.shape_yields ?_
  rintro _ rfl
  refine .lift_bind (windowLayout_yields p _) fun layout ⟨_, hlayout, _⟩ => ?_
  refine (hp.handleAs_lowers hx (hlayout.trans hrank)).bind fun h g' _ hh => ?_
  exact p.outputOn_lowers hh.1.outlet trivial hlayout

/-! ### Matrices and recurrences -/

/-- A free term for all rows, without rows of its own, is a free term for one row. -/
theorem embeds_row {c : Shape} {m n : Nat} (h : Broadcast.Aligned .trailing c ⟨[m, n]⟩)
    (hrows : ¬ (2 < c.rank ∨ (c.rank = 2 ∧ c.extent 0 ≠ 1))) :
    Broadcast.Embeds c (2 - c.rank) ⟨[1, n]⟩ := by
  obtain ⟨hrank, hstretch⟩ := Broadcast.aligned_trailing.1 h
  have hrow : c.rank ≤ Shape.rank ⟨[1, n]⟩ := hrank
  refine (Broadcast.embeds_trailing hrow).2 ?_
  obtain ⟨dims⟩ := c
  change Stretches (List.replicate (2 - dims.length) 1 ++ dims) [1, n]
  replace hstretch : Stretches (List.replicate (2 - dims.length) 1 ++ dims) [m, n] := hstretch
  match dims, hrank with
  | [], _ => simp [Stretches]
  | [d], _ => simpa [Stretches] using hstretch
  | [d, e], _ =>
    simp [Shape.rank, Shape.extent] at hrows
    simp_all [Stretches]

/-- A free term that is the same for all rows can be brought to one row. -/
theorem freeRow_yields (h : Header) (params : Gemm) {c : Constant} {m n : Nat}
    (hc : Broadcast.Aligned .trailing c.shape ⟨[m, n]⟩) :
    Yields (Fault.Own h.site) (freeRow h params c n) fun _ => True := by
  unfold freeRow
  refine .refuse rfl fun hrows => ?_
  refine ((Broadcast.shapes_trailing_yields h.site _ c.shape).map (R := fun _ => True)
    fun _ _ => trivial).bind fun _ _ => ?_
  refine (Broadcast.constant_yields (embeds_row hc hrows)).bind fun expanded hexpanded => ?_
  refine (Buffer.scaled_yields _ _).bind fun data hdata => ?_
  refine (Layout.ofSlots_rank_yields (by decide)).bind fun layout hlayout => ?_
  have hfits : layout.fits (Shape.rank ⟨[n]⟩) = true :=
    Layout.fits_of_rank hlayout
  refine (Constant.ofParts_yields hfits ?_).imp fun _ _ => trivial
  rw [hdata, Buffer.size_cast, Constant.size_source, hexpanded]
  simp [Shape.count]

/-- The second factor is a constant matrix, laid out as the layer wants it. -/
theorem lowerGemm_lowers (hp : p.Ready g ops s) (params : Gemm)
    (hs : gemmShape p.header params ops = .ok s) :
    Lowers p.header.site g (lowerGemm p params) (Tensor.HasShape s) := by
  obtain ⟨a, b, d, ha, hb, hd, rfl, hfree⟩ := (gemmShape_yields p.header params ops).value hs
  obtain ⟨harank, hbrank⟩ := (params.dims_yields p.header a.shape b.shape).value hd
  unfold lowerGemm
  refine .lift_bind (hp.constant_of_bound hb _) fun weights hweights => ?_
  refine .lift_bind (hp.constant?_yields 2 _) fun bias hbound => ?_
  refine .lift_bind (hp.input_of_bound ha) fun t ht => ?_
  rw [ht.shape, hweights]
  refine .lift_bind (.of_eq_ok hd rfl) ?_
  rintro _ rfl
  -- the right factor, scaled and laid out
  refine .lift_bind (Buffer.scaled_yields _ _) fun scaled hscaled => ?_
  have hsize : scaled.size = b.shape.count := by
    rw [hscaled, Buffer.size_cast, Constant.size_source, hweights]
  refine .lift_bind (Constant.ofBuffer_yields hsize) fun unpacked hunpacked => ?_
  refine .lift_bind (Layout.ofSlots_rank_yields ?_) fun layout hlayout => ?_
  · cases params.transB <;> decide
  have hmatrix : ∀ transposed, (matrixSlots transposed).length = 2 := by decide
  have hlayout : layout.rank = unpacked.shape.rank := by
    rw [hlayout, hmatrix, hunpacked.1, hbrank]
  refine .lift_bind (Constant.toLayout_yields (Layout.fits_of_rank hlayout)) fun laid _ => ?_
  -- the free term, of which inference has checked that it embeds at the end
  refine (prepare_lowers fun c hc => ?_).bind fun freeTerm g' hgrows _ => ?_
  · obtain ⟨op, hop, hshape⟩ := hbound c hc
    exact freeRow_yields p.header params (hshape ▸ hfree op hop)
  -- the left factor, which has two axes as well
  refine .lift_bind (Layout.ofSlots_rank_yields ?_) fun rows hrows => ?_
  · cases params.transA <;> decide
  have hrows : rows.rank = a.shape.rank := by rw [hrows, hmatrix, harank]
  refine ((hp.grows hgrows).handleAs_lowers ha hrows).bind fun h g'' _ hh => ?_
  refine .lift_bind (Layout.ofSlots_rank_yields (by decide)) fun target htarget => ?_
  exact p.outputOn_lowers hh.1.outlet trivial htarget

/-- Only stacks of matrices with a constant right factor are lowered. -/
theorem lowerMatMul_lowers (hp : p.Ready g ops s) {a b : Operand} (ha : ops.bound? 0 = some a)
    (hb : ops.bound? 1 = some b) {d : StackDims}
    (hd : StackDims.ofShapes p.header a.shape b.shape = .ok d) (hs : d.output = s) :
    Lowers p.header.site g (lowerMatMul p) (Tensor.HasShape s) := by
  have hrank := ((StackDims.ofShapes_yields p.header a.shape b.shape).value hd).2
  unfold lowerMatMul
  refine .lift_bind (hp.constant_of_bound hb _) fun weights hweights => ?_
  rw [hweights]
  dsimp only
  split
  · exact .fail_bind rfl
  · rename_i hright
    replace hright : b.shape.rank = 2 := not_not.1 hright
    refine .lift_bind (hp.input_of_bound ha) fun t ht => ?_
    rw [ht.shape]
    split
    · exact .fail rfl
    · rename_i slots hslots
      -- there are slots for few ranks only
      obtain ⟨hnodup, hlength, hmany⟩ :
          slots.Nodup ∧ slots.length = a.shape.rank ∧ 2 ≤ a.shape.rank := by
        generalize a.shape.rank = rank at hslots
        unfold stackSlots? at hslots
        split at hslots <;> cases hslots <;> decide
      refine .lift_bind (Layout.ofSlots_rank_yields hnodup) fun layout hlayout => ?_
      have hlayout : layout.rank = a.shape.rank := hlayout.trans hlength
      refine .lift_bind (Layout.ofSlots_rank_yields (by decide)) fun columns hcolumns => ?_
      have hfits : columns.fits (weights.cast .float).shape.rank = true := by
        refine Layout.fits_of_rank ?_
        rw [weights.shape_cast, hweights, hright]
        exact hcolumns
      refine .lift_bind (Constant.toLayout_yields hfits) fun laid _ => ?_
      refine .lift_bind hp.shape_yields ?_
      rintro _ rfl
      refine (hp.handleAs_lowers ha hlayout).bind fun h g' _ hh => ?_
      refine p.outputOn_lowers hh.1.outlet trivial (hlayout.trans ?_)
      rw [← hs, hrank hmany hright]

theorem gateSequence_lt : ∀ s ∈ gateSequence, s < 4 := by decide

/-- Reordering gates picks their blocks. -/
theorem inGateSequence_eq_pickRows (data : Array Binary32) (block : Nat) :
    inGateSequence data block = pickRows 1 4 block gateSequence data := by
  simp [inGateSequence, pickRows_eq_rows, run, Nat.succ_mul]

/-- Four blocks in another order are as many values. -/
theorem size_inGateSequence {data : Array Binary32} {block : Nat} (h : data.size = 4 * block) :
    (inGateSequence data block).size = 4 * block := by
  rw [inGateSequence_eq_pickRows, size_pickRows (h.trans (Nat.one_mul _).symm) gateSequence_lt,
    Nat.one_mul]
  rfl

/-- The weights of the four gates in the order of the layer. -/
theorem stackedGates_yields {hidden columns : Nat} {weights : Constant}
    (h : weights.shape.dims = [1, 4 * hidden, columns]) :
    Yields P (stackedGates hidden weights) fun _ => True := by
  have hrows : weights.shape.extent 1 = 4 * hidden := by simp [Shape.extent, h]
  have hcolumns : weights.shape.extent 2 = columns := by simp [Shape.extent, h]
  have hcount : weights.floats.size = 4 * (hidden * columns) := by
    rw [Constant.size_floats, Shape.count, h]
    simp [Nat.mul_assoc]
  unfold stackedGates
  rw [hrows, hcolumns]
  refine (Layout.ofSlots_rank_yields (by decide)).bind fun layout hlayout => ?_
  have hfits : layout.fits (Shape.rank ⟨[4 * hidden, columns]⟩) = true :=
    Layout.fits_of_rank hlayout
  refine (Constant.ofParts_yields hfits ?_).imp fun _ _ => trivial
  rw [Buffer.size, size_inGateSequence hcount]
  simp [Shape.count, Nat.mul_assoc]

/-- A bias is the sum of its two halves. -/
theorem gateBias_yields {hidden : Nat} {bias : Constant}
    (h : bias.shape.dims = [1, 8 * hidden]) :
    Yields (Fault.Own site) (gateBias hidden bias) fun _ => True := by
  have hcount : bias.floats.size = 8 * hidden := by
    rw [Constant.size_floats, Shape.count, h]
    simp
  unfold gateBias
  refine (Kernel.binary_yields _ _ _).bind fun sum hsum => ?_
  refine (Layout.ofSlots_rank_yields (by decide)).bind fun layout hlayout => ?_
  have hfits : layout.fits (Shape.rank ⟨[4 * hidden]⟩) = true :=
    Layout.fits_of_rank hlayout
  refine (Constant.ofParts_yields hfits ?_).imp fun _ _ => trivial
  have hinput : (bias.floats.extract 0 (4 * hidden)).size = 4 * hidden := by
    rw [Array.size_extract, hcount]
    omega
  rw [hsum.2, Buffer.size, size_inGateSequence hinput]
  simp [Shape.count]

theorem refuseInput_yields (p : Placement) (i : Nat) (what : String) :
    Yields (Fault.Own p.header.site) (refuseInput p i what) fun _ => True :=
  (Yields.ensure_own rfl).imp fun _ _ => trivial

theorem refuseState_yields (hp : p.Ready g ops s) (i : Nat) (what : String) :
    Yields (Fault.Own p.header.site) (refuseState p i what) fun _ => True := by
  refine (hp.constant?_yields i what).bind fun c _ => ?_
  cases c with
  | none => exact .pure trivial
  | some c => exact (Yields.ensure_own rfl).imp fun _ _ => trivial

/-- What a recurrent unit does not support is refused before any layer is made. -/
theorem lowerLstm_lowers (hp : p.Ready g ops s) (hidden : Nat) (reverse : Bool)
    (hs : lstmShape p.header hidden ops = .ok s) :
    Lowers p.header.site g (lowerLstm p hidden reverse) (Tensor.HasShape s) := by
  obtain ⟨x, w, r, features, hx, hw, hr, hrank, hxrank, hwdims, hrdims, hbias⟩ :=
    (lstmShape_yields p.header hidden ops).value hs
  unfold lowerLstm
  refine .lift_bind (refuseInput_yields p 4 _) fun _ _ => ?_
  refine .lift_bind (refuseInput_yields p 7 _) fun _ _ => ?_
  refine .lift_bind (refuseState_yields hp 5 _) fun _ _ => ?_
  refine .lift_bind (refuseState_yields hp 6 _) fun _ _ => ?_
  refine .lift_bind (hp.constant_of_bound hw _) fun inputs hinputs => ?_
  refine .lift_bind (stackedGates_yields (hinputs ▸ hwdims)) fun inputs' _ => ?_
  refine .lift_bind (hp.constant_of_bound hr _) fun recurrent hrecurrent => ?_
  refine .lift_bind (stackedGates_yields (hrecurrent ▸ hrdims)) fun recurrent' _ => ?_
  refine .lift_bind (hp.constant?_yields 3 _) fun bias hbound => ?_
  refine (prepare_lowers fun b hb => ?_).bind fun freeTerm g' hgrows _ => ?_
  · obtain ⟨op, hop, hshape⟩ := hbound b hb
    exact gateBias_yields (hshape ▸ hbias op hop)
  refine .lift_bind (Layout.ofSlots_rank_yields (by decide)) fun layout hlayout => ?_
  have hlayout : layout.rank = x.shape.rank := hlayout.trans hxrank.symm
  refine ((hp.grows hgrows).handleAs_lowers hx hlayout).bind fun h g'' hgrows' hh => .read ?_
  refine (Lowering.append_lowers (fun _ ho => List.mem_singleton.1 ho ▸ hh.1.outlet)
    (by trivial) p.name).bind fun layer g₃ _ hlayer => ?_
  refine .lift_bind hp.shape_yields ?_
  rintro _ rfl
  refine .lift_bind (Layout.ofSlots_rank_yields (by decide)) fun target htarget => ?_
  have htarget : target.rank = _ := htarget.trans hrank.symm
  exact (Lowering.handle_lowers hlayer htarget).bind fun h' g₄ _ hh' =>
    .pure ⟨hh'.1, hh'.2.1⟩

/-! ### Rearranging operators -/

theorem Shape.setExtent_self (s : Shape) (axis : Nat) : s.setExtent axis (s.extent axis) = s := by
  obtain ⟨dims⟩ := s
  refine congrArg Shape.mk ?_
  by_cases hlt : axis < dims.length
  · have hextent : Shape.extent ⟨dims⟩ axis = dims[axis] := by
      simp [Shape.extent, hlt]
    rw [hextent]
    exact List.set_getElem_self hlt
  · exact List.set_eq_of_length_le (not_lt.1 hlt)

/-- Elements keep their order, so a reshape goes through sorted layouts. -/
theorem lowerReshape_lowers (hp : p.Ready g ops s) {x : Operand} (hx : ops.bound? 0 = some x) :
    Lowers p.header.site g (lowerReshape p) (Tensor.HasShape s) := by
  unfold lowerReshape
  refine .lift_bind hp.shape_yields ?_
  rintro _ rfl
  refine .lift_bind hp.layout_yields fun committed hcommitted => ?_
  refine (hp.handle_lowers hx).bind fun h g' _ hh => ?_
  have hsorted : h.layout.sorted.rank = h.shape.rank := h.layout.rank_sorted.trans hh.1.rank
  refine (Lowering.relayout_lowers hh.1.outlet hsorted p.name).bind fun h' g'' _ hh' => ?_
  split
  · rename_i hsame
    rw [← hsame] at hcommitted ⊢
    exact p.relaid_lowers hh'.1.outlet hcommitted
  · exact p.outputOn_lowers hh'.1.outlet trivial (committed.rank_sorted.trans hcommitted)

theorem nodup_dropPositions {l : List Slot} (h : l.Nodup) (axes : List Nat) :
    (dropPositions l axes).Nodup := by
  have hsub : (dropPositions l axes).Sublist (l.zipIdx.map Prod.fst) :=
    List.filter_sublist.map Prod.fst
  rw [List.zipIdx_map_fst] at hsub
  exact h.sublist hsub

/-- Whatever layout a tensor is seen under, the committed one can be reached from it. -/
theorem seenAs_lowers (p : Placement) {h : Handle} (hh : g.HasOutlet h.outlet) (layout : Layout)
    {committed : Layout} (hrank : committed.rank = s.rank) :
    Lowers site g (do return .handle (← p.relayout (h.seenAs s layout) committed))
      (Tensor.HasShape s) :=
  p.relaid_lowers (x := h.seenAs s layout) hh hrank

/-- The slots of dropped axes become free. -/
theorem lowerSqueeze_lowers (hp : p.Ready g ops s) {x : Operand} (hx : ops.bound? 0 = some x) :
    Lowers p.header.site g (lowerSqueeze p) (Tensor.HasShape s) := by
  unfold lowerSqueeze
  refine .lift_bind hp.shape_yields ?_
  rintro _ rfl
  refine (hp.handle_lowers hx).bind fun h g' _ hh => ?_
  refine .lift_bind (Layout.ofSlots_rank_yields (nodup_dropPositions h.layout.nodup _))
    fun layout _ => ?_
  refine .lift_bind hp.layout_yields fun committed hcommitted => ?_
  exact seenAs_lowers p hh.1.outlet layout hcommitted

/-- Slots that are spread over more axes stay in order. -/
theorem usedSlots_spreadSlots (inserted : List Nat) (axis count : Nat) (slots : List Slot) :
    (usedSlots (spreadSlots inserted axis count slots)).Sublist slots := by
  induction count generalizing axis slots with
  | zero => exact List.nil_sublist _
  | succ count ih =>
    rw [spreadSlots]
    split
    · exact ih _ slots
    · cases slots with
      | nil => exact ih _ []
      | cons d slots => exact (ih _ slots).cons_cons d

/-- New axes take slots that are free. -/
theorem lowerUnsqueeze_lowers (hp : p.Ready g ops s) {x : Operand} (hx : ops.bound? 0 = some x) :
    Lowers p.header.site g (lowerUnsqueeze p) (Tensor.HasShape s) := by
  unfold lowerUnsqueeze
  refine .lift_bind hp.shape_yields ?_
  rintro _ rfl
  refine .lift_bind hp.layout_yields fun committed hcommitted => ?_
  refine (hp.handle_lowers hx).bind fun h g' _ hh => ?_
  dsimp only
  split
  · exact .fail rfl
  · rename_i slots hslots
    have hnodup := (completeSlots_spec
      (h.layout.nodup.sublist (usedSlots_spreadSlots _ _ _ _)) hslots).1
    refine .lift_bind (Layout.ofSlots_rank_yields hnodup) fun layout _ => ?_
    exact seenAs_lowers p hh.1.outlet layout hcommitted

/-- Every part of a concatenation is brought to the layout of the result. -/
theorem lowerPart_lowers (hp : p.Ready g ops s) {target : Layout} (htarget : target.rank = s.rank)
    (hs : ∀ r ∈ ops.shapes, r.rank = s.rank) (i : Nat) :
    Lowers p.header.site g (lowerPart p target i) fun o g' => g'.HasOutlet o := by
  unfold lowerPart
  refine .lift_bind (hp.input_yields i) ?_
  rintro t ⟨x, hx, ht⟩
  have hrank : target.rank = t.shape.rank := by
    rw [ht.shape, hs _ (Operands.mem_shapes hx), htarget]
  cases t with
  | handle h =>
    exact (Lowering.relayout_lowers (Handle.Valid.outlet ht.valid) hrank p.name).bind
      fun h' g' _ hh' => .pure hh'.1.outlet
  | constant c =>
    have hcast : target.rank = (c.cast .float).shape.rank := by rwa [c.shape_cast]
    exact (Lowering.feed_lowers hcast p.name).bind fun h' g' _ hh' => .pure hh'.1.outlet

/-- Parts of equal rank become the inputs of one layer. -/
theorem lowerConcat_lowers (hp : p.Ready g ops s) {axis : Int64} {a : Nat}
    (hs : joinedShape p.header axis ops.shapes = .ok (a, s)) :
    Lowers p.header.site g (lowerConcat p axis) (Tensor.HasShape s) := by
  unfold lowerConcat
  split
  · rename_i hlength
    refine passOn_lowers hp fun x hx => ?_
    -- one part alone keeps its extent along the axis
    obtain ⟨first, rest, hshapes, ha, -, hjoined⟩ :=
      (joinedShape_yields p.header axis ops.shapes).value hs
    rw [shapes_of_length_one hp hlength hx] at hshapes
    cases hshapes
    exact (hjoined.trans (Shape.setExtent_self _ _)).symm
  · refine .lift_bind hp.shape_yields ?_
    rintro _ rfl
    refine .lift_bind hp.layout_yields fun target htarget => ?_
    refine .lift_bind (p.header.axis_yields axis _) fun a _ => ?_
    refine (Lowers.mapM (fun o _ _ ho hgrows => ho.grows hgrows) fun i _ g' hgrows =>
      lowerPart_lowers (hp.grows hgrows) htarget
        (fun r hr => rank_of_joinedShape hs hr) i).bind fun outlets g' _ houtlets => ?_
    exact p.output_lowers houtlets trivial htarget

/-- What a slice knows about its inputs when it is lowered. -/
def sliceOperands (p : Placement) (x : Shape) : Operands :=
  some ⟨x, none⟩ :: (p.inputs.drop 1).map fun t => t.map fun t => ⟨t.shape, t.constant?⟩

theorem bound?_sliceOperands (p : Placement) (x : Shape) (i : Nat) :
    (sliceOperands p x).bound? (i + 1) =
      (p.input? (i + 1)).map fun t => ⟨t.shape, t.constant?⟩ := by
  simp only [sliceOperands, Operands.bound?, Placement.input?, List.getElem?_cons_succ,
    List.getElem?_map, List.getElem?_drop, Nat.add_comm 1 i]
  cases p.inputs[i + 1]? with
  | none => rfl
  | some t => rfl

/-- An input that was constant before is the same constant now. -/
theorem constant_sliceOperands (hp : p.Ready g ops s) (x : Shape) {i : Nat} {c : Constant}
    (hc : ops.constant p.header (i + 1) = .ok c) :
    (sliceOperands p x).constant p.header (i + 1) = .ok c := by
  obtain ⟨op, hop, hval⟩ := (ops.constant_yields p.header (i + 1)).value hc
  have hrel := hp.rel (i + 1)
  rw [hop] at hrel
  have hbound : (sliceOperands p x).bound? (i + 1) = some ⟨c.shape, some c⟩ := by
    rw [bound?_sliceOperands]
    generalize p.input? (i + 1) = t at hrel
    cases hrel with
    | some hstands => rw [hstands.constant c hval]; rfl
  unfold Operands.constant Operands.get
  rw [hbound]
  rfl

theorem constant?_sliceOperands (hp : p.Ready g ops s) (x : Shape) {i : Nat}
    {c : Option Constant} (hc : ops.constant? p.header (i + 1) = .ok c) :
    (sliceOperands p x).constant? p.header (i + 1) = .ok c := by
  have hrel := hp.rel (i + 1)
  unfold Operands.constant? at hc ⊢
  rw [bound?_sliceOperands]
  cases hop : ops.bound? (i + 1) with
  | none =>
    rw [hop] at hc hrel
    generalize p.input? (i + 1) = t at hrel
    cases hrel
    exact hc
  | some op =>
    rw [hop] at hc hrel
    obtain ⟨v, hv, rfl⟩ := map_eq_ok.1 hc
    have hval := (Operands.constantOf_yields p.header (i + 1) op).value hv
    generalize p.input? (i + 1) = t at hrel
    cases hrel with
    | some hstands => rw [hstands.constant v hval]; rfl

/-- **Lowering keeps the ranges that inference found.** -/
theorem keptSlices_sliceOperands (hp : p.Ready g ops s) {bounds : Option SliceBounds} {x : Operand}
    (hx : ops.bound? 0 = some x) {slices : List AxisRange}
    (hs : keptSlices p.header bounds ops = .ok slices) :
    keptSlices p.header bounds (sliceOperands p x.shape) = .ok slices := by
  obtain ⟨b, hb, hs⟩ := bind_eq_ok.1 hs
  obtain ⟨r, hr, hs⟩ := bind_eq_ok.1 hs
  obtain ⟨x', hx', rfl⟩ := Operands.bound?_of_shape hr
  obtain rfl := Option.some.inj (hx.symm.trans hx')
  have hbounds : sliceBounds p.header bounds (sliceOperands p x.shape) = .ok b := by
    unfold sliceBounds at hb ⊢
    cases bounds with
    | some b' => exact hb
    | none =>
      obtain ⟨starts, hstarts, hb⟩ := bind_eq_ok.1 hb
      obtain ⟨ends, hends, hb⟩ := bind_eq_ok.1 hb
      obtain ⟨axes, haxes, hb⟩ := bind_eq_ok.1 hb
      obtain ⟨steps, hsteps, hb⟩ := bind_eq_ok.1 hb
      dsimp only
      rw [constant_sliceOperands hp _ hstarts, constant_sliceOperands hp _ hends,
        constant?_sliceOperands hp _ haxes, constant?_sliceOperands hp _ hsteps]
      exact hb
  exact bind_eq_ok.2 ⟨b, hbounds, bind_eq_ok.2 ⟨x.shape, rfl, hs⟩⟩

/-- Ranges along whole axes need no layer. -/
theorem lowerSlices_lowers (p : Placement) {layout : Layout} (slices : List AxisRange)
    {current : Handle} (hvalid : current.Valid g) (hlayout : layout.rank = current.shape.rank) :
    Lowers p.header.site g (lowerSlices p layout current slices) fun h g' =>
      h.Valid g' ∧ h.shape = AxisRange.apply slices current.shape := by
  induction slices generalizing g current with
  | nil => exact .pure ⟨hvalid, rfl⟩
  | cons r slices ih =>
    rw [lowerSlices, AxisRange.apply_cons]
    split
    · rename_i hwhole
      rw [hwhole, Shape.setExtent_self]
      exact ih hvalid hlayout
    · split
      · exact .fail rfl
      · have hrank : layout.rank = (current.shape.setExtent r.axis r.length).rank := by
          rwa [rank_setExtent]
        refine (Lowering.addOn_lowers hvalid.outlet (by trivial) hrank p.name).bind ?_
        rintro next g' - ⟨hnext, hshape, -⟩
        rw [← hshape] at hrank ⊢
        exact ih hnext hrank

/-- A slice cuts along one axis after another. -/
theorem lowerSlice_lowers (hp : p.Ready g ops s) {bounds : Option SliceBounds} {x : Operand}
    (hx : ops.bound? 0 = some x) {slices : List AxisRange}
    (hslices : keptSlices p.header bounds ops = .ok slices)
    (hs : AxisRange.apply slices x.shape = s) :
    Lowers p.header.site g (lowerSlice p bounds) (Tensor.HasShape s) := by
  unfold lowerSlice
  refine .lift_bind hp.layout_yields fun layout hlayout => ?_
  refine (hp.handle_lowers hx).bind fun h g' _ hh => ?_
  have hrank : layout.rank = h.shape.rank := by
    rw [hlayout, ← hs, AxisRange.rank_apply, hh.2]
  refine (Lowering.relayout_lowers hh.1.outlet hrank p.name).bind fun current g'' _ hcurrent => ?_
  -- the bounds are read again from the tensors, and have to come out as before
  have hkept : keptSlices p.header bounds (sliceOperands p h.shape) = .ok slices :=
    hh.2 ▸ keptSlices_sliceOperands hp hx hslices
  refine .lift_bind (.of_eq_ok hkept rfl) ?_
  rintro _ rfl
  refine (lowerSlices_lowers p slices hcurrent.1 (hcurrent.2.1 ▸ hrank)).bind
    fun h' g₃ _ hh' => .pure ⟨hh'.1, hh'.2.trans ?_⟩
  rw [hcurrent.2.1, hh.2, hs]

/-- At most two axes are pinned, to different slots. -/
theorem pinnedAxes_spec (rank : Nat) (reduced : List Nat) :
    (usedSlots ((reduced.zip pooledSlots).foldl (fun roles e => roles.set e.1 (some e.2))
      (List.replicate rank none))).Nodup ∧
    ((reduced.zip pooledSlots).foldl (fun roles e => roles.set e.1 (some e.2))
      (List.replicate rank none)).length = rank := by
  have hfree : (usedSlots (List.replicate rank none)).Nodup := by simp
  rcases reduced with _ | ⟨a, _ | ⟨b, rest⟩⟩
  · exact ⟨hfree, List.length_replicate⟩
  · exact ⟨nodup_usedSlots_set hfree (by simp) a, by simp [pooledSlots]⟩
  · have hwidth : some Slot.width ∉ (List.replicate rank none).set a (some .height) := by
      intro hmem
      rcases List.mem_or_eq_of_mem_set hmem with hmem | heq
      · simp at hmem
      · cases heq
    simp only [pooledSlots, List.zip_cons_cons, List.zip_nil_right, List.foldl_cons,
      List.foldl_nil]
    exact ⟨nodup_usedSlots_set (nodup_usedSlots_set hfree (by simp) a) hwidth b, by simp⟩

/-- The first reduced axis is pinned to the first pooled slot, and the second to the second. -/
theorem getElem?_pinnedAxes {rank : Nat} {reduced : List Nat} (hlt : reduced.Pairwise (· < ·))
    (hrank : ∀ a ∈ reduced, a < rank) {i a : Nat} {d : Slot} (ha : reduced[i]? = some a)
    (hd : pooledSlots[i]? = some d) :
    ((reduced.zip pooledSlots).foldl (fun roles e => roles.set e.1 (some e.2))
      (List.replicate rank none))[a]? = some (some d) := by
  have haRank := hrank a (List.mem_of_getElem? ha)
  rcases reduced with _ | ⟨b, _ | ⟨c, rest⟩⟩
  · simp at ha
  · rcases i with _ | i
    · simp [pooledSlots] at ha hd ⊢
      simp [ha, hd, haRank]
    · simp at ha
  · have hbc : b < c := (List.pairwise_cons.1 hlt).1 c List.mem_cons_self
    rcases i with _ | _ | i
    · simp [pooledSlots] at ha hd ⊢
      rw [List.getElem?_set_ne (by omega)]
      simp [ha, hd, haRank]
    · simp [pooledSlots] at ha hd ⊢
      simp [ha, hd, haRank]
    · simp [pooledSlots] at hd

/-- The reduced axes take the pooled slots, and every axis gets one. -/
theorem poolingLayout_yields (p : Placement) (x : Handle) {reduced : List Nat}
    (hlt : reduced.Pairwise (· < ·)) (haxes : ∀ a ∈ reduced, a < x.shape.rank) :
    Yields (Fault.Own p.header.site) (poolingLayout p x reduced) fun l =>
      l.rank = x.shape.rank ∧ ∀ (i a : Nat) (d : Slot), reduced[i]? = some a →
        pooledSlots[i]? = some d → l.slots[a]? = some d := by
  obtain ⟨hused, hlength⟩ := pinnedAxes_spec x.shape.rank reduced
  unfold poolingLayout
  dsimp only
  split
  · rename_i slots hslots
    have hwanted : (((reduced.zip pooledSlots).foldl (fun roles e => roles.set e.1 (some e.2))
        (List.replicate x.shape.rank none))).length =
          ((List.range x.shape.rank).map fun axis => (x.layout.slot? axis).toList).length := by
      simp [hlength]
    obtain ⟨hnodup, hrank⟩ := completeSlots_claimSlots_spec hused hwanted hslots
    refine (Layout.ofSlots_yields hnodup).imp fun l hl => ⟨?_, ?_⟩
    · rw [Layout.rank, hl, hrank, hlength]
    · intro i a d ha hd
      rw [hl]
      exact completeSlots_keeps hslots
        (claimSlots_keeps hwanted (getElem?_pinnedAxes hlt haxes ha hd))
  · exact .own rfl

/-- A layer that averages over the reduced axes of what it reads. -/
structure Sliding.Averages (shape : Shape) (reduced : List Nat) (c : Sliding) : Prop where
  input : c.input.shape = shape
  /-- There is a pooled slot for each axis. -/
  few : reduced.length ≤ pooledSlots.length
  slots : ∀ (i a : Nat) (d : Slot), reduced[i]? = some a → pooledSlots[i]? = some d →
    c.layout.slots[a]? = some d
  output : c.shape = ⟨Kernel.reducedDims shape.dims reduced⟩
  kind : c.kind = .pooling .mean
    ⟨.ofList (reduced.map shape.extent) 1, .ofList (reduced.map shape.extent) 1, ⟨0, 0⟩⟩

theorem meanSliding_lowers (p : Placement) {h : Handle} (hh : h.Valid g) {reduced : List Nat}
    (hlt : reduced.Pairwise (· < ·)) (haxes : ∀ a ∈ reduced, a < h.shape.rank) :
    Lowers p.header.site g (meanSliding p h reduced) fun c g' =>
      c.Valid g' ∧ c.Averages h.shape reduced := by
  unfold meanSliding
  split
  · exact .fail_bind rfl
  · rename_i hfew
    refine .lift_bind (poolingLayout_yields p h hlt haxes) fun layout ⟨hlayout, hslots⟩ => ?_
    refine (Lowering.relayout_lowers hh.outlet hlayout p.name).bind fun h' g' _ hh' => ?_
    obtain ⟨hvalid, hshape, hsame⟩ := hh'
    refine .pure ⟨⟨trivial, hvalid, hsame, ?_⟩, ⟨hshape, not_lt.1 hfew, hslots, ?_, ?_⟩⟩
    · rw [hlayout, hshape]
      simp [Shape.rank, Kernel.reducedDims]
    · rw [hshape]
    · rw [hshape]

/-- A mean over at most two axes is a pooling. -/
theorem lowerReduceMean_lowers (hp : p.Ready g ops s) {axes : Option (List Int64)}
    {keepDims : Bool} {x : Operand} (hx : ops.bound? 0 = some x) {reduced : List Nat}
    (hreduced : reducedAxes p.header axes x.shape.rank = .ok reduced)
    (hs : meanShape x.shape reduced keepDims = s) :
    Lowers p.header.site g (lowerReduceMean p axes keepDims) (Tensor.HasShape s) := by
  obtain ⟨hlt, haxes⟩ := (reducedAxes_yields p.header axes x.shape.rank).value hreduced
  unfold lowerReduceMean
  refine .lift_bind hp.shape_yields ?_
  rintro out rfl
  refine .lift_bind hp.layout_yields fun committed hcommitted => ?_
  refine (hp.handle_lowers hx).bind fun h g' _ hh => ?_
  rw [hh.2]
  refine .lift_bind (.of_eq_ok hreduced rfl) ?_
  rintro _ rfl
  refine (meanSliding_lowers p hh.1 hlt (hh.2 ▸ haxes)).bind fun c g'' _ hc => ?_
  refine (p.slide_lowers hc.1).bind ?_
  rintro pooled g₃ - ⟨hpooled, hshape, -⟩
  split
  · rename_i hkeep
    have hout : pooled.shape = out := by
      rw [hshape, hc.2.output, ← hs, meanShape, if_pos hkeep, hh.2]
    rw [← hout] at hcommitted ⊢
    exact p.relaid_lowers hpooled.outlet hcommitted
  · refine .lift_bind (Layout.ofSlots_rank_yields (nodup_dropPositions c.layout.nodup _))
      fun slots _ => ?_
    exact seenAs_lowers p hpooled.outlet slots hcommitted

/-! ### All operators -/

/-- **Lowering gives a tensor of the inferred shape**, or fails with a fault of the operator or of
the arithmetic. -/
theorem Operator.lower_lowers {op : Operator} (hp : p.Ready g ops s)
    (hheader : p.header = op.header) (hs : op.outputShape ops = .ok s) :
    Lowers op.header.site g (op.lower p) (Tensor.HasShape s) := by
  obtain ⟨header, action⟩ := op
  dsimp only at hheader
  subst hheader
  unfold outputShape at hs
  unfold lower
  dsimp only at hs ⊢
  cases action with
  | identity =>
    obtain ⟨x, hx, rfl⟩ := Operands.bound?_of_shape hs
    exact passOn_lowers hp fun x' hx' => by rw [Option.some.inj (hx'.symm.trans hx)]
  | eltwise e mode => exact lowerEltwise_lowers hp e hs
  | activation function boundsAreInputs =>
    obtain ⟨x, hx, rfl⟩ := Operands.bound?_of_shape hs
    exact lowerActivation_lowers hp function boundsAreInputs hx
  | conv group window => exact lowerConv_lowers hp group window hs
  | pool kind window =>
    obtain ⟨_, hshape, hs⟩ := bind_eq_ok.1 hs
    obtain ⟨axes, haxes, hs⟩ := bind_eq_ok.1 hs
    obtain ⟨x, hx, rfl⟩ := Operands.bound?_of_shape hshape
    exact lowerPool_lowers hp kind window hx haxes (pure_eq_ok.1 hs).symm
  | globalPool kind =>
    obtain ⟨_, hshape, hs⟩ := bind_eq_ok.1 hs
    obtain ⟨x, hx, rfl⟩ := Operands.bound?_of_shape hshape
    exact lowerGlobalPool_lowers hp kind hx ((globalPoolShape_yields p.header x.shape).value hs)
  | batchNorm epsilon =>
    obtain ⟨_, hshape, hs⟩ := bind_eq_ok.1 hs
    obtain ⟨_, -, hs⟩ := bind_eq_ok.1 hs
    obtain ⟨_, -, hs⟩ := bind_eq_ok.1 hs
    obtain ⟨x, hx, rfl⟩ := Operands.bound?_of_shape hshape
    obtain rfl := pure_eq_ok.1 hs
    exact lowerBatchNorm_lowers hp epsilon hx rfl
  | gemm params => exact lowerGemm_lowers hp params hs
  | matMul =>
    obtain ⟨_, hleft, hs⟩ := bind_eq_ok.1 hs
    obtain ⟨_, hright, hs⟩ := bind_eq_ok.1 hs
    obtain ⟨a, ha, rfl⟩ := Operands.bound?_of_shape hleft
    obtain ⟨b, hb, rfl⟩ := Operands.bound?_of_shape hright
    obtain ⟨d, hd, hs⟩ := bind_eq_ok.1 hs
    exact lowerMatMul_lowers hp ha hb hd (pure_eq_ok.1 hs)
  | softmax axis =>
    obtain ⟨_, hshape, hs⟩ := bind_eq_ok.1 hs
    obtain ⟨_, -, hs⟩ := bind_eq_ok.1 hs
    obtain ⟨x, hx, rfl⟩ := Operands.bound?_of_shape hshape
    obtain rfl := pure_eq_ok.1 hs
    exact lowerSoftmax_lowers hp axis hx rfl
  | lrn size alpha beta bias =>
    obtain ⟨_, hshape, hs⟩ := bind_eq_ok.1 hs
    obtain ⟨_, -, hs⟩ := bind_eq_ok.1 hs
    obtain ⟨x, hx, rfl⟩ := Operands.bound?_of_shape hshape
    obtain rfl := pure_eq_ok.1 hs
    exact lowerInPlace_lowers hp trivial hx rfl
  | lstm hidden reverse => exact lowerLstm_lowers hp hidden reverse hs
  | flatten axis =>
    obtain ⟨_, hshape, -⟩ := bind_eq_ok.1 hs
    obtain ⟨x, hx, -⟩ := Operands.bound?_of_shape hshape
    exact lowerReshape_lowers hp hx
  | reshape requested =>
    obtain ⟨_, hshape, -⟩ := bind_eq_ok.1 hs
    obtain ⟨x, hx, -⟩ := Operands.bound?_of_shape hshape
    exact lowerReshape_lowers hp hx
  | squeeze axes =>
    obtain ⟨x, hx, -⟩ := (squeezeShape_yields p.header axes ops).value hs
    exact lowerSqueeze_lowers hp hx
  | unsqueeze axes =>
    obtain ⟨x, hx, -⟩ := (unsqueezeShape_yields p.header axes ops).value hs
    exact lowerUnsqueeze_lowers hp hx
  | concat axis =>
    obtain ⟨⟨a, out⟩, hjoined, rfl⟩ := map_eq_ok.1 hs
    exact lowerConcat_lowers hp hjoined
  | gather axis =>
    refine (Lowers.lift_discard (hp.constant_yields 0 _)).bind fun _ g' hgrows _ => ?_
    refine (Lowers.lift_discard ((hp.grows hgrows).constant_yields 1 _)).bind fun _ _ _ _ => ?_
    exact .fail rfl
  | shapeOf | constantOfShape | constant => exact .fail rfl
  | slice bounds =>
    obtain ⟨slices, hslices, hs⟩ := bind_eq_ok.1 hs
    obtain ⟨_, hshape, hs⟩ := bind_eq_ok.1 hs
    obtain ⟨x, hx, rfl⟩ := Operands.bound?_of_shape hshape
    exact lowerSlice_lowers hp hx hslices (pure_eq_ok.1 hs)
  | reduceMean axes keepDims =>
    obtain ⟨_, hshape, hs⟩ := bind_eq_ok.1 hs
    obtain ⟨x, hx, rfl⟩ := Operands.bound?_of_shape hshape
    obtain ⟨reduced, hreduced, hs⟩ := bind_eq_ok.1 hs
    exact lowerReduceMean_lowers hp hx hreduced (pure_eq_ok.1 hs)

end Lamina
