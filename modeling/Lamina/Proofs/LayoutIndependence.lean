import Mathlib
import Lamina.Network.Plan
import Lamina.Proofs.Broadcasting
import Lamina.Proofs.MemoryImages
import Lamina.Proofs.Words

/-!
# Folding does not depend on memory layouts

Two constants are *alike* if they have the same shape, the same type of elements and the same values
in axis order (`Constant.Alike`); how they lie in memory may differ. Operands are alike if they are
bound and constant at the same positions, with the same shapes and with constants that are alike.

**Theorem** (`Operator.outputs_of_alike`): on operands that are alike every operator infers the same
shapes, and folding fails with the same fault or gives outputs that are alike.

Almost all operators work on the values in axis order and give the very same constant. Two of them
keep the layout of their input: the identity, and an activation, which maps the elements where they
lie in memory. The latter commutes with bringing the elements into axis order, since that moves
elements without looking at them (`Constant.activated_spec`).
-/

namespace Lamina

variable {α β γ δ : Type}

/-! ### Two computations side by side -/

/-- Two computations fail with the same fault or end with values that are related. -/
inductive Matches (R : α → β → Prop) : Except Fault α → Except Fault β → Prop where
  | ok {a : α} {b : β} : R a b → Matches R (.ok a) (.ok b)
  | error (f : Fault) : Matches R (.error f) (.error f)

namespace Matches

variable {R : α → β → Prop} {S : γ → δ → Prop} {x : Except Fault α} {y : Except Fault β}

theorem refl {R : α → α → Prop} (h : ∀ a, R a a) (x : Except Fault α) : Matches R x x := by
  rcases x with f | a
  · exact .error f
  · exact .ok (h a)

theorem bind {f : α → Except Fault γ} {g : β → Except Fault δ} (h : Matches R x y)
    (hfg : ∀ a b, R a b → Matches S (f a) (g b)) : Matches S (x >>= f) (y >>= g) := by
  rcases h with hab | fault
  · exact hfg _ _ hab
  · exact .error fault

/-- What is done with related values may also not tell them apart. -/
theorem bind_eq {f : α → Except Fault γ} {g : β → Except Fault γ} (h : Matches R x y)
    (hfg : ∀ a b, R a b → f a = g b) : x >>= f = y >>= g := by
  rcases h with hab | fault
  · exact hfg _ _ hab
  · rfl

theorem map {f : α → γ} {g : β → δ} (h : Matches R x y) (hfg : ∀ a b, R a b → S (f a) (g b)) :
    Matches S (f <$> x) (g <$> y) := by
  rcases h with hab | fault
  · exact .ok (hfg _ _ hab)
  · exact .error fault

theorem map_eq {f : α → γ} {g : β → γ} (h : Matches R x y) (hfg : ∀ a b, R a b → f a = g b) :
    f <$> x = g <$> y := by
  rcases h with hab | fault
  · exact congrArg Except.ok (hfg _ _ hab)
  · rfl

theorem mapM {ι : Type} {f : ι → Except Fault α} {g : ι → Except Fault β} {l : List ι}
    (h : ∀ i ∈ l, Matches R (f i) (g i)) : Matches (List.Forall₂ R) (l.mapM f) (l.mapM g) := by
  induction l with
  | nil => exact .ok .nil
  | cons i l ih =>
    rw [List.mapM_cons, List.mapM_cons]
    apply (h i List.mem_cons_self).bind
    intro a b hab
    apply (ih fun j hj => h j (List.mem_cons_of_mem _ hj)).bind
    intro as bs habs
    exact .ok (.cons hab habs)

end Matches

/-! ### Constants that are alike -/

/-- Two constants have the same values. Their layouts may differ. -/
structure Constant.Alike (c c' : Constant) : Prop where
  /-- The extents are the same. -/
  shape : c.shape = c'.shape
  /-- The elements are of the same type. -/
  elementType : c.elementType = c'.elementType
  /-- The values in axis order are the same. -/
  source : c.source = c'.source

namespace Constant

variable {c c' : Constant}

namespace Alike

theorem refl (c : Constant) : c.Alike c := ⟨rfl, rfl, rfl⟩

/-- The type of the elements can be told from the values. -/
theorem of_source (hshape : c.shape = c'.shape) (hsource : c.source = c'.source) : c.Alike c' := by
  refine ⟨hshape, ?_, hsource⟩
  show c.data.elementType = c'.data.elementType
  rw [← elementType_source c, ← elementType_source c', hsource]

theorem floats (h : c.Alike c') : c.floats = c'.floats := congrArg Buffer.toFloats h.source

theorem ints (h : c.Alike c') : c.ints = c'.ints := by
  rw [Constant.ints, Constant.ints, h.source]

end Alike

/-- Reshaping takes the values in axis order. -/
theorem reshaped_eq {s : Shape} (h : s.count = c.shape.count) :
    c.reshaped s = ofBuffer s c.source := by
  unfold reshaped
  rw [dif_pos h]
  by_cases hshuffled : c.layout.isShuffled = true
  · rw [if_pos hshuffled]
  · have hsize : c.data.size = s.count := c.size_eq.trans h.symm
    rw [if_neg hshuffled, source_of_not_shuffled (Bool.not_eq_true _ ▸ hshuffled), ofBuffer,
      ofParts, dif_pos (show Layout.uncommitted.fits s.rank = true from rfl), dif_pos hsize]

theorem source_reshaped {s : Shape} (h : s.count = c.shape.count) (hc : c.reshaped s = .ok c') :
    c'.shape = s ∧ c'.source = c.source := by
  rw [reshaped_eq h] at hc
  obtain ⟨r, hr, hshape, hsource⟩ := exists_ofBuffer (c.size_source.trans h.symm)
  obtain rfl := Except.ok.inj (hr.symm.trans hc)
  exact ⟨hshape, hsource⟩

theorem Alike.reshaped (h : c.Alike c') (s : Shape) : c.reshaped s = c'.reshaped s := by
  by_cases hcount : s.count = c.shape.count
  · rw [reshaped_eq hcount, reshaped_eq (h.shape ▸ hcount), h.source]
  · unfold Constant.reshaped
    rw [dif_neg hcount, dif_neg (h.shape ▸ hcount), h.shape]

end Constant

/-! ### Repeating -/

/-- Nothing is repeated to get to the shape that is there. -/
theorem repeatAxes_self {data : Array α} {dims : List Nat} (h : data.size = positions dims) :
    repeatAxes data dims dims = data := by
  have hsize : (repeatAxes data dims dims).size = positions dims :=
    size_repeatAxes h (Stretches.refl dims)
  apply Array.ext_getElem?
  intro k
  by_cases hk : k < positions dims
  · obtain ⟨ix, hix, rfl⟩ := exists_place hk
    rw [getElem?_repeatAxes h (Stretches.refl dims) hix, clip_self hix]
  · rw [Array.getElem?_eq_none (by omega), Array.getElem?_eq_none (by omega)]

theorem Buffer.rearrange_self {b : Buffer} {move : {α : Type} → Array α → Array α}
    (h : ∀ {α : Type} (v : Array α), v.size = b.size → move v = v) : b.rearrange move = b := by
  rcases b with v | v
  · exact congrArg Buffer.floats (h v rfl)
  · exact congrArg Buffer.ints (h v rfl)

/-- A constant in axis order that need not be repeated is only seen under another shape. -/
theorem Broadcast.constant_eq {c : Constant} {offset : Nat} {out : Shape}
    (h : offset + c.shape.rank ≤ out.rank) :
    Broadcast.constant c offset out = Constant.ofBuffer out (c.source.rearrange fun v =>
      repeatAxes v (embedShape c.shape offset out.rank).dims out.dims) := by
  have hcount := count_embedShape h
  unfold Broadcast.constant
  dsimp only
  by_cases hsame : embedShape c.shape offset out.rank = out ∧ c.layout.isShuffled = false
  · rw [if_pos hsame, hsame.1]
    rw [hsame.1] at hcount
    have hself : (c.source.rearrange fun v => repeatAxes v out.dims out.dims) = c.source := by
      apply Buffer.rearrange_self
      intro α v hv
      apply repeatAxes_self
      rw [hv, c.size_source, ← hcount]
      rfl
    rw [Constant.reshaped_eq hcount, hself]
  · rw [if_neg hsame]

variable {c c' : Constant} {h : Header}

theorem Constant.Alike.broadcast (hc : c.Alike c') {k : Nat} {out : Shape}
    (hrank : k + c'.shape.rank ≤ out.rank) :
    Broadcast.constant c k out = Broadcast.constant c' k out := by
  rw [Broadcast.constant_eq hrank, Broadcast.constant_eq (hc.shape ▸ hrank), hc.shape, hc.source]

theorem Constant.Alike.expandOperand (hc : c.Alike c') (mode : Alignment) (out : Shape) :
    expandOperand h mode out c = expandOperand h mode out c' := by
  unfold Lamina.expandOperand
  rw [hc.shape]
  rcases hoffset : Broadcast.offset h.site mode c'.shape.rank out.rank with f | k
  · rfl
  · exact hc.broadcast ((Broadcast.offset_yields h.site mode _ _).value hoffset)

/-! ### Activations -/

theorem readStrided_map (f : α → β) (data : Array α) (base : Nat) (dims strides : List Nat) :
    readStrided (data.map f) base dims strides = (readStrided data base dims strides).map f := by
  simp only [readStrided, Array.getElem?_map, List.map_toArray, List.map_filterMap]

theorem permuteAxes_map (f : α → β) (data : Array α) (dims perm : List Nat) :
    permuteAxes (data.map f) dims perm = (permuteAxes data dims perm).map f := by
  unfold permuteAxes
  split
  · rfl
  · exact readStrided_map f data _ _ _

/-- An activation maps the elements, so it does not matter whether they are moved before. -/
theorem Kernel.unary_rearrange (f : Activation) {b d : Buffer}
    {move : {α : Type} → Array α → Array α}
    (hmove : ∀ {α β : Type} (f : α → β) (v : Array α), move (v.map f) = (move v).map f)
    (h : Kernel.unary (.activation f) b = .ok d) :
    Kernel.unary (.activation f) (b.rearrange move) = .ok (d.rearrange move) := by
  rcases b with v | v
  · cases h
    simp only [Buffer.rearrange, Kernel.unary, hmove]
  · cases h
    simp only [Buffer.rearrange, Kernel.unary, hmove]

/-- **An activation takes the values in axis order to those of the result.** -/
theorem Constant.activated_spec (f : Activation) (c : Constant) : ∃ r : Constant,
    (do Constant.ofParts c.shape c.layout (← Kernel.unary (.activation f) c.data)) = .ok r ∧
      r.shape = c.shape ∧ Kernel.unary (.activation f) c.source = .ok r.source := by
  obtain ⟨d, hd⟩ : ∃ d, Kernel.unary (.activation f) c.data = .ok d := by
    rcases c.data with v | v
    · exact ⟨_, rfl⟩
    · exact ⟨_, rfl⟩
  have hunary : Yields (Fault.Own Constant.site) (Kernel.unary (.activation f) c.data)
      fun out => out.size = c.data.size := Kernel.unary_yields _ _
  have hsize : d.size = c.shape.count := (hunary.value hd).trans c.size_eq
  refine ⟨⟨c.shape, c.layout, d, c.layout_fits, hsize⟩, ?_, rfl, ?_⟩
  · rw [hd]
    show Constant.ofParts c.shape c.layout d = _
    rw [Constant.ofParts, dif_pos c.layout_fits, dif_pos hsize]
  · unfold Constant.source
    by_cases hshuffled : c.layout.isShuffled = true
    · rw [if_pos hshuffled, if_pos hshuffled]
      exact Kernel.unary_rearrange f (fun g v => permuteAxes_map g v _ _) hd
    · rw [if_neg hshuffled, if_neg hshuffled]
      exact hd

/-! ### Operands that are alike -/

/-- Two operands have the same shape, and if one is constant, the other has the same values. -/
structure Operand.Alike (x x' : Operand) : Prop where
  /-- The extents are the same. -/
  shape : x.shape = x'.shape
  /-- Both are constant with the same values, or neither is constant. -/
  constant : Option.Rel Constant.Alike x.constant x'.constant

/-- Two lists of operands are alike position by position. -/
def Operands.Alike (ops ops' : Operands) : Prop := List.Forall₂ (Option.Rel Operand.Alike) ops ops'

/-- Related options are both there or both missing. -/
theorem rel_cases {R : α → β → Prop} {x : Option α} {y : Option β} (h : Option.Rel R x y) :
    (∃ a b, x = some a ∧ y = some b ∧ R a b) ∨ (x = none ∧ y = none) := by
  rcases h with hab | _
  · exact .inl ⟨_, _, rfl, rfl, hab⟩
  · exact .inr ⟨rfl, rfl⟩

namespace Operands.Alike

variable {ops ops' : Operands}

theorem bound? (hops : ops.Alike ops') (i : Nat) :
    Option.Rel Operand.Alike (ops.bound? i) (ops'.bound? i) := by
  unfold Operands.Alike at hops
  unfold Operands.bound?
  induction hops generalizing i with
  | nil => exact .none
  | cons hhead _ ih =>
    rcases i with _ | i
    · exact hhead
    · simpa using ih i

theorem get (hops : ops.Alike ops') (i : Nat) :
    Matches Operand.Alike (ops.get h i) (ops'.get h i) := by
  unfold Operands.get
  rcases rel_cases (hops.bound? i) with ⟨x, x', hx, hx', halike⟩ | ⟨hx, hx'⟩
  · rw [hx, hx']
    exact .ok halike
  · rw [hx, hx']
    exact .error _

theorem shape (hops : ops.Alike ops') (i : Nat) : ops.shape h i = ops'.shape h i :=
  (hops.get i).map_eq fun _ _ hx => hx.shape

theorem constantOf {x x' : Operand} (hx : x.Alike x') (i : Nat) :
    Matches Constant.Alike (Operands.constantOf h i x) (Operands.constantOf h i x') := by
  unfold Operands.constantOf
  rcases rel_cases hx.constant with ⟨c, c', hc, hc', halike⟩ | ⟨hc, hc'⟩
  · rw [hc, hc']
    exact .ok halike
  · rw [hc, hc']
    exact .error _

theorem constant (hops : ops.Alike ops') (i : Nat) :
    Matches Constant.Alike (ops.constant h i) (ops'.constant h i) :=
  (hops.get i).bind fun _ _ hx => constantOf hx i

theorem constant? (hops : ops.Alike ops') (i : Nat) :
    Matches (Option.Rel Constant.Alike) (ops.constant? h i) (ops'.constant? h i) := by
  unfold Operands.constant?
  rcases rel_cases (hops.bound? i) with ⟨x, x', hx, hx', halike⟩ | ⟨hx, hx'⟩
  · rw [hx, hx']
    exact (constantOf halike i).map fun _ _ hc => .some hc
  · rw [hx, hx']
    exact .ok .none

theorem shapes (hops : ops.Alike ops') : ops.shapes = ops'.shapes := by
  unfold Operands.Alike at hops
  unfold Operands.shapes
  induction hops with
  | nil => rfl
  | cons hhead _ ih =>
    rcases hhead with hx | _
    · simpa using ⟨hx.shape, ih⟩
    · simpa using ih

theorem length (hops : ops.Alike ops') : ops.length = ops'.length := hops.length_eq

/-! ### Output shapes -/

theorem convShape (hops : ops.Alike ops') (group : Nat) (window : Window) :
    convShape h group window ops = convShape h group window ops' := by
  unfold Lamina.convShape
  rw [hops.shape 0, hops.shape 1]
  rcases rel_cases (hops.bound? 2) with ⟨x, x', hx, hx', halike⟩ | ⟨hx, hx'⟩
  · simp only [hx, hx', halike.shape]
  · rw [hx, hx']

theorem gemmShape (hops : ops.Alike ops') (params : Gemm) :
    gemmShape h params ops = gemmShape h params ops' := by
  unfold Lamina.gemmShape
  rw [hops.shape 0, hops.shape 1]
  rcases rel_cases (hops.bound? 2) with ⟨x, x', hx, hx', halike⟩ | ⟨hx, hx'⟩
  · simp only [hx, hx', halike.shape]
  · rw [hx, hx']

theorem checkGateBias (hops : ops.Alike ops') (hidden : Nat) :
    checkGateBias h ops hidden = checkGateBias h ops' hidden := by
  unfold Lamina.checkGateBias
  rcases rel_cases (hops.bound? 3) with ⟨x, x', hx, hx', halike⟩ | ⟨hx, hx'⟩
  · simp only [hx, hx', halike.shape]
  · rw [hx, hx']

theorem checkState (hops : ops.Alike ops') (i batch hidden : Nat) :
    checkState h ops i batch hidden = checkState h ops' i batch hidden := by
  unfold Lamina.checkState
  rcases rel_cases (hops.bound? i) with ⟨x, x', hx, hx', halike⟩ | ⟨hx, hx'⟩
  · simp only [hx, hx', halike.shape]
  · rw [hx, hx']

theorem lstmShape (hops : ops.Alike ops') (hidden : Nat) :
    lstmShape h hidden ops = lstmShape h hidden ops' := by
  unfold Lamina.lstmShape checkGates
  simp only [hops.shape, hops.checkGateBias, hops.checkState]

theorem requestedShape (hops : ops.Alike ops') (requested : Option (List Int64)) :
    requestedShape h requested ops = requestedShape h requested ops' := by
  unfold Lamina.requestedShape
  rcases requested with _ | ds
  · exact (hops.constant 1).map_eq fun _ _ hc => hc.ints
  · rfl

/-- Optional lists of integers. -/
theorem ints? {c c' : Option Constant} (hc : Option.Rel Constant.Alike c c') :
    c.map Constant.ints = c'.map Constant.ints := by
  rcases hc with hc | _
  · exact congrArg some hc.ints
  · rfl

theorem listedAxes (hops : ops.Alike ops') (axes : Option (List Int64)) :
    listedAxes h axes ops = listedAxes h axes ops' := by
  unfold Lamina.listedAxes
  rcases axes with _ | a
  · exact (hops.constant? 1).map_eq fun _ _ hc => ints? hc
  · rfl

theorem squeezeShape (hops : ops.Alike ops') (axes : Option (List Int64)) :
    squeezeShape h axes ops = squeezeShape h axes ops' := by
  unfold Lamina.squeezeShape squeezedAxes
  rw [hops.shape 0, hops.listedAxes axes]

theorem unsqueezeShape (hops : ops.Alike ops') (axes : Option (List Int64)) :
    unsqueezeShape h axes ops = unsqueezeShape h axes ops' := by
  unfold Lamina.unsqueezeShape
  rw [hops.shape 0, hops.listedAxes axes]

theorem filledShape (hops : ops.Alike ops') : filledShape h ops = filledShape h ops' := by
  unfold Lamina.filledShape
  apply (hops.constant 0).bind_eq
  intro c c' hc
  rw [hc.ints]

theorem sliceBounds (hops : ops.Alike ops') (bounds : Option SliceBounds) :
    sliceBounds h bounds ops = sliceBounds h bounds ops' := by
  unfold Lamina.sliceBounds
  rcases bounds with _ | b
  · apply (hops.constant 1).bind_eq
    intro starts starts' hstarts
    apply (hops.constant 2).bind_eq
    intro ends ends' hends
    apply (hops.constant? 3).bind_eq
    intro axes axes' haxes
    apply (hops.constant? 4).bind_eq
    intro steps steps' hsteps
    rw [hstarts.ints, hends.ints, ints? haxes, ints? hsteps]
  · rfl

theorem keptSlices (hops : ops.Alike ops') (bounds : Option SliceBounds) :
    keptSlices h bounds ops = keptSlices h bounds ops' := by
  unfold Lamina.keptSlices
  rw [hops.sliceBounds bounds, hops.shape 0]

/-- Every operator infers the same shape. -/
theorem outputShape (hops : ops.Alike ops') (op : Operator) :
    op.outputShape ops = op.outputShape ops' := by
  unfold Operator.outputShape
  cases op.action
  case conv group window => exact hops.convShape group window
  case batchNorm epsilon => simp only [checkStatistics, hops.shape]
  case gemm params => exact hops.gemmShape params
  case lstm hidden reverse => exact hops.lstmShape hidden
  case reshape requested => simp only [hops.shape, hops.requestedShape]
  case squeeze axes => exact hops.squeezeShape axes
  case unsqueeze axes => exact hops.unsqueezeShape axes
  case constantOfShape value => exact hops.filledShape
  case constant value => rfl
  case slice bounds => simp only [hops.shape, hops.keptSlices]
  -- what is left looks at the shapes of the operands only
  case eltwise | concat => simp only [hops.shapes]
  all_goals simp only [hops.shape]

/-! ### Folding -/

theorem clipBound {c c' : Option Constant} (hc : Option.Rel Constant.Alike c c')
    (default : Binary32) : clipBound h c default = clipBound h c' default := by
  rcases hc with hc | _
  · simp only [Lamina.clipBound, hc.floats, hc.shape]
  · rfl

/-- The one operator that works on the elements in memory order. -/
theorem foldActivation (hops : ops.Alike ops') (function : Activation) (boundsAreInputs : Bool) :
    Matches Constant.Alike (foldActivation h function boundsAreInputs ops)
      (foldActivation h function boundsAreInputs ops') := by
  unfold Lamina.foldActivation
  apply (hops.constant? 1).bind
  intro low low' hlow
  apply (hops.constant? 2).bind
  intro high high' hhigh
  have hresolved : resolveFunction h function boundsAreInputs low high =
      resolveFunction h function boundsAreInputs low' high' := by
    simp only [resolveFunction, clipBound hlow, clipBound hhigh]
  rw [hresolved]
  apply (Matches.refl (fun _ => rfl) _).bind
  rintro f _ rfl
  apply (hops.constant 0).bind
  intro x x' hx
  obtain ⟨r, hr, hshape, hsource⟩ := x.activated_spec f
  obtain ⟨r', hr', hshape', hsource'⟩ := x'.activated_spec f
  rw [hr, hr']
  apply Matches.ok
  apply Constant.Alike.of_source
  · rw [hshape, hshape', hx.shape]
  · rw [hx.source, hsource'] at hsource
    exact (Except.ok.inj hsource).symm

theorem foldEltwise (hops : ops.Alike ops') (op : Pointwise) (mode : Alignment) :
    foldEltwise h op mode ops = foldEltwise h op mode ops' := by
  have hstep : ∀ out acc i,
      (do combineOperand h op.binary mode out acc (← ops.constant h i)) =
        (do combineOperand h op.binary mode out acc (← ops'.constant h i)) := by
    intro out acc i
    apply (hops.constant i).bind_eq
    intro c c' hc
    rw [combineOperand, combineOperand, hc.expandOperand]
  unfold Lamina.foldEltwise
  simp only [hops.shapes, hops.length, hstep]

theorem foldSoftmax (hops : ops.Alike ops') (axis : Int64) :
    foldSoftmax h axis ops = foldSoftmax h axis ops' := by
  apply (hops.constant 0).bind_eq
  intro x x' hx
  rw [hx.shape, hx.floats]

theorem foldReduceMean (hops : ops.Alike ops') (axes : Option (List Int64)) (keepDims : Bool) :
    foldReduceMean h axes keepDims ops = foldReduceMean h axes keepDims ops' := by
  apply (hops.constant 0).bind_eq
  intro x x' hx
  rw [hx.shape, hx.floats]

variable {p : MatrixProduct}

theorem foldGemm (hops : ops.Alike ops') (params : Gemm) :
    foldGemm p h params ops = foldGemm p h params ops' := by
  unfold Lamina.foldGemm
  apply (hops.constant 0).bind_eq
  intro a a' ha
  apply (hops.constant 1).bind_eq
  intro b b' hb
  simp only [matrixValues, ha.shape, ha.floats, hb.shape, hb.floats]
  -- the free term comes last
  congr 1; funext d
  congr 1; funext product
  congr 1; funext scaled
  apply (hops.constant? 2).bind_eq
  intro c c' hc
  rcases hc with @⟨c, c', hc⟩ | _
  · dsimp only
    rw [hc.shape]
    rcases hoffset : h.site.difference 2 c'.shape.rank with f | k
    · rfl
    · obtain ⟨hle, rfl⟩ := Site.difference_eq_ok.1 hoffset
      have hrank : 2 - c'.shape.rank + c'.shape.rank ≤ Shape.rank ⟨[d.m, d.n]⟩ :=
        (Nat.sub_add_cancel hle).le
      change Broadcast.constant c _ _ >>= _ = Broadcast.constant c' _ _ >>= _
      rw [hc.broadcast hrank]
  · rfl

theorem foldMatMul (hops : ops.Alike ops') : foldMatMul p h ops = foldMatMul p h ops' := by
  apply (hops.constant 0).bind_eq
  intro a a' ha
  apply (hops.constant 1).bind_eq
  intro b b' hb
  simp only [StackDims.stacked, ha.shape, ha.floats, hb.shape, hb.floats]

theorem foldReshaped (hops : ops.Alike ops') {shape shape' : Except Fault Shape}
    (hshape : shape = shape') : foldReshaped h ops shape = foldReshaped h ops' shape' := by
  subst hshape
  unfold Lamina.foldReshaped
  congr 1; funext s
  apply (hops.constant 0).bind_eq
  intro c c' hc
  exact hc.reshaped s

theorem foldConcat (hops : ops.Alike ops') (axis : Int64) :
    foldConcat h axis ops = foldConcat h axis ops' := by
  have htensors : Matches (List.Forall₂ Constant.Alike)
      ((List.range ops.length).mapM fun i => ops.constant h i)
      ((List.range ops'.length).mapM fun i => ops'.constant h i) := by
    rw [hops.length]
    exact .mapM fun i _ => hops.constant i
  -- whatever is read off constants that are alike is the same
  have hread : ∀ {ts ts' : List Constant} {β : Type} (f : Constant → β),
      List.Forall₂ Constant.Alike ts ts' → (∀ c c' : Constant, c.Alike c' → f c = f c') →
        ts.map f = ts'.map f := by
    intro ts ts' β f hts hf
    induction hts with
    | nil => rfl
    | cons hc _ ih => rw [List.map_cons, List.map_cons, hf _ _ hc, ih]
  unfold Lamina.foldConcat
  rw [hops.shapes]
  congr 1; funext joined
  apply htensors.bind_eq
  intro ts ts' hts
  have htypes := hread Constant.elementType hts fun c c' hc => hc.elementType
  have hfloats := hread (fun c => (c.floats, positions (c.shape.dims.drop joined.1))) hts
    fun c c' hc => by rw [hc.floats, hc.shape]
  have hints := hread (fun c => (c.source.toInts, positions (c.shape.dims.drop joined.1))) hts
    fun c c' hc => by rw [hc.source, hc.shape]
  simp only [htypes, hfloats, hints]

theorem foldGather (hops : ops.Alike ops') (axis : Int64) :
    foldGather h axis ops = foldGather h axis ops' := by
  apply (hops.constant 0).bind_eq
  intro data data' hdata
  apply (hops.constant 1).bind_eq
  intro indices indices' hindices
  simp only [hdata.shape, hdata.source, hindices.shape, hindices.ints]

theorem foldSlice (hops : ops.Alike ops') (bounds : Option SliceBounds) :
    foldSlice h bounds ops = foldSlice h bounds ops' := by
  apply (hops.constant 0).bind_eq
  intro x x' hx
  simp only [hops.keptSlices, hx.shape, hx.source]

/-- Every operator gives the same values. -/
theorem fold (hops : ops.Alike ops') (op : Operator) :
    Matches Constant.Alike (op.fold ops) (op.fold ops') := by
  have hsame : ∀ {x y : Except Fault Constant}, x = y → Matches Constant.Alike x y := by
    rintro x _ rfl
    exact .refl Constant.Alike.refl x
  have hshape := hops.outputShape op
  unfold Operator.fold Operator.foldBy
  cases op.action
  case identity => exact hops.constant 0
  case activation function boundsAreInputs => exact hops.foldActivation function boundsAreInputs
  -- all others give the very same constant
  all_goals apply hsame
  case eltwise op mode => exact hops.foldEltwise op mode
  case gemm params => exact hops.foldGemm params
  case matMul => exact hops.foldMatMul
  case softmax axis => exact hops.foldSoftmax axis
  case flatten | reshape | squeeze | unsqueeze => exact hops.foldReshaped hshape
  case concat axis => exact hops.foldConcat axis
  case shapeOf => simp only [hops.shape]
  case gather axis => exact hops.foldGather axis
  case constantOfShape value => simp only [foldFilled, hops.filledShape]
  case slice bounds => exact hops.foldSlice bounds
  case reduceMean axes keepDims => exact hops.foldReduceMean axes keepDims
  all_goals rfl

end Operands.Alike

/-- Two rows of three, in memory row by row. -/
def rowByRow : Constant := ⟨⟨[2, 3]⟩, .uncommitted, .ints #[1, 2, 3, 4, 5, 6], rfl, rfl⟩

/-- The same rows, in memory column by column. -/
def columnByColumn : Constant :=
  ⟨⟨[2, 3]⟩, ⟨[.channels, .width], by decide⟩, .ints #[1, 4, 2, 5, 3, 6], rfl, rfl⟩

end Lamina
