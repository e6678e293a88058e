import Mathlib
import Lamina.Proofs.Constness
import Lamina.Proofs.Scoping

/-!
# The windows of layers

A layer that slides a window gets kernel, strides, padding and dilations, and works out the extents
of its output itself. The compiler works them out as well, when it infers shapes. **Theorem**
(`Model.compile_windows`): for every convolution and every pooling among the layers of a compiled
model the two agree along height and width, and the entries of the window are positive, if and only
if the layer does not stand for a mean over an axis without positions. Such a mean is compiled to a
pooling without points (`Model.emptyMean_window`). What the layer computes has words, so that it
does not matter whether it computes in words.

There are two parts to it. What an operator slides over its input agrees with what comes out
(`Operator.sliding_lowers`): for convolutions and poolings because inference has resolved the same
window on the same extents, for means because the axes that are averaged have the pooled slots to
themselves. And all windows come from there: layers that are appended for any other reason have
none, so that by induction on the vertices every layer with a window belongs to the turn of some
node (`Plan.lower_windowsFrom`).
-/

namespace Lamina

variable {site : Site} {g g' : LayerGraph} {c : Sliding}

/-! ### Windows along one axis -/

namespace Window

/-- A window along an axis of some extent: its entries are positive, it has room in an axis whose
padded extent has a word, and its output counts its positions. -/
structure Along (extent : Nat) (a : AxisWindow) : Prop where
  kernel : 1 ≤ a.kernel
  stride : 1 ≤ a.stride
  dilation : 1 ≤ a.dilation
  room : span a.kernel a.dilation ≤ extent + a.before + a.after
  word : extent + a.before + a.after < wordLimit
  output : a.output = (extent + a.before + a.after - span a.kernel a.dilation) / a.stride + 1

theorem along_eq_ok {extent kernel stride dilation width : Nat} {pads : Nat × Nat}
    {a : AxisWindow} :
    along site extent kernel stride dilation width pads = .ok a ↔
      extent + pads.1 + pads.2 < wordLimit ∧ width ≤ extent + pads.1 + pads.2 ∧
        a = ⟨kernel, stride, dilation, pads.1, pads.2,
          (extent + pads.1 + pads.2 - width) / stride + 1⟩ := by
  unfold along
  rw [bind_eq_ok]
  constructor
  · rintro ⟨_, hword, h⟩
    obtain ⟨hlt, rfl⟩ := Site.word_eq_ok.1 hword
    split at h
    · exact absurd h Site.fail_ne_ok
    · rename_i hroom
      exact ⟨hlt, not_lt.1 hroom, (pure_eq_ok.1 h).symm⟩
  · rintro ⟨hword, hroom, rfl⟩
    exact ⟨_, Site.word_eq_ok.2 ⟨hword, rfl⟩, if_neg (not_lt.2 hroom)⟩

theorem getD_map_range {α : Type} {entry : Nat → α} {n i : Nat} (hi : i < n) (d : α) :
    ((List.range n).map entry).getD i d = entry i := by
  rw [List.getD_eq_getElem _ _ (by simpa using hi)]
  simp

/-- An entry of a list without zeros, or the default. -/
theorem one_le_getD {l : List Nat} (h : l.contains 0 = false) (i : Nat) : 1 ≤ l.getD i 1 := by
  rw [List.getD_eq_getElem?_getD]
  cases hi : l[i]? with
  | none => exact le_rfl
  | some d =>
    have hmem := List.mem_of_getElem? hi
    apply Nat.one_le_iff_ne_zero.2
    rintro rfl
    simp [hmem] at h

/-- The entries are those that are given, or the filling. -/
theorem getD_of_sized {name : String} {values : Option (List Nat)} {length fill : Nat}
    {l : List Nat} (h : sized site name values length fill = .ok l) (i : Nat) :
    l.getD i fill = fill ∨ l.getD i fill ∈ values.getD [] := by
  rw [List.getD_eq_getElem?_getD]
  cases hi : l[i]? with
  | none => exact .inl rfl
  | some d =>
    have hmem := List.mem_of_getElem? hi
    unfold sized at h
    split at h
    · cases h
      exact .inl (List.eq_of_mem_replicate hmem)
    · split at h
      · cases h
        exact .inr hmem
      · exact absurd h Site.fail_ne_ok

/-- **Windows that are resolved** have positive entries and room on every axis. Their points are as
far apart as the node says, or next to each other. -/
theorem along_of_resolve {w : Window} {extents : List Nat} {weights : Option (List Nat)}
    {axes : List AxisWindow} (h : w.resolve site extents weights = .ok axes) :
    List.Forall₂ Along extents axes ∧
      ∀ a ∈ axes, a.dilation = 1 ∨ a.dilation ∈ w.dilations.getD [] := by
  unfold resolve at h
  dsimp only at h
  obtain ⟨points, -, h⟩ := bind_eq_ok.1 h
  obtain ⟨kernel, -, h⟩ := bind_eq_ok.1 h
  obtain ⟨strides, -, h⟩ := bind_eq_ok.1 h
  obtain ⟨dilations, hdilations, h⟩ := bind_eq_ok.1 h
  split at h
  · exact absurd h Site.fail_ne_ok
  rename_i hzero
  simp only [Bool.or_eq_true, not_or, Bool.not_eq_true] at hzero
  obtain ⟨spans, hspans, h⟩ := bind_eq_ok.1 h
  obtain ⟨-, rfl⟩ := mapM_word_eq_ok.1 hspans
  obtain ⟨pads, -, h⟩ := bind_eq_ok.1 h
  have hentries : List.Forall₂ (fun i a => Along (extents.getD i 0) a ∧
      a.dilation = dilations.getD i 1) (List.range extents.length) axes := by
    refine Yields.value (P := fun _ => True) (Yields.mapM fun i hi => ?_) h
    refine (Yields.of_faults fun _ _ => trivial).imp fun a ha => ?_
    obtain ⟨hword, hroom, rfl⟩ := along_eq_ok.1 ha
    rw [getD_map_range (List.mem_range.1 hi)] at hroom ⊢
    exact ⟨⟨one_le_getD hzero.2 i, one_le_getD hzero.1.1 i, one_le_getD hzero.1.2 i, hroom, hword,
      rfl⟩, rfl⟩
  have hextents : extents = (List.range extents.length).map fun i => extents.getD i 0 := by
    apply List.ext_getElem
    · simp
    · intro i hi _
      simp [hi]
  constructor
  · rw [hextents, List.forall₂_map_left_iff]
    exact hentries.imp fun _ _ ha => ha.1
  · intro a ha
    obtain ⟨i, -, -, hdilation⟩ := forall₂_mem_left hentries.flip ha
    rw [hdilation]
    exact getD_of_sized hdilations i

end Window

/-! ### Windows over a plane -/

/-- Along one side of a plane, a window has positive entries and takes as many positions over the
given extent as come out. -/
def SweepsTo (kernel stride pad dilation extent output : Nat) : Prop :=
  1 ≤ kernel ∧ 1 ≤ stride ∧ 1 ≤ dilation ∧
    ((extent : Int) + 2 * pad - (((kernel : Int) - 1) * dilation + 1)).fdiv stride + 1 = output

instance (kernel stride pad dilation extent output : Nat) :
    Decidable (SweepsTo kernel stride pad dilation extent output) :=
  inferInstanceAs (Decidable (_ ∧ _))

/-- Along one side of a plane, the sizes that a layer computes have words: what its window spans and
the padded extent. -/
def SideFits (kernel pad dilation extent : Nat) : Prop :=
  Window.span kernel dilation < wordLimit ∧ extent + 2 * pad < wordLimit

instance (kernel pad dilation extent : Nat) : Decidable (SideFits kernel pad dilation extent) :=
  inferInstanceAs (Decidable (_ ∧ _))

theorem Window.Along.sideFits {extent : Nat} {a : AxisWindow} (h : Window.Along extent a)
    (heven : a.before = a.after) : SideFits a.kernel a.before a.dilation extent := by
  have hword := h.word
  refine ⟨h.room.trans_lt hword, ?_⟩
  omega

theorem Window.Along.sweepsTo {extent : Nat} {a : AxisWindow} (h : Window.Along extent a)
    (heven : a.before = a.after) :
    SweepsTo a.kernel a.stride a.before a.dilation extent a.output := by
  refine ⟨h.kernel, h.stride, h.dilation, ?_⟩
  have hspan : (((extent + a.before + a.after - Window.span a.kernel a.dilation : Nat)) : Int) =
      (extent : Int) + 2 * a.before - (((a.kernel : Int) - 1) * a.dilation + 1) := by
    rw [Nat.cast_sub h.room, Window.span, ← heven]
    push_cast [h.kernel]
    ring
  rw [← hspan, h.output, Int.fdiv_eq_ediv_of_nonneg _ (Int.natCast_nonneg _)]
  push_cast
  rfl

/-- A single point that moves by one takes every position. -/
theorem sweepsTo_one (extent : Nat) : SweepsTo 1 1 0 1 extent extent := by
  refine ⟨le_rfl, le_rfl, le_rfl, ?_⟩
  simp

/-- A window over all positions takes one, if there are any. -/
theorem sweepsTo_whole {extent : Nat} : SweepsTo extent extent 0 1 extent 1 ↔ extent ≠ 0 := by
  constructor
  · rintro ⟨hkernel, -⟩
    exact Nat.one_le_iff_ne_zero.1 hkernel
  · intro hextent
    have hone := Nat.one_le_iff_ne_zero.2 hextent
    refine ⟨hone, hone, le_rfl, ?_⟩
    simp

/-- The extent that a tensor has on a slot. On a slot without an axis it has one position. -/
def Handle.extentAt (h : Handle) (d : Slot) : Nat :=
  ((h.layout.position? d).map h.shape.extent).getD 1

/-- Along height and width, the window takes as many positions over one tensor as the other has. -/
def PlaneWindow.Sweeps (w : PlaneWindow) (x y : Handle) : Prop :=
  SweepsTo w.kernel.height w.strides.height w.pads.height w.dilations.height
      (x.extentAt .height) (y.extentAt .height) ∧
    SweepsTo w.kernel.width w.strides.width w.pads.width w.dilations.width
      (x.extentAt .width) (y.extentAt .width)

/-- Along height and width, the sizes that are computed over a tensor have words. -/
def PlaneWindow.Fits (w : PlaneWindow) (x : Handle) : Prop :=
  SideFits w.kernel.height w.pads.height w.dilations.height (x.extentAt .height) ∧
    SideFits w.kernel.width w.pads.width w.dilations.width (x.extentAt .width)

/-! ### Convolutions and poolings -/

/-- The spatial axes of a windowed tensor are those after the first two. -/
theorem Handle.extentAt_of_slots {h : Handle} {rank : Nat}
    (hslots : Window.slots site rank = .ok h.layout.slots) (hrank : h.layout.rank = h.shape.rank) :
    h.extentAt .height = (h.shape.dims.drop 2).getD 0 1 ∧
      h.extentAt .width = (h.shape.dims.drop 2).getD 1 1 := by
  obtain ⟨⟨dims⟩, ⟨slots, _⟩, _⟩ := h
  unfold Window.slots at hslots
  dsimp only at hslots
  split at hslots
  · cases hslots
    obtain ⟨a, b, d, rfl⟩ := List.length_eq_three.1 hrank.symm
    exact ⟨rfl, rfl⟩
  · cases hslots
    constructor
    · simp [extentAt, Layout.position?, Shape.extent, List.idxOf?_cons]
    · simp [extentAt, Layout.position?, Shape.extent, List.idxOf?_cons]
  · exact absurd hslots Site.fail_ne_ok

/-- An axis without a window has a single position. -/
theorem side_of_along {extents : List Nat} {axes : List AxisWindow}
    (h : List.Forall₂ Window.Along extents axes)
    (heven : axes.map AxisWindow.before = axes.map AxisWindow.after) (i : Nat) :
    SweepsTo ((axes.map AxisWindow.kernel).getD i 1) ((axes.map AxisWindow.stride).getD i 1)
        ((axes.map AxisWindow.before).getD i 0) ((axes.map AxisWindow.dilation).getD i 1)
        (extents.getD i 1) ((axes.map AxisWindow.output).getD i 1) ∧
      SideFits ((axes.map AxisWindow.kernel).getD i 1) ((axes.map AxisWindow.before).getD i 0)
        ((axes.map AxisWindow.dilation).getD i 1) (extents.getD i 1) := by
  simp only [List.getD_eq_getElem?_getD, List.getElem?_map]
  cases hi : extents[i]? with
  | none =>
    have haxes : axes[i]? = none := by
      rw [List.getElem?_eq_none_iff, ← h.length_eq]
      exact List.getElem?_eq_none_iff.1 hi
    rw [haxes]
    exact ⟨sweepsTo_one 1, by decide⟩
  | some extent =>
    obtain ⟨a, ha, halong⟩ := forall₂_getElem? h hi
    rw [ha]
    have hpads : a.before = a.after := by
      have := congrArg (fun l : List Nat => l[i]?) heven
      simpa [ha] using this
    exact ⟨halong.sweepsTo hpads, halong.sideFits hpads⟩

/-- **A layer that slides windows over spatial axes** takes as many positions as its output has, and
computes them in words. -/
theorem Sliding.Over.sweeps {window : Window} {axes : List AxisWindow} (h : c.Over site window axes)
    (hc : c.Valid g) {y : Handle} (hshape : y.shape = c.shape) (hlayout : y.layout = c.layout) :
    (PlaneWindow.ofAxes axes (.ofList (axes.map AxisWindow.dilation) 1)).Sweeps c.input y ∧
      (PlaneWindow.ofAxes axes (.ofList (axes.map AxisWindow.dilation) 1)).Fits c.input := by
  obtain ⟨weights, hresolved⟩ := h.resolved
  have halong := (Window.along_of_resolve hresolved).1
  obtain ⟨hxheight, hxwidth⟩ :=
    c.input.extentAt_of_slots (hc.layout ▸ h.slots) hc.input.rank
  obtain ⟨hyheight, hywidth⟩ :=
    y.extentAt_of_slots (hlayout ▸ h.slots) (by rw [hlayout, hshape, hc.rank])
  rw [hshape, h.output] at hyheight hywidth
  have hheight := side_of_along halong h.even 0
  have hwidth := side_of_along halong h.even 1
  unfold PlaneWindow.Sweeps PlaneWindow.Fits
  rw [hxheight, hxwidth, hyheight, hywidth]
  exact ⟨⟨hheight.1, hwidth.1⟩, hheight.2, hwidth.2⟩

/-- The windows of a pooling that was read are not dilated. -/
theorem Sliding.Over.dilations_eq {kind : PoolKind} {window : Window} {axes : List AxisWindow}
    (h : c.Over site window axes) (hread : (Action.pool kind window).Checked) :
    Planar.ofList (axes.map AxisWindow.dilation) 1 = ⟨1, 1⟩ := by
  obtain ⟨weights, hresolved⟩ := h.resolved
  have hone : ∀ i, (axes.map AxisWindow.dilation).getD i 1 = 1 := by
    intro i
    rw [List.getD_eq_getElem?_getD, List.getElem?_map]
    cases hi : axes[i]? with
    | none => rfl
    | some a =>
      rcases (Window.along_of_resolve hresolved).2 a (List.mem_of_getElem? hi) with hd | hd
      · exact hd
      · exact hread _ hd
  rw [Planar.ofList, hone, hone]

/-! ### Means -/

theorem Shape.extent_reducedDims (s : Shape) (reduced : List Nat) (axis : Nat) :
    Shape.extent ⟨Kernel.reducedDims s.dims reduced⟩ axis =
      if axis ∈ reduced then 1 else s.extent axis := by
  unfold extent Kernel.reducedDims
  rw [List.getD_eq_getElem?_getD, List.getElem?_map, List.getElem?_zipIdx,
    List.getD_eq_getElem?_getD]
  cases s.dims[axis]? with
  | none => simp
  | some extent => simp

/-- On a pooled slot, a mean takes one position for all of the axis that is there, which has to have
one. On a slot that no reduced axis has taken, everything stays as it is. -/
theorem Sliding.Averages.sweepsTo_iff {shape : Shape} {reduced : List Nat}
    (h : c.Averages shape reduced) (hc : c.Valid g) {y : Handle} (hshape : y.shape = c.shape)
    (hlayout : y.layout = c.layout) {i : Nat} {d : Slot} (hd : pooledSlots[i]? = some d) :
    SweepsTo ((reduced.map shape.extent).getD i 1) ((reduced.map shape.extent).getD i 1) 0 1
        (c.input.extentAt d) (y.extentAt d) ↔
      ∀ a, reduced[i]? = some a → shape.extent a ≠ 0 := by
  unfold Handle.extentAt
  rw [hc.layout, hlayout, h.input, hshape, h.output, List.getD_eq_getElem?_getD, List.getElem?_map]
  cases hi : reduced[i]? with
  | some a =>
    rw [Layout.position?_eq_some.2 (h.slots i a d hi hd)]
    simp only [Option.map_some, Option.getD_some, Option.some.injEq, forall_eq',
      Shape.extent_reducedDims, List.mem_of_getElem? hi, if_true]
    exact sweepsTo_whole
  | none =>
    have hsame : (c.layout.position? d).map (Shape.extent ⟨Kernel.reducedDims shape.dims reduced⟩) =
        (c.layout.position? d).map shape.extent := by
      cases hposition : c.layout.position? d with
      | none => rfl
      | some b =>
        -- a reduced axis would have another slot
        have hkept : b ∉ reduced := by
          intro hb
          obtain ⟨j, hj⟩ := List.mem_iff_getElem?.1 hb
          have hlt : j < pooledSlots.length :=
            lt_of_lt_of_le (List.getElem?_eq_some_iff.1 hj).1 h.few
          have hslot := h.slots j b _ hj (List.getElem?_eq_getElem hlt)
          rw [Layout.position?_eq_some.1 hposition, ← List.getElem?_eq_getElem hlt, ← hd,
            List.getElem?_inj (List.getElem?_eq_some_iff.1 hd).1 (by decide)] at hslot
          rw [← hslot, hi] at hj
          cases hj
        simp [Shape.extent_reducedDims, hkept]
    rw [hsame]
    simpa using sweepsTo_one _

/-- **A layer that averages** takes as many positions as its output has, unless it averages over an
axis without positions. -/
theorem Sliding.Averages.sweeps_iff {shape : Shape} {reduced : List Nat}
    (h : c.Averages shape reduced) (hc : c.Valid g) {y : Handle} (hshape : y.shape = c.shape)
    (hlayout : y.layout = c.layout) {w : PlaneWindow} (hw : c.kind.window? = some w) :
    w.Sweeps c.input y ↔ ∀ a ∈ reduced, shape.extent a ≠ 0 := by
  rw [h.kind] at hw
  obtain rfl := Option.some.inj hw
  refine (and_congr (h.sweepsTo_iff hc hshape hlayout (i := 0) rfl)
    (h.sweepsTo_iff hc hshape hlayout (i := 1) rfl)).trans ?_
  constructor
  · rintro ⟨hheight, hwidth⟩ a ha
    obtain ⟨i, hi⟩ := List.mem_iff_getElem?.1 ha
    have hlt : i < 2 := lt_of_lt_of_le (List.getElem?_eq_some_iff.1 hi).1 h.few
    obtain rfl | rfl : i = 0 ∨ i = 1 := by omega
    · exact hheight a hi
    · exact hwidth a hi
  · intro hall
    constructor
    · exact fun a ha => hall a (List.mem_of_getElem? ha)
    · exact fun a ha => hall a (List.mem_of_getElem? ha)

/-- A layer that averages computes with the extents of its input only. -/
theorem Sliding.Averages.fits {shape : Shape} {reduced : List Nat} (h : c.Averages shape reduced)
    {w : PlaneWindow} (hw : c.kind.window? = some w)
    (hextents : ∀ d ∈ c.input.shape.dims, d < wordLimit) : w.Fits c.input := by
  rw [h.kind] at hw
  obtain rfl := Option.some.inj hw
  have hkernel (i : Nat) : Window.span ((reduced.map shape.extent).getD i 1) 1 < wordLimit := by
    have hlt : (reduced.map shape.extent).getD i 1 < wordLimit := by
      rw [List.getD_eq_getElem?_getD, List.getElem?_map]
      cases reduced[i]? with
      | none => exact one_lt_wordLimit
      | some a => exact Shape.extent_lt (h.input ▸ hextents) a
    have hlimit := one_lt_wordLimit
    unfold Window.span
    omega
  have hextent (d : Slot) : c.input.extentAt d + 2 * 0 < wordLimit := by
    unfold Handle.extentAt
    cases c.input.layout.position? d with
    | none => exact one_lt_wordLimit
    | some a => exact Shape.extent_lt hextents a
  exact ⟨⟨hkernel 0, hextent .height⟩, hkernel 1, hextent .width⟩

/-! ### Operators -/

namespace Operator

/-- A mean over an axis without positions. -/
def AveragesNothing (op : Operator) (x : Shape) : Prop :=
  ∃ axes keepDims reduced, op.action = .reduceMean axes keepDims ∧
    reducedAxes op.header axes x.rank = .ok reduced ∧ ∃ a ∈ reduced, x.extent a = 0

variable {op : Operator} {p : Placement} {ops : Operands} {s : Shape}

theorem not_averagesNothing {x : Shape}
    (h : ∀ axes keepDims, op.action ≠ .reduceMean axes keepDims) : ¬ op.AveragesNothing x := by
  rintro ⟨axes, keepDims, -, haction, -⟩
  exact h axes keepDims haction

theorem averagesNothing_iff {axes : Option (List Int64)} {keepDims : Bool} {reduced : List Nat}
    {x : Shape} (haction : op.action = .reduceMean axes keepDims)
    (hreduced : reducedAxes op.header axes x.rank = .ok reduced) :
    op.AveragesNothing x ↔ ∃ a ∈ reduced, x.extent a = 0 := by
  constructor
  · rintro ⟨axes', keepDims', reduced', haction', hreduced', hnothing⟩
    rw [haction] at haction'
    cases haction'
    rw [hreduced] at hreduced'
    cases hreduced'
    exact hnothing
  · exact fun hnothing => ⟨axes, keepDims, reduced, haction, hreduced, hnothing⟩

/-- **What an operator slides over its input.** The layer takes as many positions as its output has,
unless there is nothing to average. What it computes has words if the extents have. -/
theorem sliding_lowers {prepare : Lowering Sliding} (hp : p.Ready g ops s)
    (hheader : p.header = op.header) (hs : op.outputShape ops = .ok s)
    (hread : op.action.Checked) (hprepare : op.sliding? p = some prepare) :
    Lowers op.header.site g prepare fun c g' => c.Valid g' ∧ ∃ w, c.kind.window? = some w ∧
      ∀ y : Handle, y.shape = c.shape → y.layout = c.layout →
        ((∀ d ∈ c.input.shape.dims, d < wordLimit) → w.Fits c.input) ∧
        (w.Sweeps c.input y ↔ ¬ op.AveragesNothing c.input.shape) := by
  unfold sliding? at hprepare
  unfold outputShape at hs
  cases haction : op.action with
  | conv group window =>
    rw [haction] at hprepare hs
    obtain rfl := Option.some.inj hprepare
    rw [← hheader] at hs ⊢
    refine (convSliding_lowers hp group window hs).imp ?_
    rintro c g' - ⟨hc, -, axes, hover, hwindow⟩
    refine ⟨hc, _, hwindow, fun y hshape hlayout => ?_⟩
    obtain ⟨hsweeps, hfits⟩ := hover.sweeps hc hshape hlayout
    exact ⟨fun _ => hfits, iff_of_true hsweeps (not_averagesNothing (by simp [haction]))⟩
  | pool kind window =>
    rw [haction] at hprepare hs hread
    obtain rfl := Option.some.inj hprepare
    rw [← hheader] at hs ⊢
    obtain ⟨_, hfirst, hs⟩ := bind_eq_ok.1 hs
    obtain ⟨axes, haxes, hs⟩ := bind_eq_ok.1 hs
    obtain ⟨x, hx, rfl⟩ := Operands.bound?_of_shape hfirst
    refine (poolSliding_lowers hp kind window hx haxes (pure_eq_ok.1 hs).symm).imp ?_
    rintro c g' - ⟨hc, -, hover, hwindow⟩
    refine ⟨hc, _, hwindow, fun y hshape hlayout => ?_⟩
    rw [← hover.dilations_eq hread]
    obtain ⟨hsweeps, hfits⟩ := hover.sweeps hc hshape hlayout
    exact ⟨fun _ => hfits, iff_of_true hsweeps (not_averagesNothing (by simp [haction]))⟩
  | reduceMean axes keepDims =>
    rw [haction] at hprepare hs
    obtain rfl := Option.some.inj hprepare
    rw [← hheader] at hs ⊢
    obtain ⟨_, hfirst, hs⟩ := bind_eq_ok.1 hs
    obtain ⟨reduced, hreduced, -⟩ := bind_eq_ok.1 hs
    obtain ⟨x, hx, rfl⟩ := Operands.bound?_of_shape hfirst
    obtain ⟨hlt, haxes⟩ := (reducedAxes_yields p.header axes x.shape.rank).value hreduced
    refine (hp.handle_lowers hx).bind fun h g' _ hh => ?_
    rw [hh.2]
    refine .lift_bind (.of_eq_ok hreduced rfl) ?_
    rintro _ rfl
    refine (meanSliding_lowers p hh.1 hlt (hh.2 ▸ haxes)).imp ?_
    rintro c g'' - ⟨hc, haverages⟩
    obtain ⟨w, hwindow⟩ : ∃ w, c.kind.window? = some w := ⟨_, by rw [haverages.kind]; rfl⟩
    refine ⟨hc, w, hwindow, fun y hshape hlayout => ⟨haverages.fits hwindow, ?_⟩⟩
    rw [haverages.sweeps_iff hc hshape hlayout hwindow, haverages.input,
      averagesNothing_iff haction (by rw [← hheader, hh.2]; exact hreduced)]
    simp
  | _ =>
    rw [haction] at hprepare
    cases hprepare

/-- What is appended before the layer slides is windowless. -/
theorem sliding_renames {prepare : Lowering Sliding} (hprepare : op.sliding? p = some prepare) :
    ∃ prepare', Renames "" LayerKind.Windowless prepare' prepare := by
  unfold sliding? at hprepare
  split at hprepare
  · cases hprepare
    exact ⟨_, convSliding_renames p _ _⟩
  · cases hprepare
    exact ⟨_, poolSliding_renames p _ _⟩
  · cases hprepare
    exact ⟨_, reduceSliding_renames p _⟩
  · cases hprepare

end Operator

/-- A layer is prepared and appended, and windowless layers only come behind it. -/
def Placement.SlidesOnce (p : Placement) (prepare : Lowering Sliding) (g g' : LayerGraph) : Prop :=
  ∃ c y g₁ g₂, prepare.run.run g = (.ok c, g₁) ∧ (p.slide c).run.run g₁ = (.ok y, g₂) ∧
    g₂.GrowsBy LayerKind.Windowless g'

/-- A layer that slides a window, as the last step. -/
theorem Placement.slideOut_slidesOnce (p : Placement) (prepare : Lowering Sliding)
    (g : LayerGraph) :
    Runs (fun _ _ => True) g (do return Tensor.handle (← p.slide (← prepare)))
      fun _ g' => p.SlidesOnce prepare g g' := by
  refine Runs.any.traced.bind fun c g₁ ⟨hc, _⟩ => ?_
  exact Runs.any.traced.bind fun y g₂ ⟨hy, _⟩ => Runs.pure ⟨c, y, g₁, g₂, hc, hy, .refl⟩

/-- A mean slides its window and is brought to its layout. -/
theorem lowerReduceMean_slidesOnce (p : Placement) (axes : Option (List Int64)) (keepDims : Bool)
    (g : LayerGraph) :
    Runs (fun _ _ => True) g (lowerReduceMean p axes keepDims)
      fun _ g' => p.SlidesOnce (reduceSliding p axes) g g' := by
  refine Runs.value_bind fun out _ => ?_
  refine Runs.value_bind fun committed _ => ?_
  refine Runs.any.traced.bind fun x g₀ ⟨hx, _⟩ => ?_
  refine Runs.value_bind fun reduced hreduced => ?_
  refine Runs.any.traced.bind fun c g₁ ⟨hc, _⟩ => ?_
  refine Runs.any.traced.bind fun y g₂ ⟨hy, _⟩ => ?_
  have hprepared : (reduceSliding p axes).run.run g = (.ok c, g₁) := by
    unfold reduceSliding
    rw [run_bind_ok hx, hreduced]
    exact hc
  have hrelaid : ∀ h, Runs (fun _ _ => True) g₂ (do return Tensor.handle (← p.relayout h committed))
      fun _ g' => p.SlidesOnce (reduceSliding p axes) g g' := fun h =>
    ((p.relaid_renames (s := "") h committed).grows g₂).mono (fun _ _ _ => trivial)
      fun _ _ hg => ⟨c, y, g₁, g₂, hprepared, hy, hg⟩
  split
  · exact hrelaid y
  · exact Runs.value_bind fun slots _ => hrelaid _

/-- An operator that slides a layer slides no other. -/
theorem Operator.lower_slidesOnce {op : Operator} {p : Placement} {prepare : Lowering Sliding}
    (hprepare : op.sliding? p = some prepare) (g : LayerGraph) :
    Runs (fun _ _ => True) g (op.lower p) fun _ g' => p.SlidesOnce prepare g g' := by
  unfold sliding? at hprepare
  unfold lower
  split at hprepare
  · rename_i group window haction
    cases hprepare
    rw [haction]
    exact p.slideOut_slidesOnce _ g
  · rename_i kind window haction
    cases hprepare
    rw [haction]
    exact p.slideOut_slidesOnce _ g
  · rename_i axes keepDims haction
    cases hprepare
    rw [haction]
    exact lowerReduceMean_slidesOnce p axes keepDims g
  · cases hprepare

/-! ### Where windows come from -/

/-- The tensors that are bound to the inputs of a vertex. -/
def Progress.tensors (p : Progress) (v : Vertex) : Lowering (List (Option Tensor)) :=
  v.inputs.mapM fun i => i.mapM fun w => (p.tensor v.header w : Lowering Tensor)

namespace Plan

/-- Where a node is placed when its turn has come. -/
def placement (plan : Plan) (scope : String) (i : Nat) (v : Vertex)
    (inputs : List (Option Tensor)) : Placement :=
  ⟨v.header, inputs, (plan.facts.values i).map Operand.shape, plan.layouts.getD i [],
    scope ++ v.header.layerName⟩

/-- While a plan is lowered, the turn of a node comes; it prepares a layer that slides a window, and
appends it, which gives a handle on what comes out. -/
inductive Slides (plan : Plan) (scope : String) (op : Operator) (c : Sliding) (y : Handle) : Prop
  | intro {front rest : List Vertex} {v : Vertex} {p : Progress} {inputs : List (Option Tensor)}
      {prepare : Lowering Sliding} {g₀ g₁ g₂ g₃ : LayerGraph}
      (vertices : plan.network.vertices.toList = front ++ v :: rest)
      (kind : v.kind = .operator op) (state : v.state ≠ .folded)
      (turn : (front.zipIdx.foldlM (plan.lowerVertex scope) Progress.empty).run.run .empty =
        (.ok p, g₀))
      (reads : (p.tensors v).run.run g₀ = (.ok inputs, g₁))
      (slides : op.sliding? (plan.placement scope front.length v inputs) = some prepare)
      (prepared : prepare.run.run g₁ = (.ok c, g₂))
      (appended : ((plan.placement scope front.length v inputs).slide c).run.run g₂ = (.ok y, g₃)) :
      Slides plan scope op c y

/-- The layers with a window are those that nodes slide. -/
def WindowsFrom (plan : Plan) (scope : String) (g : LayerGraph) : Prop :=
  ∀ i l, g.layer? i = some l → l.kind.Windowless ∨ ∃ op c y, plan.Slides scope op c y ∧
    l.kind = c.kind ∧ l.inputs = [c.input.outlet] ∧ y.outlet = ⟨i, 0⟩

variable {plan : Plan} {scope : String}

theorem windowsFrom_empty : plan.WindowsFrom scope .empty := by
  intro i l hl
  rw [LayerGraph.layer?_empty] at hl
  cases hl

namespace WindowsFrom

theorem push (h : plan.WindowsFrom scope g) {t : LayerSpec}
    (ht : t.kind.Windowless ∨ ∃ op c y, plan.Slides scope op c y ∧ t.kind = c.kind ∧
      t.inputs = [c.input.outlet] ∧ y.outlet = ⟨g.size, 0⟩) :
    plan.WindowsFrom scope (g.push t) := by
  intro i l hl
  rw [LayerGraph.layer?_push] at hl
  split at hl
  · rename_i hi
    cases hl
    rw [hi]
    exact ht
  · exact h i l hl

theorem grows (h : plan.WindowsFrom scope g) (hg : g.GrowsBy LayerKind.Windowless g') :
    plan.WindowsFrom scope g' := by
  induction hg with
  | refl => exact h
  | push _ hkind ih => exact ih.push (.inl hkind)

/-- A computation that appends windowless layers only. -/
theorem of_renames {α : Type} {x y : Lowering α} (h : plan.WindowsFrom scope g)
    (hrenames : Renames "" LayerKind.Windowless x y) :
    Runs (fun _ _ => True) g y fun _ g' => plan.WindowsFrom scope g' :=
  (hrenames.grows g).mono (fun _ _ _ => trivial) fun _ _ hg => h.grows hg

variable {front rest : List Vertex} {v : Vertex} {p : Progress}

/-- A node that is lowered. -/
theorem lowerOperator (h : plan.WindowsFrom scope g) {op : Operator}
    (hvertices : plan.network.vertices.toList = front ++ v :: rest)
    (hkind : v.kind = .operator op) (hstate : v.state ≠ .folded)
    (hturn : (front.zipIdx.foldlM (plan.lowerVertex scope) Progress.empty).run.run .empty =
      (.ok p, g)) :
    Runs (fun _ _ => True) g
      (Plan.lowerOperator scope p v op ((plan.facts.values front.length).map Operand.shape)
        (plan.layouts.getD front.length []))
      fun _ g' => plan.WindowsFrom scope g' := by
  unfold Plan.lowerOperator
  have hreads : Renames "" LayerKind.Windowless (p.tensors v) (p.tensors v) :=
    .mapM (fun i => .optionMapM (fun _ => .lift _) i) _
  refine (h.of_renames hreads).traced.bind fun inputs g₁ ⟨hinputs, h₁⟩ => ?_
  refine Runs.bind (Q := fun _ g' => plan.WindowsFrom scope g') ?_ fun tensors g' h' => ?_
  · refine Runs.bind (Q := fun _ g' => plan.WindowsFrom scope g') ?_ fun _ _ h => Runs.pure h
    cases hslides : op.sliding? (plan.placement scope front.length v inputs) with
    | none => exact h₁.of_renames (op.lower_windowless _ hslides)
    | some prepare =>
      refine (op.lower_slidesOnce hslides g₁).imp ?_
      rintro _ g' ⟨c, y, g₂, g₃, hprepared, happended, hg'⟩
      obtain ⟨_, hrenames⟩ := op.sliding_renames hslides
      have h₂ := (h₁.of_renames hrenames).value hprepared
      obtain ⟨hy, hg₃⟩ := (Lowering.add_spec g₂ _ _ _ _ _).value happended
      subst hg₃
      refine (h₂.push (.inr ?_)).grows hg'
      exact ⟨op, c, y, ⟨hvertices, hkind, hstate, hturn, hinputs, hslides, hprepared, happended⟩,
        rfl, rfl, by rw [hy]⟩
  -- only the number and the shapes of the outputs are still to be checked
  · split
    · exact h'.of_renames (.lift _)
    · split
      · exact h'.of_renames (.lift _)
      · exact Runs.pure h'

/-- A vertex that is lowered. -/
theorem lowerVertex (h : plan.WindowsFrom scope g)
    (hvertices : plan.network.vertices.toList = front ++ v :: rest)
    (hturn : (front.zipIdx.foldlM (plan.lowerVertex scope) Progress.empty).run.run .empty =
      (.ok p, g)) :
    Runs (fun _ _ => True) g (plan.lowerVertex scope p (v, front.length))
      fun _ g' => plan.WindowsFrom scope g' := by
  show Runs _ g (if v.state = .folded then _ else _) _
  split
  · exact Runs.pure h
  · rename_i hstate
    refine Runs.bind (Q := fun _ g' => plan.WindowsFrom scope g') ?_ fun p' g' h' => ?_
    · unfold lowerPending
      cases hkind : v.kind with
      | input declared => exact h.of_renames (lowerInput_renames scope p _ _)
      | constant c => exact h.of_renames (.lift _)
      | output =>
        dsimp only
        split
        · exact h.of_renames (lowerOutput_renames scope p _ _)
        · exact h.of_renames (.lift _)
      | operator op => exact h.lowerOperator hvertices hkind hstate hturn
    · exact h'.of_renames (.bind (.map (.lift _) _) fun _ => .pure _)

end WindowsFrom

/-- **Every layer with a window was slid over its input by a node.** -/
theorem lower_windowsFrom (plan : Plan) (scope : String) :
    Runs (fun _ _ => True) .empty (plan.lower scope) fun _ g => plan.WindowsFrom scope g := by
  refine Runs.bind (Q := fun _ g => plan.WindowsFrom scope g) ?_ fun _ _ h => Runs.pure h
  refine Runs.foldlM_traced (I := fun _ _ g => plan.WindowsFrom scope g) ?_ windowsFrom_empty
  intro front v rest hvertices p g hturn h
  exact h.lowerVertex hvertices hturn

end Plan

/-! ### Compiling -/

namespace Model

variable {m : Model} {registry : Registry} {options : CompileOptions} {net : Network} {plan : Plan}

/-- The operators of a plan are as they were read. -/
theorem PlannedBy.checked (h : m.PlannedBy registry options net plan) {i : Nat} {v : Vertex}
    {op : Operator} (hv : plan.network.vertices[i]? = some v) (hkind : v.kind = .operator op) :
    op.action.Checked := by
  obtain ⟨u, state, hu, rfl, -⟩ := h.sound.explained.of_marked hv
  obtain ⟨order, hlinked⟩ := h.linked
  rcases hlinked.vertex_cases hu with ⟨_, -, rfl⟩ | ⟨_, -, rfl⟩ | ⟨_, -, hnode⟩ | ⟨_, -, houtput⟩
  · cases hkind
  · cases hkind
  · obtain ⟨n, op', inputs, -, hcreate, hu', -⟩ := hnode
    obtain rfl : u = _ := hu'
    cases hkind
    exact ((registry.create_checked n m.opset).value hcreate).2
  · obtain ⟨w, hu', -⟩ := houtput
    obtain rfl : u = _ := hu'
    cases hkind

/-- **What a node slides takes as many positions as come out**, unless it averages nothing. -/
theorem PlannedBy.sweeps_iff (h : m.PlannedBy registry options net plan) {scope : String}
    {op : Operator} {y : Handle} (hslides : plan.Slides scope op c y) :
    ∃ w, c.kind.window? = some w ∧
      ((∀ d ∈ c.input.shape.dims, d < wordLimit) → w.Fits c.input) ∧
      (w.Sweeps c.input y ↔ ¬ op.AveragesNothing c.input.shape) := by
  obtain @⟨front, rest, v, p, inputs, prepare, g₀, g₁, g₂, g₃, hvertices, hkind, hstate, hturn,
    hreads, hprepare, hprepared, happended⟩ := hslides
  obtain ⟨order, hlinked⟩ := h.linked
  have hv : plan.network.vertices[front.length]? = some v := by
    rw [← Array.getElem?_toList, hvertices]
    simp
  have hplanned := h.sound.planned hlinked.ordered hv
  have hsound := ((Plan.front_runs h.sound hlinked.ordered ⟨v :: rest, hvertices.symm⟩
    scope).value hturn).sound
  have hexplains := hplanned.explains
  have hheader := hplanned.kind
  unfold Vertex.Explains at hexplains
  rw [hkind] at hexplains hheader
  obtain ⟨ops, s, hops, hs, ⟨-, hvalues⟩ | ⟨hfolded, -⟩⟩ := hexplains
  · -- the tensors that are read stand for the operands of inference
    obtain ⟨rfl, hinputs⟩ := (hsound.bound.tensors_runs (P := fun _ _ => True) hops
      (fun w hw => by rw [hsound.size]; exact (hplanned.inputs w hw).1) v.header).value hreads
    have hready : (plan.placement scope front.length v inputs).Ready g₁ ops s :=
      ⟨hinputs, by simp [Plan.placement, hvalues], hplanned.layout s hvalues⟩
    have hlowers := op.sliding_lowers hready hheader hs (h.checked hv hkind) hprepare
    obtain ⟨-, -, -, w, hw, hsweeps⟩ := (hlowers hsound.graph).value hprepared
    obtain ⟨rfl, -⟩ := (Lowering.add_spec _ _ _ _ _ _).value happended
    exact ⟨w, hw, hsweeps _ rfl rfl⟩
  · exact absurd hfolded hstate

/-- **The windows of a compiled model.** Every convolution and every pooling among the layers was
slid over its input by a node of the plan. Along height and width, kernel, stride and dilation are
positive and the window takes as many positions over the input as the output has, if and only if the
node is not a mean over an axis without positions. The sizes from which the positions are computed
have words if the extents of the input have. -/
theorem compile_windows (m : Model) (registry : Registry) (options : CompileOptions)
    (e : Endpoints) (g : LayerGraph) (hcompile : m.compile registry options = (.ok e, g)) :
    ∃ plan, m.plan registry options = .ok plan ∧
      ∀ i l w, g.layer? i = some l → l.kind.window? = some w →
        ∃ op c y, plan.Slides options.scope op c y ∧ l.kind = c.kind ∧
          l.inputs = [c.input.outlet] ∧ y.outlet = ⟨i, 0⟩ ∧
          ((∀ d ∈ c.input.shape.dims, d < wordLimit) → w.Fits c.input) ∧
          (w.Sweeps c.input y ↔ ¬ op.AveragesNothing c.input.shape) := by
  have hruns : Runs (fun _ _ => True) .empty
      (do (← m.plan registry options).lower options.scope : Lowering Endpoints) fun _ g =>
        ∃ plan, m.plan registry options = .ok plan ∧ plan.WindowsFrom options.scope g :=
    Runs.value_bind fun plan hplan =>
      (plan.lower_windowsFrom options.scope).imp fun _ _ hwindows => ⟨plan, hplan, hwindows⟩
  rw [compile_eq] at hcompile
  obtain ⟨plan, hplan, hwindows⟩ := hruns.value hcompile
  obtain ⟨net, hnet⟩ := (m.plan_yields registry options).value hplan
  refine ⟨plan, hplan, fun i l w hl hw => ?_⟩
  rcases hwindows i l hl with hnone | ⟨op, c, y, hslides, hkind, hinputs, houtlet⟩
  · rw [LayerKind.Windowless, hw] at hnone
    cases hnone
  · obtain ⟨w', hw', hiff⟩ := hnet.sweeps_iff hslides
    rw [hkind, hw'] at hw
    cases hw
    exact ⟨op, c, y, hslides, hkind, hinputs, houtlet, hiff⟩

/-- A layer with a window in a model that compiles. -/
theorem exists_window {i : Nat} {w : PlaneWindow} (hok : (m.compile registry options).1.isOk = true)
    (hwindow : ((m.compile registry options).2.layer? i).bind (fun l => l.kind.window?) = some w) :
    ∃ e g l, m.compile registry options = (.ok e, g) ∧ g.layer? i = some l ∧
      l.kind.window? = some w := by
  rcases hcompile : m.compile registry options with ⟨f | e, g⟩
  · rw [hcompile] at hok
    cases hok
  · rw [hcompile] at hwindow
    obtain ⟨l, hl, hw⟩ := Option.bind_eq_some_iff.1 hwindow
    exact ⟨e, g, l, rfl, hl, hw⟩

/-- A pooling that moves by two over a padded plane. -/
def stridedPool : Model where
  opset := 12
  inputs := [⟨"x", ⟨[1, 3, 5, 8]⟩, .float⟩]
  initializers := []
  nodes := [⟨"MaxPool", "pool", ["x"], ["y"], [("kernel_shape", .ints [3, 2]),
    ("strides", .ints [2, 2]), ("pads", .ints [1, 0, 1, 0])]⟩]
  outputs := ["y"]

/-- The pooling is the layer behind the source, and takes three positions along the height and four
along the width. -/
theorem stridedPool_windows :
    ∃ e g l plan, stridedPool.compile .builtins {} = (.ok e, g) ∧
      stridedPool.plan .builtins {} = .ok plan ∧ g.layer? 1 = some l ∧
      l.kind.window? = some ⟨⟨3, 2⟩, ⟨2, 2⟩, ⟨1, 0⟩, ⟨1, 1⟩⟩ ∧
      SweepsTo 3 2 1 1 5 3 ∧ SweepsTo 2 2 0 1 8 4 ∧
      ∃ op c y, plan.Slides "" op c y ∧ l.inputs = [c.input.outlet] ∧ y.outlet = ⟨1, 0⟩ ∧
        ((∀ d ∈ c.input.shape.dims, d < wordLimit) →
          PlaneWindow.Fits ⟨⟨3, 2⟩, ⟨2, 2⟩, ⟨1, 0⟩, ⟨1, 1⟩⟩ c.input) ∧
        (PlaneWindow.Sweeps ⟨⟨3, 2⟩, ⟨2, 2⟩, ⟨1, 0⟩, ⟨1, 1⟩⟩ c.input y ↔
          ¬ op.AveragesNothing c.input.shape) := by
  have hok : (stridedPool.compile .builtins {}).1.isOk = true := by cbv
  have hwindow : ((stridedPool.compile .builtins {}).2.layer? 1).bind (fun l => l.kind.window?) =
      some ⟨⟨3, 2⟩, ⟨2, 2⟩, ⟨1, 0⟩, ⟨1, 1⟩⟩ := by cbv
  obtain ⟨e, g, l, hcompile, hl, hw⟩ := exists_window hok hwindow
  obtain ⟨plan, hplan, hwindows⟩ := compile_windows stridedPool .builtins {} e g hcompile
  obtain ⟨op, c, y, hslides, -, hinputs, houtlet, hiff⟩ := hwindows 1 l _ hl hw
  refine ⟨e, g, l, plan, hcompile, hplan, hl, hw, by decide, by decide, ?_⟩
  exact ⟨op, c, y, hslides, hinputs, houtlet, hiff⟩

/-- A mean over an axis without positions. -/
def emptyMean : Model where
  opset := 12
  inputs := [⟨"x", ⟨[2, 0]⟩, .float⟩]
  initializers := []
  nodes := [⟨"ReduceMean", "r", ["x"], ["y"], [("axes", .ints [1])]⟩]
  outputs := ["y"]

/-- The mean is compiled to a pooling without points that does not move. -/
theorem emptyMean_window :
    ∃ e g l w, emptyMean.compile .builtins {} = (.ok e, g) ∧ g.layer? 1 = some l ∧
      l.kind.window? = some w ∧ w.kernel.height = 0 ∧ w.strides.height = 0 ∧
      ∀ x y, ¬ w.Sweeps x y := by
  have hok : (emptyMean.compile .builtins {}).1.isOk = true := by cbv
  have hwindow : ((emptyMean.compile .builtins {}).2.layer? 1).bind (fun l => l.kind.window?) =
      some ⟨⟨0, 1⟩, ⟨0, 1⟩, ⟨0, 0⟩, ⟨1, 1⟩⟩ := by cbv
  obtain ⟨e, g, l, hcompile, hl, hw⟩ := exists_window hok hwindow
  refine ⟨e, g, l, _, hcompile, hl, hw, rfl, rfl, fun x y hsweeps => ?_⟩
  exact absurd hsweeps.1.1 (by decide)

end Model

end Lamina
