import Mathlib
import Lamina.Proofs.Blocks
import Lamina.Proofs.Conversions
import Lamina.Proofs.Elementwise
import Lamina.Proofs.LayoutIndependence

/-!
# Weights in layers

A layer with weights wants its constants in an order of its own: matrices by columns, filters with
their channels last, gates in another sequence. Constants come under any layout, so what a layer has
in memory is stated against the element of each index (`Constant.elementAt`), converted to a word
(`Constant.wordAt`), and never against the buffer that a constant came in.

Most of it is done by laying a constant out anew. The word of an index is then where the target
layout puts it (`Constant.hasWord_toLayout`), and for a known list of slots that place is row-major
in the order of the slots (`Layout.place_of_slots`). Gates are moved by hand, block by block, which
is picking rows (`inGateSequence_eq_pickRows`).

**Theorem** (`Operator.lower_packs`): the layer that a product, a convolution or a recurrent unit
becomes holds exactly the words of its operands, in the order of the layer.
-/

namespace Lamina

/-! ### Words -/

/-- An element as a word. -/
def Element.word : Element → Binary32
  | float x => x
  | int i => .ofInt64 i

/-- The element of an index as a word. -/
def Constant.wordAt (c : Constant) (ix : List Nat) : Option Binary32 :=
  (c.elementAt ix).map Element.word

/-- There is a word, and a buffer has it at the row-major place of an index. -/
def Buffer.HasWord (b : Buffer) (dims ix : List Nat) (x : Option Binary32) : Prop :=
  ∃ w, x = some w ∧ b.get? (place dims ix) = some (.float w)

section Words

variable {b : Buffer} {c c' : Constant} {v : Array Binary32} {dims ix : List Nat} {k : Nat}

theorem Buffer.getElem?_toFloats (b : Buffer) (k : Nat) :
    b.toFloats[k]? = (b.get? k).map Element.word := by
  cases b with
  | floats v => simp [toFloats, get?, Element.word, Function.comp_def]
  | ints v => simp [toFloats, get?, Element.word, Function.comp_def]

theorem Buffer.exists_float (htype : b.elementType = .float) (hk : k < b.size) :
    ∃ w, b.get? k = some (.float w) := by
  cases b with
  | floats v => exact ⟨v[k], by rw [get?, Array.getElem?_eq_getElem hk]; rfl⟩
  | ints v => cases htype

/-- The words of a buffer are where its array has them. -/
theorem Buffer.hasWord_floats (hix : Within dims ix) (hsize : v.size = positions dims) :
    (floats v).HasWord dims ix v[place dims ix]? := by
  obtain ⟨w, hw⟩ : ∃ w, v[place dims ix]? = some w :=
    ⟨_, Array.getElem?_eq_getElem (hsize ▸ place_lt hix)⟩
  exact ⟨w, hw, by rw [get?, hw]; rfl⟩

namespace Constant

/-- The words in axis order. -/
theorem getElem?_floats (hix : Within c.shape.dims ix) :
    c.floats[place c.shape.dims ix]? = c.wordAt ix := by
  rw [floats, Buffer.getElem?_toFloats, source_get? hix, wordAt]

theorem wordAt_cast (c : Constant) (ix : List Nat) : (c.cast .float).wordAt ix = c.wordAt ix := by
  unfold cast
  split
  · rfl
  · simp only [wordAt, elementAt, Buffer.elementAt, Buffer.cast, Buffer.get?,
      Buffer.getElem?_toFloats, Option.map_map]
    rfl

theorem elementType_cast (c : Constant) (t : ElementType) : (c.cast t).elementType = t := by
  unfold cast
  split
  · assumption
  · cases t <;> rfl

/-- **Words under another layout** are where it puts their indices. -/
theorem hasWord_toLayout {target : Layout} {packed jx : List Nat} (htype : c.elementType = .float)
    (hc : c.toLayout target = .ok c') (hix : Within c.shape.dims ix)
    (hplace : target.place c.shape.dims ix = place packed jx) :
    c'.data.HasWord packed jx (c.wordAt ix) := by
  obtain ⟨hshape, rfl, htype', helement⟩ := elementAt_toLayout hc
  have hat : c'.data.get? (place packed jx) = c.elementAt ix := by
    rw [← hplace, ← helement ix hix, elementAt, Buffer.elementAt, hshape]
  have hlt : place packed jx < c'.data.size := by
    rw [← hplace, c'.size_eq, hshape]
    exact Layout.place_lt (hshape ▸ c'.layout_fits) hix
  obtain ⟨w, hw⟩ := Buffer.exists_float (htype'.trans htype) hlt
  exact ⟨w, by rw [wordAt, ← hat, hw]; rfl, hw⟩

/-- Words that are changed one by one. -/
theorem wordAt_of_map {change : Binary32 → Binary32} (hshape : c'.shape = c.shape)
    (hsource : c'.source = .floats (c.floats.map change)) (hix : Within c.shape.dims ix) :
    c'.wordAt ix = (c.wordAt ix).map change := by
  have hfloats : c'.floats = c.floats.map change := congrArg Buffer.toFloats hsource
  rw [← getElem?_floats (hshape ▸ hix), hfloats, hshape, Array.getElem?_map, getElem?_floats hix]

/-- Unit axes behind the others do not change which word an index has. -/
theorem wordAt_of_units {n : Nat} (hshape : c'.shape.dims = c.shape.dims ++ List.replicate n 1)
    (hsource : c'.source = c.source) (hix : Within c'.shape.dims ix) :
    c'.wordAt ix = c.wordAt (ix.take c.shape.rank) := by
  have hfloats : c'.floats = c.floats := congrArg Buffer.toFloats hsource
  rw [← getElem?_floats hix, hfloats, hshape]
  rw [hshape] at hix
  obtain ⟨left, right, rfl, hleft, hright⟩ := hix.exists_append
  have htake : (left ++ right).take c.shape.rank = left := List.take_left' hleft.length_eq
  rw [htake, within_replicate_one.1 hright, ← getElem?_floats hleft]
  have hplace : place (pad 1 0 c.shape.dims n) (pad 0 0 left n) = place c.shape.dims left :=
    place_pad_axes hleft
  exact congrArg (c.floats[·]?) hplace

end Constant

end Words

/-! ### Layouts of weights -/

namespace Layout

variable {l : Layout} {dims ix : List Nat} {slots : List Slot}

theorem slots_of_ofSlots (hnodup : slots.Nodup) (hl : ofSlots slots = .ok l) : l.slots = slots :=
  (ofSlots_yields (P := fun _ => True) hnodup).value hl

/-- The place of an index under known slots. -/
theorem place_of_slots (hl : l.slots = slots) (hlength : slots.length = dims.length)
    {order : List Nat} (horder : Slot.all.filterMap slots.idxOf? = order) :
    l.place dims ix = Lamina.place (arrangedDims order dims) (arrangedIndex order ix) := by
  have hrank : l.rank = dims.length := (congrArg List.length hl).trans hlength
  have hposition : l.position? = slots.idxOf? := by
    rw [← hl]
    rfl
  rw [place, memoryOrder_eq_filterMap hrank, hposition, horder]

/-- A matrix that is transposed unless it is stored so already. -/
theorem place_columns {transposed : Bool} {k n i j : Nat}
    (hl : l.slots = matrixSlots (!transposed)) :
    l.place (if transposed then [n, k] else [k, n]) (if transposed then [j, i] else [i, j]) =
      Lamina.place [n, k] [j, i] := by
  have horder : ∀ stored, Slot.all.filterMap (matrixSlots stored).idxOf? =
      if stored then [1, 0] else [0, 1] := by decide
  cases transposed with
  | false => exact place_of_slots hl rfl (horder true)
  | true => exact place_of_slots hl rfl (horder false)

/-- Filters with their channels last. -/
theorem place_filters {d₀ d₁ d₂ d₃ f c h w : Nat}
    (hl : l.slots = [.batchWidth, .channels, .height, .width]) :
    l.place [d₀, d₁, d₂, d₃] [f, c, h, w] = Lamina.place [d₀, d₂, d₃, d₁] [f, h, w, c] :=
  place_of_slots hl rfl (by decide : _ = [0, 2, 3, 1])

/-- One filter per channel, again with the channels last. -/
theorem place_channelwise {d₀ d₂ d₃ c h w : Nat}
    (hl : l.slots = [.channels, .batchWidth, .height, .width]) :
    l.place [d₀, 1, d₂, d₃] [c, 0, h, w] = Lamina.place [d₂, d₃, d₀] [h, w, c] := by
  rw [place_of_slots hl rfl (by decide : _ = [1, 2, 3, 0])]
  simp [arrangedDims, arrangedIndex, Lamina.place]

end Layout

/-! ### Matrices -/

/-- A matrix `op(B)` of `k` rows and `n` columns is stored by columns, each entry changed by a
rule. -/
structure Constant.PacksColumns (weights b : Constant) (transposed : Bool)
    (change : Binary32 → Binary32) (k n : Nat) : Prop where
  extents : b.shape.dims = if transposed then [n, k] else [k, n]
  size : weights.data.size = n * k
  entry : ∀ j < n, ∀ i < k, weights.data.HasWord [n, k] [j, i]
    ((b.wordAt (if transposed then [j, i] else [i, j])).map change)

/-- A free term has one entry per column: the one of that column in any row of the tensor repeated
along the rows, changed by a rule. -/
structure Constant.PacksRow (freeTerm c : Constant) (change : Binary32 → Binary32) (n : Nat) :
    Prop where
  size : freeTerm.data.size = n
  entry : ∀ i, ∀ j < n, freeTerm.data.HasWord [n] [j]
    ((c.wordAt (Broadcast.ownIndex c.shape (2 - c.shape.rank) [i, j])).map change)

section Matrices

variable {b c c' weights : Constant} {transposed : Bool} {change : Binary32 → Binary32}
  {k m n : Nat}

/-- Words under the layout of the weights of a layer are stored by columns. -/
theorem Constant.packsColumns_of_toLayout {layout : Layout}
    (hlayout : layout.slots = matrixSlots (!transposed)) (htype : c.elementType = .float)
    (hweights : c.toLayout layout = .ok weights)
    (hdims : b.shape.dims = if transposed then [n, k] else [k, n]) (hshape : c.shape = b.shape)
    (hwords : ∀ ix, Within b.shape.dims ix → c.wordAt ix = (b.wordAt ix).map change) :
    weights.PacksColumns b transposed change k n := by
  refine ⟨hdims, ?_, fun j hj i hi => ?_⟩
  · obtain ⟨hshape', -⟩ := elementAt_toLayout hweights
    rw [weights.size_eq, hshape', hshape, Shape.count, hdims]
    cases transposed <;> simp [Nat.mul_comm]
  · have hix : Within b.shape.dims (if transposed then [j, i] else [i, j]) := by
      rw [hdims]
      cases transposed with
      | false => exact .cons hi (.cons hj .nil)
      | true => exact .cons hj (.cons hi .nil)
    rw [← hwords _ hix]
    refine hasWord_toLayout htype hweights (hshape ▸ hix) ?_
    rw [hshape, hdims]
    exact Layout.place_columns hlayout

/-- The extents of the right factor. -/
theorem Gemm.dims_right {params : Gemm} {h : Header} {a b : Shape} {d : ProductDims}
    (hd : params.dims h a b = .ok d) :
    b.dims = if params.transB then [d.n, d.k] else [d.k, d.n] := by
  unfold dims at hd
  split at hd
  · rename_i a₀ a₁ b₀ b₁ _ hb
    dsimp only at hd
    generalize (if params.transA = true then (a₁, a₀) else (a₀, a₁)) = left at hd
    generalize hright : (if params.transB = true then (b₁, b₀) else (b₀, b₁)) = right at hd
    split at hd
    · rename_i hk
      obtain rfl := Except.ok.inj hd
      rw [hb, hk, ← hright]
      cases params.transB <;> rfl
    · exact absurd hd Site.fail_ne_ok
  · exact absurd hd Site.fail_ne_ok

/-- Where a tensor is the same in all rows, the row of an index does not matter. -/
theorem ownIndex_row {s : Shape} (hrows : ¬ (2 < s.rank ∨ (s.rank = 2 ∧ s.extent 0 ≠ 1)))
    (i j : Nat) : Broadcast.ownIndex s (2 - s.rank) [i, j] =
      Broadcast.ownIndex s (2 - s.rank) [0, j] := by
  obtain ⟨dims⟩ := s
  rcases dims with _ | ⟨d, _ | ⟨e, _ | ⟨_, dims⟩⟩⟩
  · rfl
  · rfl
  · obtain rfl : d = 1 := by simpa [Shape.rank, Shape.extent] using hrows
    simp [Broadcast.ownIndex, Shape.rank, clip]
  · simp [Shape.rank] at hrows

/-- A tensor that is the same in all rows, as one row. -/
theorem freeRow_packsRow (h : Header) (params : Gemm)
    (hc : Broadcast.Aligned .trailing c.shape ⟨[m, n]⟩) :
    Yields (Fault.Own h.site) (freeRow h params c n) fun f =>
      f.PacksRow c params.beta.scaledBy n := by
  unfold freeRow
  refine .refuse rfl fun hrows => ?_
  refine ((Broadcast.shapes_trailing_yields h.site _ c.shape).map (R := fun _ => True)
    fun _ _ => trivial).bind fun _ _ => ?_
  have hembeds := embeds_row hc hrows
  obtain ⟨expanded, hexpanded, -⟩ :=
    (Broadcast.constant_yields (P := fun _ => False) hembeds).exists_ok
  obtain ⟨hshape, -⟩ := Broadcast.elementAt_constant hembeds hexpanded
  refine (Yields.of_eq_ok (Q := (expanded = ·)) hexpanded rfl).bind ?_
  rintro _ rfl
  refine (Yields.of_eq_ok (Q := (_ = ·)) (Buffer.scaled_floats expanded.floats _) rfl).bind ?_
  rintro _ rfl
  refine (Layout.ofSlots_rank_yields (by decide)).bind fun layout hlayout => ?_
  have hfloats : expanded.floats.size = n := by
    rw [Constant.size_floats, hshape]
    simp [Shape.count]
  have hfits : layout.fits (Shape.rank ⟨[n]⟩) = true := Layout.fits_of_rank hlayout
  refine (Constant.ofParts_yields hfits ?_).imp ?_
  · simp [Buffer.size, Shape.count, hfloats]
  rintro f ⟨-, -, hdata⟩
  refine ⟨by simp [hdata, Buffer.size, hfloats], fun i j hj => ?_⟩
  have hix : Within (Shape.dims ⟨[1, n]⟩) [0, j] := .cons Nat.one_pos (.cons hj .nil)
  have hword := Constant.getElem?_floats (hshape ▸ hix)
  have hplace : place expanded.shape.dims [0, j] = place [n] [j] := by
    rw [hshape]
    simp [place]
  rw [hplace, Constant.wordAt, (Broadcast.elementAt_own hembeds hexpanded hix).2] at hword
  have hwords : (expanded.floats.map params.beta.scaledBy).size = positions [n] := by
    simp [hfloats]
  have hentry := Buffer.hasWord_floats (.cons hj .nil) hwords
  rw [Array.getElem?_map, hword] at hentry
  rw [hdata, ownIndex_row hrows]
  exact hentry

end Matrices

/-! ### Filters -/

/-- Filters across all channels are stored as `[filter, height, width, channel]`. Those of one
spatial axis have a width of one. -/
structure Constant.PacksFilters (filter w : Constant) : Prop where
  rank : w.shape.rank = 3 ∨ w.shape.rank = 4
  size : filter.data.size = w.shape.count
  entry : ∀ f < w.shape.extent 0, ∀ i < w.shape.extent 2, ∀ j < w.shape.extent 3,
    ∀ c < w.shape.extent 1, filter.data.HasWord
      [w.shape.extent 0, w.shape.extent 2, w.shape.extent 3, w.shape.extent 1] [f, i, j, c]
      (w.wordAt ([f, c, i, j].take w.shape.rank))

/-- Filters of one channel each are stored as `[height, width, channel]`. -/
structure Constant.PacksChannelwise (filter w : Constant) : Prop where
  rank : w.shape.rank = 3 ∨ w.shape.rank = 4
  single : w.shape.extent 1 = 1
  size : filter.data.size = w.shape.count
  entry : ∀ i < w.shape.extent 2, ∀ j < w.shape.extent 3, ∀ c < w.shape.extent 0,
    filter.data.HasWord [w.shape.extent 2, w.shape.extent 3, w.shape.extent 0] [i, j, c]
      (w.wordAt ([c, 0, i, j].take w.shape.rank))

/-- The words of filters with unit axes behind their own, four in all. -/
structure Constant.FourAxes (four w : Constant) : Prop where
  rank : w.shape.rank = 3 ∨ w.shape.rank = 4
  extents : four.shape.dims =
    [w.shape.extent 0, w.shape.extent 1, w.shape.extent 2, w.shape.extent 3]
  count : four.shape.count = w.shape.count
  elementType : four.elementType = .float
  word : ∀ ix, Within four.shape.dims ix → four.wordAt ix = w.wordAt (ix.take w.shape.rank)

section Filters

variable {four w filter : Constant}

/-- Up to four axes, followed by unit axes, have four extents. -/
theorem Shape.four_extents {s : Shape} (hrank : s.rank ≤ 4) :
    s.dims ++ List.replicate (4 - s.rank) 1 = [s.extent 0, s.extent 1, s.extent 2, s.extent 3] := by
  obtain ⟨dims⟩ := s
  rcases dims with _ | ⟨_, _ | ⟨_, _ | ⟨_, _ | ⟨_, _ | ⟨_, dims⟩⟩⟩⟩⟩
  case cons.cons.cons.cons.cons =>
    simp only [rank, List.length_cons] at hrank
    omega
  all_goals rfl

theorem Constant.fourAxes_of_reshaped (hrank : w.shape.rank = 3 ∨ w.shape.rank = 4)
    (hfour : (w.cast .float).reshaped ⟨w.shape.dims ++ List.replicate (4 - w.shape.rank) 1⟩ =
      .ok four) : four.FourAxes w := by
  have hcount : Shape.count ⟨w.shape.dims ++ List.replicate (4 - w.shape.rank) 1⟩ =
      (w.cast .float).shape.count := by simp [Shape.count]
  obtain ⟨hshape, hsource⟩ := source_reshaped hcount hfour
  have hunits : four.shape.dims =
      (w.cast .float).shape.dims ++ List.replicate (4 - w.shape.rank) 1 := by
    rw [hshape, w.shape_cast]
  refine ⟨hrank, ?_, ?_, ?_, fun ix hix => ?_⟩
  · rw [hshape, Shape.four_extents (by omega)]
  · rw [hshape, hcount, w.shape_cast]
  · rw [elementType, ← four.elementType_source, hsource, elementType_source]
    exact w.elementType_cast .float
  · rw [wordAt_of_units hunits hsource hix, w.wordAt_cast, w.shape_cast]

namespace Constant.FourAxes

variable {l : Layout}

theorem size_toLayout (h : four.FourAxes w) (hfilter : four.toLayout l = .ok filter) :
    filter.data.size = w.shape.count := by
  obtain ⟨hshape, -⟩ := elementAt_toLayout hfilter
  rw [filter.size_eq, hshape, h.count]

theorem packsFilters (h : four.FourAxes w) (hfilter : four.toLayout l = .ok filter)
    (hl : l.slots = [.batchWidth, .channels, .height, .width]) : filter.PacksFilters w := by
  refine ⟨h.rank, h.size_toLayout hfilter, fun f hf i hi j hj c hc => ?_⟩
  have hix : Within four.shape.dims [f, c, i, j] := by
    rw [h.extents]
    exact .cons hf (.cons hc (.cons hi (.cons hj .nil)))
  rw [← h.word _ hix]
  exact hasWord_toLayout h.elementType hfilter hix (h.extents ▸ Layout.place_filters hl)

theorem packsChannelwise (h : four.FourAxes w) (hfilter : four.toLayout l = .ok filter)
    (hl : l.slots = [.channels, .batchWidth, .height, .width]) (hsingle : w.shape.extent 1 = 1) :
    filter.PacksChannelwise w := by
  refine ⟨h.rank, hsingle, h.size_toLayout hfilter, fun i hi j hj c hc => ?_⟩
  have hextents := h.extents
  rw [hsingle] at hextents
  have hix : Within four.shape.dims [c, 0, i, j] := by
    rw [hextents]
    exact .cons hc (.cons Nat.one_pos (.cons hi (.cons hj .nil)))
  rw [← h.word _ hix]
  exact hasWord_toLayout h.elementType hfilter hix (hextents ▸ Layout.place_channelwise hl)

end Constant.FourAxes

/-- **The filters of a convolution**, across all channels or channel by channel. -/
theorem convKind_packs {p : Placement} {group channels : Nat} {bias : Option Constant}
    {params : ConvGeometry} {kind : LayerKind} (hrank : w.shape.rank = 3 ∨ w.shape.rank = 4)
    (hkind : convKind p group channels (w.cast .float) bias params = .ok kind) :
    ∃ filter, (group = 1 ∧ kind = .conv filter bias params ∧ filter.PacksFilters w) ∨
      (group ≠ 1 ∧ kind = .channelwiseConv filter bias params ∧ filter.PacksChannelwise w) := by
  have htake : w.shape.dims.take 4 = w.shape.dims :=
    List.take_of_length_le (show w.shape.rank ≤ 4 by omega)
  unfold convKind at hkind
  dsimp only at hkind
  rw [w.shape_cast, htake] at hkind
  obtain ⟨four, hreshaped, hkind⟩ := bind_eq_ok.1 hkind
  have hfour := Constant.fourAxes_of_reshaped hrank hreshaped
  split at hkind
  · rename_i hgroup
    obtain ⟨l, hl, hkind⟩ := bind_eq_ok.1 hkind
    obtain ⟨filter, hfilter, hkind⟩ := bind_eq_ok.1 hkind
    exact ⟨filter, .inl ⟨hgroup, (pure_eq_ok.1 hkind).symm,
      hfour.packsFilters hfilter (Layout.slots_of_ofSlots (by decide) hl)⟩⟩
  · rename_i hgroup
    split at hkind
    · rename_i hchannels
      obtain ⟨-, -, hsingle⟩ := hchannels
      obtain ⟨l, hl, hkind⟩ := bind_eq_ok.1 hkind
      obtain ⟨filter, hfilter, hkind⟩ := bind_eq_ok.1 hkind
      exact ⟨filter, .inr ⟨hgroup, (pure_eq_ok.1 hkind).symm,
        hfour.packsChannelwise hfilter (Layout.slots_of_ofSlots (by decide) hl) hsingle⟩⟩
    · exact absurd hkind Site.fail_ne_ok

end Filters

/-! ### Gates -/

/-- The weights of four gates are stored in the order of the layer, one row per value of a gate. -/
structure Constant.PacksGates (packed w : Constant) (hidden columns : Nat) : Prop where
  extents : w.shape.dims = [1, 4 * hidden, columns]
  size : packed.data.size = 4 * hidden * columns
  entry : ∀ g s : Nat, [3, 2, 0, 1][g]? = some s → ∀ r < hidden, ∀ j < columns,
    packed.data.HasWord [4 * hidden, columns] [g * hidden + r, j]
      (w.wordAt [0, s * hidden + r, j])

/-- The bias of a gate is the sum of its bias for the input and its bias for the state. -/
structure Constant.PacksBias (packed b : Constant) (hidden : Nat) : Prop where
  extents : b.shape.dims = [1, 8 * hidden]
  size : packed.data.size = 4 * hidden
  entry : ∀ g s : Nat, [3, 2, 0, 1][g]? = some s → ∀ r < hidden,
    packed.data.HasWord [4 * hidden] [g * hidden + r]
      (Option.map₂ Binary32.add (b.wordAt [0, s * hidden + r])
        (b.wordAt [0, (4 + s) * hidden + r]))

section Gates

variable {data : Array Binary32} {w b packed : Constant} {block hidden columns g s e : Nat}

/-- Rows of a gate are among the rows of all gates, in both orders. -/
theorem gate_row_lt {r : Nat} (hs : gateSequence[g]? = some s) (hr : r < hidden) :
    g * hidden + r < 4 * hidden ∧ s * hidden + r < 4 * hidden :=
  ⟨block_add_lt (List.getElem?_eq_some_iff.1 hs).1 hr,
    block_add_lt (gateSequence_lt s (List.mem_of_getElem? hs)) hr⟩

/-- The blocks of the gates, in the order of the layer. -/
theorem getElem?_inGateSequence (hsize : data.size = 4 * block) (hs : gateSequence[g]? = some s)
    (he : e < block) : (inGateSequence data block)[g * block + e]? = data[s * block + e]? := by
  have hpick := getElem?_pickRows (hsize.trans (Nat.one_mul _).symm) gateSequence_lt Nat.one_pos hs
    he
  rw [Nat.zero_mul, Nat.zero_add, Nat.zero_mul, Nat.zero_add] at hpick
  rw [inGateSequence_eq_pickRows, hpick]

/-- **The weights of the gates.** -/
theorem stackedGates_packs (hdims : w.shape.dims = [1, 4 * hidden, columns])
    (hpacked : stackedGates hidden w = .ok packed) : packed.PacksGates w hidden columns := by
  have hrows : w.shape.extent 1 = 4 * hidden := by simp [Shape.extent, hdims]
  have hcolumns : w.shape.extent 2 = columns := by simp [Shape.extent, hdims]
  have hcount : w.floats.size = 4 * (hidden * columns) := by
    rw [Constant.size_floats, Shape.count, hdims]
    simp [Nat.mul_assoc]
  obtain ⟨layout, -, hpacked⟩ := bind_eq_ok.1 hpacked
  rw [hrows, hcolumns] at hpacked
  obtain ⟨-, -, hdata⟩ := Constant.parts_of_ofParts hpacked
  have hsize : (inGateSequence w.floats (hidden * columns)).size =
      positions [4 * hidden, columns] := by
    rw [size_inGateSequence hcount]
    simp [Nat.mul_assoc]
  refine ⟨hdims, by simp [hdata, Buffer.size, hsize], fun g s hs r hr j hj => ?_⟩
  have hplace (g : Nat) : (g * hidden + r) * columns + j =
      g * (hidden * columns) + (r * columns + j) := by ring
  have hix : Within [4 * hidden, columns] [g * hidden + r, j] :=
    .cons (gate_row_lt hs hr).1 (.cons hj .nil)
  have hix' : Within w.shape.dims [0, s * hidden + r, j] := by
    rw [hdims]
    exact .cons Nat.one_pos (.cons (gate_row_lt hs hr).2 (.cons hj .nil))
  have hentry := Buffer.hasWord_floats hix hsize
  rw [hdata, ← Constant.getElem?_floats hix']
  simp only [hdims, place, positions_cons, positions_nil, Nat.mul_one, Nat.zero_mul, Nat.zero_add,
    Nat.add_zero] at hentry ⊢
  rwa [hplace, getElem?_inGateSequence hcount hs (block_add_lt hr hj), ← hplace] at hentry

/-- The gates in one part of a buffer. -/
theorem getElem?_inGateSequence_extract {start stop r : Nat}
    (hsize : (data.extract start stop).size = 4 * hidden) (hs : gateSequence[g]? = some s)
    (hr : r < hidden) :
    (inGateSequence (data.extract start stop) hidden)[g * hidden + r]? =
      data[start + (s * hidden + r)]? := by
  have hrow := (gate_row_lt hs hr).2
  rw [getElem?_inGateSequence hsize hs hr, Array.getElem?_extract, if_pos]
  rw [Array.size_extract] at hsize
  omega

/-- **The biases of the gates**, each the sum of two entries that are four gates apart. -/
theorem gateBias_packs (hdims : b.shape.dims = [1, 8 * hidden])
    (hpacked : gateBias hidden b = .ok packed) : packed.PacksBias b hidden := by
  have hcount : b.floats.size = 8 * hidden := by
    rw [Constant.size_floats, Shape.count, hdims]
    simp
  have hinput : (b.floats.extract 0 (4 * hidden)).size = 4 * hidden := by
    rw [Array.size_extract, hcount]
    omega
  have hrecurrent : (b.floats.extract (4 * hidden) b.floats.size).size = 4 * hidden := by
    rw [Array.size_extract, hcount]
    omega
  have hsum := Kernel.binary_floats .add
    ((size_inGateSequence hinput).trans (size_inGateSequence hrecurrent).symm)
  obtain ⟨sum, hsum', hpacked⟩ := bind_eq_ok.1 hpacked
  obtain rfl := Except.ok.inj (hsum.symm.trans hsum')
  obtain ⟨layout, -, hpacked⟩ := bind_eq_ok.1 hpacked
  obtain ⟨hshape, -, hdata⟩ := Constant.parts_of_ofParts hpacked
  have hsize : packed.data.size = 4 * hidden := by
    rw [packed.size_eq, hshape]
    simp [Shape.count]
  refine ⟨hdims, hsize, fun g s hs r hr => ?_⟩
  obtain ⟨hg, hrow⟩ := gate_row_lt hs hr
  have hword {i : Nat} (hi : i < 8 * hidden) : b.floats[i]? = b.wordAt [0, i] := by
    have hix : Within b.shape.dims [0, i] := hdims ▸ .cons Nat.one_pos (.cons hi .nil)
    rw [← Constant.getElem?_floats hix]
    simp [hdims, place]
  have hhalf : 4 * hidden + (s * hidden + r) = (4 + s) * hidden + r := by ring
  rw [hdata] at hsize ⊢
  have hix : Within [4 * hidden] [g * hidden + r] := .cons hg .nil
  have hentry := Buffer.hasWord_floats hix (hsize.trans (by simp))
  have hplace : place [4 * hidden] [g * hidden + r] = g * hidden + r := by simp [place]
  rw [hplace, Array.getElem?_zipWith, getElem?_inGateSequence_extract hinput hs hr,
    getElem?_inGateSequence_extract hrecurrent hs hr, Nat.zero_add, hword (by omega), hhalf,
    hword (by omega)] at hentry
  convert hentry using 1
  cases b.wordAt [0, s * hidden + r] <;> cases b.wordAt [0, (4 + s) * hidden + r] <;> rfl

end Gates

/-! ### Layers with weights -/

/-- A layer without weights. -/
def LayerKind.Weightless : LayerKind → Prop
  | conv .. | channelwiseConv .. | fullyConnected .. | lstm .. => False
  | _ => True

/-- How the constants that an operator reads lie in the layer that it becomes. -/
inductive Action.Packs (p : Placement) : Action → LayerKind → Prop
  | gemm {params : Gemm} {b weights : Constant} {c freeTerm : Option Constant} {k n : Nat}
      (second : p.input? 1 = some (.constant b)) (third : p.input? 2 = c.map .constant)
      (columns : weights.PacksColumns b params.transB params.alpha.scaledBy k n)
      (row : Option.Rel (fun c f => f.PacksRow c params.beta.scaledBy n) c freeTerm) :
      Packs p (.gemm params) (.fullyConnected weights freeTerm)
  | matMul {b weights : Constant} {k n : Nat} (second : p.input? 1 = some (.constant b))
      (columns : weights.PacksColumns b false id k n) :
      Packs p .matMul (.fullyConnected weights none)
  | conv {window : Window} {w filter : Constant} {bias : Option Constant} {params : ConvGeometry}
      (second : p.input? 1 = some (.constant w)) (filters : filter.PacksFilters w) :
      Packs p (.conv 1 window) (.conv filter bias params)
  | channelwise {group : Nat} {window : Window} {w filter : Constant} {bias : Option Constant}
      {params : ConvGeometry} (grouped : group ≠ 1) (second : p.input? 1 = some (.constant w))
      (filters : filter.PacksChannelwise w) :
      Packs p (.conv group window) (.channelwiseConv filter bias params)
  | lstm {hidden features : Nat} {reverse : Bool} {w r inputWeights recurrentWeights : Constant}
      {b freeTerm : Option Constant} (second : p.input? 1 = some (.constant w))
      (third : p.input? 2 = some (.constant r)) (fourth : p.input? 3 = b.map .constant)
      (inputs : inputWeights.PacksGates w hidden features)
      (states : recurrentWeights.PacksGates r hidden hidden)
      (biases : Option.Rel (fun b f => f.PacksBias b hidden) b freeTerm) :
      Packs p (.lstm hidden reverse)
        (.lstm hidden inputWeights recurrentWeights freeTerm reverse)

/-- An operator that becomes a layer with weights. -/
def Action.TakesWeights : Action → Prop
  | gemm _ | matMul | conv .. | lstm .. => True
  | _ => False

/-- Layers without weights are appended, and behind them one with the weights of an operator, whose
output a tensor is. -/
def Placement.Packed (p : Placement) (action : Action) (g : LayerGraph) (t : Tensor)
    (g' : LayerGraph) : Prop :=
  ∃ (y : Handle) (g₁ : LayerGraph) (s : LayerSpec), t = .handle y ∧
    g.GrowsBy LayerKind.Weightless g₁ ∧ action.Packs p s.kind ∧ g' = g₁.push s ∧
    y.outlet = ⟨g₁.size, 0⟩

section Lowering

variable {p : Placement} {g : LayerGraph} {ops : Operands} {s : Shape}

namespace Placement

theorem input?_of_constant {i : Nat} {what : String} {c : Constant}
    (hc : p.constant i what = .ok c) : p.input? i = some (.constant c) := by
  obtain ⟨t, ht, hc⟩ := bind_eq_ok.1 hc
  obtain rfl := (p.constantOf_yields what t).value hc
  unfold input at ht
  split at ht
  · rename_i hinput
    rw [hinput, Except.ok.inj ht]
  · exact absurd ht Site.fail_ne_ok

theorem input?_of_constant? {i : Nat} {what : String} {c : Option Constant}
    (hc : p.constant? i what = .ok c) : p.input? i = c.map .constant := by
  unfold constant? at hc
  split at hc
  · rename_i t ht
    obtain ⟨v, hv, rfl⟩ := map_eq_ok.1 hc
    rw [ht, (p.constantOf_yields what t).value hv]
    rfl
  · rename_i hnone
    rw [hnone, ← Except.ok.inj hc]
    rfl

/-- What brings an input to a layout has no weights. -/
theorem handleAs_weightless (p : Placement) (i : Nat) (layout : Layout) (g : LayerGraph) :
    Runs (fun _ _ => True) g (p.handleAs i layout) fun _ g' =>
      g.GrowsBy LayerKind.Weightless g' := by
  refine Runs.value_bind fun t _ => ?_
  cases t with
  | handle h =>
    show Runs _ g (Lowering.relayout p.name h layout) _
    unfold Lowering.relayout
    split
    · exact Runs.pure .refl
    · split
      · refine (Lowering.add_spec g _ _ _ _ _).imp ?_
        rintro _ _ ⟨-, rfl⟩
        exact .push .refl trivial
      · exact Runs.pure .refl
  | constant c =>
    refine Runs.value_bind fun laid _ => (Lowering.add_spec g _ _ _ _ _).imp ?_
    rintro _ _ ⟨-, rfl⟩
    exact .push .refl trivial

/-- A layer with weights, as the last step. -/
theorem add_packed (p : Placement) {action : Action} {kind : LayerKind} {g₁ : LayerGraph}
    (hg : g.GrowsBy LayerKind.Weightless g₁) (hkind : action.Packs p kind) (inputs : List Outlet)
    (shape : Shape) (layout : Layout) :
    Runs (fun _ _ => True) g₁ (do return Tensor.handle (← p.add kind inputs shape layout))
      fun t g' => p.Packed action g t g' := by
  refine (Lowering.add_spec g₁ p.name kind inputs shape layout).bind ?_
  rintro _ _ ⟨rfl, rfl⟩
  exact Runs.pure ⟨_, g₁, _, rfl, hg, hkind, rfl, rfl⟩

end Placement

open Placement

/-- An optional constant is made from the one that is there. -/
theorem prepare_runs {f : Constant → Except Fault Constant} {c : Option Constant}
    {R : Constant → Constant → Prop} (h : ∀ v r, c = some v → f v = .ok r → R v r) :
    Runs (fun _ _ => True) g (c.mapM fun v => (f v : Lowering Constant)) fun r g' =>
      g' = g ∧ Option.Rel R c r := by
  cases c with
  | none => exact Runs.pure ⟨rfl, .none⟩
  | some v =>
    refine Runs.map (Q := fun r g' => g' = g ∧ f v = .ok r) ?_ ?_
    · exact Runs.lift ((Yields.of_faults fun _ _ => trivial).imp fun _ h => ⟨rfl, h⟩)
    · rintro r _ ⟨rfl, hr⟩
      exact ⟨rfl, .some (h v r rfl hr)⟩

/-- **The weights of a product** are stored by columns. -/
theorem lowerGemm_packed (hp : p.Ready g ops s) (params : Gemm)
    (hs : gemmShape p.header params ops = .ok s) :
    Runs (fun _ _ => True) g (lowerGemm p params) fun t g' => p.Packed (.gemm params) g t g' := by
  obtain ⟨a, b, d, ha, hb, hd, rfl, hfree⟩ := (gemmShape_yields p.header params ops).value hs
  unfold lowerGemm
  refine Runs.value_bind fun w hw => Runs.value_bind fun c hc => Runs.value_bind fun t ht => ?_
  have hwshape : w.shape = b.shape := (hp.constant_of_bound hb _).value hw
  rw [((hp.input_of_bound ha).value ht).shape, hwshape]
  refine Runs.lift_bind (.of_eq_ok hd rfl) ?_
  rintro _ rfl
  -- the right factor, scaled and laid out
  refine Runs.lift_bind (Q := (_ = ·)) (.of_eq_ok (Buffer.scaled_floats w.floats _) rfl) ?_
  rintro _ rfl
  have hsize : (Buffer.floats (w.floats.map params.alpha.scaledBy)).size = b.shape.count := by
    rw [Buffer.size, Array.size_map, w.size_floats, hwshape]
  obtain ⟨unpacked, hunpacked, hshape, hsource⟩ := Constant.exists_ofBuffer hsize
  refine Runs.lift_bind (Q := (unpacked = ·)) (.of_eq_ok hunpacked rfl) ?_
  rintro _ rfl
  refine Runs.value_bind fun layout hlayout => Runs.value_bind fun weights hweights => ?_
  have hslots : layout.slots = matrixSlots (!params.transB) := by
    refine Layout.slots_of_ofSlots ?_ hlayout
    cases params.transB <;> decide
  have htype : unpacked.elementType = .float := by
    rw [Constant.elementType, ← unpacked.elementType_source, hsource]
    rfl
  have hpacks : weights.PacksColumns w params.transB params.alpha.scaledBy d.k d.n := by
    rw [← hwshape] at hd hshape
    exact Constant.packsColumns_of_toLayout hslots htype hweights (Gemm.dims_right hd) hshape
      fun ix hix => Constant.wordAt_of_map hshape hsource hix
  -- the free term, of which inference has checked that it embeds at the end
  refine (prepare_runs (R := fun c f => f.PacksRow c params.beta.scaledBy d.n) ?_).bind ?_
  · rintro v f rfl hf
    obtain ⟨op, hop, hshape⟩ := (hp.constant?_yields 2 _).value hc v rfl
    exact (freeRow_packsRow p.header params (hshape ▸ hfree op hop)).value hf
  rintro freeTerm _ ⟨rfl, hfreeTerm⟩
  refine Runs.value_bind fun rows _ => ?_
  refine (p.handleAs_weightless 0 rows _).bind fun x g₁ hg₁ => ?_
  refine Runs.value_bind fun target _ => ?_
  exact p.add_packed hg₁
    (.gemm (input?_of_constant hw) (input?_of_constant? hc) hpacks hfreeTerm) _ _ _

/-- The weights of a product of stacks, which are not scaled. -/
theorem lowerMatMul_packed (p : Placement) (g : LayerGraph) :
    Runs (fun _ _ => True) g (lowerMatMul p) fun t g' => p.Packed .matMul g t g' := by
  unfold lowerMatMul
  refine Runs.value_bind fun w hw => ?_
  dsimp only
  split
  · exact Runs.value_bind fun _ h => absurd h Site.fail_ne_ok
  · rename_i hrank
    obtain ⟨k, n, hdims⟩ : ∃ k n, w.shape.dims = [k, n] := List.length_eq_two.1 (not_not.1 hrank)
    refine Runs.value_bind fun t ht => ?_
    split
    · exact Runs.lift (.fail trivial)
    · refine Runs.value_bind fun layout _ => Runs.value_bind fun columns hcolumns => ?_
      refine Runs.value_bind fun weights hweights => Runs.value_bind fun out _ => ?_
      refine (p.handleAs_weightless 0 layout _).bind fun x g₁ hg₁ => ?_
      have hslots := Layout.slots_of_ofSlots (by decide) hcolumns
      have hpacks : weights.PacksColumns w false id k n := by
        refine Constant.packsColumns_of_toLayout hslots (w.elementType_cast .float) hweights hdims
          (w.shape_cast _) fun ix _ => ?_
        rw [w.wordAt_cast, Option.map_id_apply]
      exact p.add_packed hg₁ (.matMul (input?_of_constant hw) hpacks) _ _ _

/-- A layer slides along one or two axes. -/
theorem Window.rank_of_slots {site : Site} {rank : Nat} {slots : List Slot}
    (hslots : Window.slots site rank = .ok slots) : rank = 3 ∨ rank = 4 := by
  unfold Window.slots at hslots
  split at hslots
  · exact .inl rfl
  · exact .inr rfl
  · exact absurd hslots Site.fail_ne_ok

/-- A convolution, about to be appended, has packed filters. -/
theorem convSliding_packs (hp : p.Ready g ops s) (group : Nat) (window : Window)
    (hs : convShape p.header group window ops = .ok s) :
    Runs (fun _ _ => True) g (convSliding p group window) fun c g₁ =>
      g.GrowsBy LayerKind.Weightless g₁ ∧ Action.Packs p (.conv group window) c.kind := by
  obtain ⟨x, w, axes, hx, hw, haxes, hout, -⟩ :=
    (convShape_yields p.header group window ops).value hs
  obtain ⟨hwrank, hlength⟩ := (convWindows_yields p.header group window x.shape w.shape).value haxes
  have hrank : w.shape.rank = s.rank := by rw [hwrank, hout, Window.rank_outputShape, hlength]
  unfold convSliding
  refine Runs.lift_bind hp.shape_yields ?_
  rintro _ rfl
  refine Runs.value_bind fun layout hlayout => Runs.value_bind fun weights hweights => ?_
  have hfew : weights.shape.rank = 3 ∨ weights.shape.rank = 4 := by
    obtain ⟨hslots, -⟩ := (windowLayout_yields p _).value hlayout
    rw [(hp.constant_of_bound hw _).value hweights, hrank]
    exact Window.rank_of_slots hslots
  refine Runs.value_bind fun bias _ => ?_
  refine (prepare_runs (R := fun _ _ => True) fun _ _ _ _ => trivial).bind ?_
  rintro bias' _ ⟨rfl, -⟩
  refine (p.handleAs_weightless 0 layout _).bind fun y g₁ hg₁ => ?_
  refine Runs.value_bind fun axes' _ => Runs.value_bind fun pads _ => ?_
  refine Runs.value_bind fun kind hkind => Runs.pure ⟨hg₁, ?_⟩
  obtain ⟨filter, ⟨rfl, rfl, hpacks⟩ | ⟨hgroup, rfl, hpacks⟩⟩ := convKind_packs hfew hkind
  · exact .conv (input?_of_constant hweights) hpacks
  · exact .channelwise hgroup (input?_of_constant hweights) hpacks

/-- The filters of a convolution. -/
theorem lowerConv_packed (hp : p.Ready g ops s) (group : Nat) (window : Window)
    (hs : convShape p.header group window ops = .ok s) :
    Runs (fun _ _ => True) g (lowerConv p group window) fun t g' =>
      p.Packed (.conv group window) g t g' := by
  refine (convSliding_packs hp group window hs).bind ?_
  rintro c g₁ ⟨hg₁, hkind⟩
  exact p.add_packed hg₁ hkind _ _ _

/-- The weights and the bias of a recurrent unit. -/
theorem lowerLstm_packed (hp : p.Ready g ops s) (hidden : Nat) (reverse : Bool)
    (hs : lstmShape p.header hidden ops = .ok s) :
    Runs (fun _ _ => True) g (lowerLstm p hidden reverse) fun t g' =>
      p.Packed (.lstm hidden reverse) g t g' := by
  obtain ⟨x, w, r, features, hx, hw, hr, -, -, hwdims, hrdims, hbias⟩ :=
    (lstmShape_yields p.header hidden ops).value hs
  unfold lowerLstm
  refine Runs.value_bind fun _ _ => Runs.value_bind fun _ _ => ?_
  refine Runs.value_bind fun _ _ => Runs.value_bind fun _ _ => ?_
  refine Runs.value_bind fun inputs hinputs => Runs.value_bind fun inputs' hinputs' => ?_
  refine Runs.value_bind fun states hstates => Runs.value_bind fun states' hstates' => ?_
  have hwshape := (hp.constant_of_bound hw _).value hinputs
  have hrshape := (hp.constant_of_bound hr _).value hstates
  refine Runs.value_bind fun b hb => ?_
  refine (prepare_runs (R := fun b f => f.PacksBias b hidden) ?_).bind ?_
  · rintro v f rfl hf
    obtain ⟨op, hop, hshape⟩ := (hp.constant?_yields 3 _).value hb v rfl
    exact gateBias_packs (hshape ▸ hbias op hop) hf
  rintro freeTerm _ ⟨rfl, hfreeTerm⟩
  refine Runs.value_bind fun layout _ => ?_
  refine (p.handleAs_weightless 0 layout _).bind fun y g₁ hg₁ => Runs.get_bind ?_
  refine ((Lowering.append_spec g₁ ⟨g₁.freshName p.name, _, _⟩).mono (fun _ _ _ => trivial)
    fun _ _ h => h.2).bind ?_
  rintro _ _ ⟨rfl, rfl⟩
  refine Runs.value_bind fun out _ => Runs.value_bind fun target _ => ?_
  refine ((Lowering.handle_spec _ _ out target).mono (fun _ _ _ => trivial)
    fun _ _ h => h.2).bind ?_
  rintro _ _ ⟨rfl, rfl⟩
  have hwpacks := stackedGates_packs (hwshape ▸ hwdims) hinputs'
  have hrpacks := stackedGates_packs (hrshape ▸ hrdims) hstates'
  exact Runs.pure ⟨_, g₁, _, rfl, hg₁, .lstm (input?_of_constant hinputs)
    (input?_of_constant hstates) (input?_of_constant? hb) hwpacks hrpacks hfreeTerm, rfl, rfl⟩

end Lowering

/-- **The weights of a layer.** Lowered to a layer with weights, an operator appends at most layers
without weights before it. The layer itself holds the words of the constants that the operator
reads, whatever their layouts, in the order that the layer wants. -/
theorem Operator.lower_packs (op : Operator) {p : Placement} {g g' : LayerGraph} {ops : Operands}
    {out : Shape} {t : Tensor} (hweights : op.action.TakesWeights) (hready : p.Ready g ops out)
    (hheader : p.header = op.header) (hout : op.outputShapes ops = .ok [out])
    (hlower : (op.lower p).run.run g = (.ok t, g')) : p.Packed op.action g t g' := by
  have hs := outputShapes_eq_ok.1 hout
  unfold outputShape at hs
  unfold lower at hlower
  rw [← hheader] at hs
  cases haction : op.action with
  | gemm params =>
    rw [haction] at hs hlower
    exact (lowerGemm_packed hready params hs).value hlower
  | matMul =>
    rw [haction] at hlower
    exact (lowerMatMul_packed p g).value hlower
  | conv group window =>
    rw [haction] at hs hlower
    exact (lowerConv_packed hready group window hs).value hlower
  | lstm hidden reverse =>
    rw [haction] at hs hlower
    exact (lowerLstm_packed hready hidden reverse hs).value hlower
  | _ =>
    rw [haction] at hweights
    exact hweights.elim

/-! ### Two operators with weights -/

/-- The first input is a run-time tensor, and the others are constants. -/
theorem Placement.ready_of_constants (h : Header) (name : String) {g : LayerGraph} {x : Handle}
    (hx : Tensor.Valid g (.handle x)) (constants : List Constant) {out : Shape} {l : Layout}
    (hl : l.rank = out.rank) :
    Placement.Ready ⟨h, some (.handle x) :: constants.map fun c => some (.constant c), [out], [l],
      name⟩ g (some ⟨x.shape, none⟩ :: constants.map fun c => some ⟨c.shape, some c⟩) out := by
  refine ⟨.cons (.some ⟨hx, rfl, fun _ h => by cases h⟩) ?_, rfl, l, rfl, hl⟩
  rw [List.forall₂_map_left_iff, List.forall₂_map_right_iff, List.forall₂_same]
  exact fun c _ => .some ⟨trivial, rfl, fun _ h => congrArg _ (Option.some.inj h)⟩

theorem Lowering.exists_of_isOk {x : Lowering Tensor} {g : LayerGraph}
    (h : (x.run.run g).1.isOk = true) : ∃ t g', x.run.run g = (.ok t, g') := by
  rcases hrun : x.run.run g with ⟨f | t, g'⟩
  · rw [hrun] at h
    cases h
  · exact ⟨t, g', rfl⟩

/-- A convolution along one axis, channel by channel. -/
def depthwise : Operator :=
  ⟨⟨"Conv", "depthwise", 11⟩, .conv 2 ⟨none, none, none, none, .explicit⟩⟩

/-- Two points for each of two channels, one channel behind the other in memory. -/
def twoFilters : Constant :=
  ⟨⟨[2, 1, 2]⟩, ⟨[.height, .channels, .width], by decide⟩,
    .floats #[.ofMagnitude false 10, .ofMagnitude false 11, .ofMagnitude false 20,
      .ofMagnitude false 21], rfl, rfl⟩

/-- A recurrent unit with one value. -/
def recurrentUnit : Operator := ⟨⟨"LSTM", "unit", 14⟩, .lstm 1 false⟩

/-- One weight for each gate. -/
def fourGates : Constant :=
  ⟨⟨[1, 4, 1]⟩, .uncommitted, .floats #[.ofMagnitude false 10, .ofMagnitude false 11,
    .ofMagnitude false 12, .ofMagnitude false 13], rfl, rfl⟩

/-- The biases of each gate for the input, and those for the state. -/
def eightBiases : Constant :=
  ⟨⟨[1, 8]⟩, .uncommitted, .floats #[.ofMagnitude false 1, .ofMagnitude false 2,
    .ofMagnitude false 3, .ofMagnitude false 4, .ofMagnitude false 10, .ofMagnitude false 20,
    .ofMagnitude false 30, .ofMagnitude false 40], rfl, rfl⟩

section Entries

variable {p : Placement} {kind : LayerKind}

/-- In the layer of the convolution, the first points of both channels come before the second
ones. -/
theorem depthwise_points (hpacks : depthwise.action.Packs p kind)
    (hfilters : p.input? 1 = some (.constant twoFilters)) :
    ∃ filter bias params, kind = .channelwiseConv filter bias params ∧ filter.data.size = 4 ∧
      filter.data.get? 1 = some (.float (.ofMagnitude false 20)) ∧
      filter.data.get? 2 = some (.float (.ofMagnitude false 11)) := by
  cases hpacks with
  | @channelwise _ _ w filter bias params _ hw hfilter =>
    obtain rfl : w = twoFilters := by simpa [hfilters] using hw.symm
    have hsecond : twoFilters.wordAt [1, 0, 0] = some (.ofMagnitude false 20) := by cbv
    have hfirst : twoFilters.wordAt [0, 0, 1] = some (.ofMagnitude false 11) := by cbv
    obtain ⟨u, hu, hu'⟩ := hfilter.entry 0 (by decide) 0 (by decide) 1 (by decide)
    obtain ⟨v, hv, hv'⟩ := hfilter.entry 1 (by decide) 0 (by decide) 0 (by decide)
    obtain rfl := Option.some.inj (hu.symm.trans hsecond)
    obtain rfl := Option.some.inj (hv.symm.trans hfirst)
    exact ⟨filter, bias, params, rfl, hfilter.size, hu', hv'⟩

/-- In the layer of the unit, the fourth gate comes first and the second one last, and a bias is a
sum. -/
theorem recurrentUnit_gates (hpacks : recurrentUnit.action.Packs p kind)
    (hinputs : p.input? 1 = some (.constant fourGates))
    (hstates : p.input? 2 = some (.constant fourGates))
    (hbiases : p.input? 3 = some (.constant eightBiases)) :
    ∃ inputs states freeTerm, kind = .lstm 1 inputs states (some freeTerm) false ∧
      inputs.data.get? 0 = some (.float (.ofMagnitude false 13)) ∧
      states.data.get? 3 = some (.float (.ofMagnitude false 11)) ∧
      freeTerm.data.get? 0 =
        some (.float (.add (.ofMagnitude false 4) (.ofMagnitude false 40))) := by
  cases hpacks with
  | @lstm _ features _ w r inputs states b freeTerm hw hr hb hpackedInputs hpackedStates hbias =>
    obtain rfl : w = fourGates := by simpa [hinputs] using hw.symm
    obtain rfl : r = fourGates := by simpa [hstates] using hr.symm
    obtain rfl : b = some eightBiases := by
      cases b with
      | none => simp [hbiases] at hb
      | some b => simpa [hbiases] using hb.symm
    obtain rfl : features = 1 := by
      have hdims : [1, 4, 1] = [1, 4 * 1, features] := hpackedInputs.extents
      simpa using hdims.symm
    cases hbias with
    | @some _ freeTerm hbias =>
      have hfourth : fourGates.wordAt [0, 3, 0] = some (.ofMagnitude false 13) := by cbv
      have hsecond : fourGates.wordAt [0, 1, 0] = some (.ofMagnitude false 11) := by cbv
      have hsum : Option.map₂ Binary32.add (eightBiases.wordAt [0, 3]) (eightBiases.wordAt [0, 7]) =
          some (.add (.ofMagnitude false 4) (.ofMagnitude false 40)) := by
        have hinput : eightBiases.wordAt [0, 3] = some (.ofMagnitude false 4) := by cbv
        have hstate : eightBiases.wordAt [0, 7] = some (.ofMagnitude false 40) := by cbv
        rw [hinput, hstate]
        rfl
      obtain ⟨u, hu, hu'⟩ := hpackedInputs.entry 0 3 rfl 0 (by decide) 0 (by decide)
      obtain ⟨v, hv, hv'⟩ := hpackedStates.entry 3 1 rfl 0 (by decide) 0 (by decide)
      obtain ⟨z, hz, hz'⟩ := hbias.entry 0 3 rfl 0 (by decide)
      obtain rfl := Option.some.inj (hu.symm.trans hfourth)
      obtain rfl := Option.some.inj (hv.symm.trans hsecond)
      obtain rfl := Option.some.inj (hz.symm.trans hsum)
      exact ⟨inputs, states, freeTerm, rfl, hu', hv', hz'⟩

end Entries

/-- The convolution and the unit are lowered, and the words lie where the layers want them. -/
theorem Operator.lower_packs_filters_and_gates :
    (∃ (g : LayerGraph) (p : Placement) (t : Tensor) (g₁ : LayerGraph) (s : LayerSpec)
      (filter : Constant) (bias : Option Constant) (params : ConvGeometry),
      (depthwise.lower p).run.run g = (.ok t, g₁.push s) ∧
      p.Packed depthwise.action g t (g₁.push s) ∧ s.kind = .channelwiseConv filter bias params ∧
      filter.data.size = 4 ∧ filter.data.get? 1 = some (.float (.ofMagnitude false 20)) ∧
      filter.data.get? 2 = some (.float (.ofMagnitude false 11))) ∧
    ∃ (g : LayerGraph) (p : Placement) (t : Tensor) (g₁ : LayerGraph) (s : LayerSpec)
      (inputs states freeTerm : Constant),
      (recurrentUnit.lower p).run.run g = (.ok t, g₁.push s) ∧
      p.Packed recurrentUnit.action g t (g₁.push s) ∧
      s.kind = .lstm 1 inputs states (some freeTerm) false ∧
      inputs.data.get? 0 = some (.float (.ofMagnitude false 13)) ∧
      states.data.get? 3 = some (.float (.ofMagnitude false 11)) ∧
      freeTerm.data.get? 0 =
        some (.float (.add (.ofMagnitude false 4) (.ofMagnitude false 40))) := by
  let g : LayerGraph := LayerGraph.empty.push ⟨"series", .source, []⟩
  have houtlet : g.HasOutlet ⟨0, 0⟩ := LayerGraph.empty.hasOutlet_push_self rfl
  constructor
  · let series : Layout := ⟨[.batchWidth, .channels, .height], by decide⟩
    let x : Handle := ⟨⟨[1, 2, 5]⟩, series, ⟨0, 0⟩⟩
    let p : Placement := ⟨depthwise.header, [some (.handle x), some (.constant twoFilters)],
      [⟨[1, 2, 4]⟩], [series], "depthwise"⟩
    let ops : Operands := [some ⟨x.shape, none⟩, some ⟨twoFilters.shape, some twoFilters⟩]
    have hready : p.Ready g ops ⟨[1, 2, 4]⟩ :=
      Placement.ready_of_constants _ _ ⟨rfl, houtlet⟩ [twoFilters] rfl
    have hout : depthwise.outputShapes ops = .ok [⟨[1, 2, 4]⟩] := by cbv
    have hok : ((depthwise.lower p).run.run g).1.isOk = true := by cbv
    obtain ⟨t, g', hrun⟩ := Lowering.exists_of_isOk hok
    obtain ⟨y, g₁, s, ht, hgrows, hpacks, rfl, hy⟩ :=
      lower_packs depthwise trivial hready rfl hout hrun
    obtain ⟨filter, bias, params, hkind, hpoints⟩ := depthwise_points hpacks rfl
    exact ⟨g, p, t, g₁, s, filter, bias, params, hrun,
      ⟨y, g₁, s, ht, hgrows, hpacks, rfl, hy⟩, hkind, hpoints⟩
  · let sequence : Layout := ⟨[.batchLength, .batchWidth, .channels], by decide⟩
    let hiddens : Layout := ⟨[.batchLength, .listSize, .batchWidth, .channels], by decide⟩
    let x : Handle := ⟨⟨[2, 1, 1]⟩, sequence, ⟨0, 0⟩⟩
    let p : Placement := ⟨recurrentUnit.header, [some (.handle x), some (.constant fourGates),
      some (.constant fourGates), some (.constant eightBiases)], [⟨[2, 1, 1, 1]⟩], [hiddens],
      "unit"⟩
    let ops : Operands := [some ⟨x.shape, none⟩, some ⟨fourGates.shape, some fourGates⟩,
      some ⟨fourGates.shape, some fourGates⟩, some ⟨eightBiases.shape, some eightBiases⟩]
    have hready : p.Ready g ops ⟨[2, 1, 1, 1]⟩ :=
      Placement.ready_of_constants _ _ ⟨rfl, houtlet⟩ [fourGates, fourGates, eightBiases] rfl
    have hout : recurrentUnit.outputShapes ops = .ok [⟨[2, 1, 1, 1]⟩] := by cbv
    have hok : ((recurrentUnit.lower p).run.run g).1.isOk = true := by cbv
    obtain ⟨t, g', hrun⟩ := Lowering.exists_of_isOk hok
    obtain ⟨y, g₁, s, ht, hgrows, hpacks, rfl, hy⟩ :=
      lower_packs recurrentUnit trivial hready rfl hout hrun
    obtain ⟨inputs, states, freeTerm, hkind, hgates⟩ := recurrentUnit_gates hpacks rfl rfl rfl
    exact ⟨g, p, t, g₁, s, inputs, states, freeTerm, hrun,
      ⟨y, g₁, s, ht, hgrows, hpacks, rfl, hy⟩, hkind, hgates⟩

end Lamina
