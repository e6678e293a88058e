import Mathlib
import Lamina.Proofs.Lowering
import Lamina.Proofs.UnitAxes

/-!
# Rearranging operators keep the values

Flattening, reshaping, squeezing and unsqueezing give a tensor another shape. None of them computes
anything, so what matters is that the elements in axis order stay the same although the tensor goes
through several shapes and layouts.

A layer is described by what it does to a blob that is seen under a shape and a layout
(`LayerStep`): a conversion lays the tensor out anew, a reshape leaves the buffer as it is.
`Carries` says of some steps that they can be run and that the elements in axis order are the same
before and after each of them, and under the shape and the layout at the end. Between two steps the
buffer may be seen under another shape and layout, so that this has to hold there as well.

* A conversion that is left out would have changed nothing (`carries_conversionSteps`).
* Under a layout that is not shuffled, memory order is axis order for every shape
  (`Buffer.inAxisOrder_of_not_shuffled`), so that a reshape between two such layouts is the identity
  (`carries_reshape`).
* Unit axes can be dropped and put in without a layer (`Buffer.inAxisOrder_drop`).

**Theorem** (`Operator.lower_rereads`): the four operators always succeed on a run-time tensor and
keep its elements in axis order.
-/

namespace Lamina

variable {g g' g'' : LayerGraph} {shape : Shape} {l target : Layout} {b : Buffer}

/-! ### What the layers do -/

/-- A way to see a blob. -/
structure View where
  shape : Shape
  layout : Layout

/-- A layer and the tensors that it reads and gives. -/
structure LayerStep where
  kind : LayerKind
  input : View
  output : View

/-- The elements in axis order of a buffer that is seen in a way. -/
def View.read (v : View) (b : Buffer) : List (Option Element) := b.inAxisOrder v.shape v.layout

/-- The layer is a reshape. -/
def LayerStep.IsReshape (s : LayerStep) : Prop := ∃ source target, s.kind = .reshape source target

/-- What conversions and reshapes do: the first lay a tensor out anew, the second leave the buffer
as it is. -/
def LayerStep.Moves (s : LayerStep) (b b' : Buffer) : Prop :=
  match s.kind with
  | .layoutConversion source target =>
    s.input.layout = source ∧ s.output = ⟨s.input.shape, target⟩ ∧ b'.size = b.size ∧
      b'.elementType = b.elementType ∧ s.output.read b' = s.input.read b
  | .reshape source target => s.input.shape = source ∧ s.output.shape = target ∧ b' = b
  | _ => False

/-- The steps can be run, and what is read before and after each of them and at the end are the
given elements. -/
def Carries (elements : List (Option Element)) : List LayerStep → View → Buffer → Prop
  | [], v, b => v.read b = elements
  | s :: steps, v, b => s.input.read b = elements ∧ (∃ b', s.Moves b b') ∧
      ∀ b', s.Moves b b' → s.output.read b' = elements ∧ Carries elements steps v b'

theorem LayerStep.Moves.size_eq {s : LayerStep} {b' : Buffer} (h : s.Moves b b') :
    b'.size = b.size := by
  unfold Moves at h
  split at h
  · obtain ⟨-, -, hsize, -⟩ := h
    exact hsize
  · obtain ⟨-, -, rfl⟩ := h
    rfl
  · exact h.elim

/-- Steps can be continued where they end. -/
theorem Carries.append {elements : List (Option Element)} {steps steps' : List LayerStep}
    {v v' : View} (h : Carries elements steps v b)
    (hrest : ∀ b' : Buffer, b'.size = b.size → v.read b' = elements →
      Carries elements steps' v' b') :
    Carries elements (steps ++ steps') v' b := by
  induction steps generalizing b with
  | nil => exact hrest b rfl h
  | cons s steps ih =>
    obtain ⟨hread, hruns, hsteps⟩ := h
    refine ⟨hread, hruns, ?_⟩
    intro b' hmoves
    obtain ⟨hread', hcarries⟩ := hsteps b' hmoves
    refine ⟨hread', ih hcarries ?_⟩
    intro b'' hsize
    exact hrest b'' (hsize.trans hmoves.size_eq)

/-! ### Conversions -/

/-- A tensor can be laid out anew under every layout of its rank. -/
theorem Buffer.exists_relaid (hl : l.rank = shape.rank) (htarget : target.rank = shape.rank)
    (hsize : b.size = shape.count) :
    ∃ b' : Buffer, b'.size = b.size ∧ b'.elementType = b.elementType ∧
      b'.inAxisOrder shape target = b.inAxisOrder shape l := by
  have hfits := Layout.fits_of_rank hl
  have hfits' := Layout.fits_of_rank htarget
  let c : Constant := ⟨shape, l, b, hfits, hsize⟩
  have hid : ∀ ix, Within shape.dims ix → Within c.shape.dims (id ix) := fun _ hix => hix
  refine ⟨(c.gather shape target id hfits' hid).data, ?_, ?_, ?_⟩
  · rw [hsize]
    exact Constant.size_eq _
  · exact Constant.elementType_gather hfits' hid
  · rw [inAxisOrder_eq _ hfits', inAxisOrder_eq _ hfits]
    apply List.map_congr_left
    intro ix hix
    exact Constant.elementAt_gather hfits' hid (mem_indices.1 hix)

/-- Layouts with the same memory image read the same. -/
theorem Buffer.inAxisOrder_congr (hl : l.rank = shape.rank) (htarget : target.rank = shape.rank)
    (h : l.reordersMemory target shape.dims = false) :
    b.inAxisOrder shape target = b.inAxisOrder shape l := by
  have hfits := Layout.fits_of_rank hl
  have hfits' := Layout.fits_of_rank htarget
  rw [inAxisOrder_eq _ hfits', inAxisOrder_eq _ hfits]
  apply List.map_congr_left
  intro ix hix
  rw [elementAt, elementAt, Layout.place_congr hfits hfits' h (mem_indices.1 hix)]

/-- The conversion of a tensor to a layout, if one is needed. -/
def conversionSteps (l target : Layout) (shape : Shape) : List LayerStep :=
  if l.reordersMemory target shape.dims then
    [⟨.layoutConversion l target, ⟨shape, l⟩, ⟨shape, target⟩⟩]
  else []

theorem map_kind_conversionSteps (l target : Layout) (shape : Shape) :
    (conversionSteps l target shape).map LayerStep.kind =
      LayerKind.conversions l target shape := by
  unfold conversionSteps LayerKind.conversions
  split <;> rfl

theorem kind_of_mem_conversionSteps {s : LayerStep} (hs : s ∈ conversionSteps l target shape) :
    s.kind = .layoutConversion l target := by
  unfold conversionSteps at hs
  split at hs
  · rw [List.mem_singleton.1 hs]
  · cases hs

theorem not_isReshape_of_mem_conversionSteps {s : LayerStep}
    (hs : s ∈ conversionSteps l target shape) : ¬ s.IsReshape := by
  rintro ⟨source, target', hkind⟩
  rw [kind_of_mem_conversionSteps hs] at hkind
  cases hkind

/-- **A conversion keeps the elements**, and so does leaving it out where it is not needed. -/
theorem carries_conversionSteps (hl : l.rank = shape.rank) (htarget : target.rank = shape.rank)
    (hsize : b.size = shape.count) :
    Carries (b.inAxisOrder shape l) (conversionSteps l target shape) ⟨shape, target⟩ b := by
  unfold conversionSteps
  rcases hmoves : l.reordersMemory target shape.dims with _ | _
  · exact Buffer.inAxisOrder_congr hl htarget hmoves
  · refine ⟨rfl, ?_, ?_⟩
    · obtain ⟨b', hsize', htype', hread'⟩ := Buffer.exists_relaid hl htarget hsize
      exact ⟨b', rfl, rfl, hsize', htype', hread'⟩
    · rintro b' ⟨-, -, -, -, hread'⟩
      exact ⟨hread', hread'⟩

/-! ### Reshapes -/

theorem Layout.descends_of_pairwise {keys : List Nat} (h : keys.Pairwise (· ≤ ·)) :
    descends keys = false := by
  induction keys with
  | nil => rfl
  | cons a keys ih =>
    cases keys with
    | nil => rfl
    | cons b keys =>
      obtain ⟨hle, hrest⟩ := List.pairwise_cons.1 h
      rw [descends, ih hrest, Bool.or_false, decide_eq_false_iff_not, not_lt]
      exact hle b List.mem_cons_self

/-- Slots in memory order are not shuffled. -/
theorem Layout.isShuffled_sorted (l : Layout) : l.sorted.isShuffled = false := by
  apply descends_of_pairwise
  rw [List.pairwise_map]
  exact pairwise_sorted_by Slot.index l.slots

/-- Under a layout that is not shuffled, memory order is axis order. -/
theorem Buffer.inAxisOrder_of_not_shuffled (hl : l.rank = shape.rank)
    (h : l.isShuffled = false) :
    b.inAxisOrder shape l = (List.range shape.count).map b.get? := by
  have hfits := Layout.fits_of_rank hl
  rw [inAxisOrder_eq _ hfits, Shape.count, ← map_place_indices, List.map_map]
  apply List.map_congr_left
  intro ix hix
  rw [elementAt, Layout.place_of_not_shuffled hfits h (mem_indices.1 hix)]
  rfl

/-- **A reshape keeps the elements** if both layouts are not shuffled. -/
theorem carries_reshape {out : Shape} {l' : Layout} (hl : l.rank = shape.rank)
    (hl' : l'.rank = out.rank) (h : l.isShuffled = false) (h' : l'.isShuffled = false)
    (hcount : out.count = shape.count) :
    Carries (b.inAxisOrder shape l) [⟨.reshape shape out, ⟨shape, l⟩, ⟨out, l'⟩⟩] ⟨out, l'⟩ b := by
  refine ⟨rfl, ⟨b, rfl, rfl, rfl⟩, ?_⟩
  rintro b' ⟨-, -, rfl⟩
  have hread : b'.inAxisOrder out l' = b'.inAxisOrder shape l := by
    rw [Buffer.inAxisOrder_of_not_shuffled hl' h', hcount,
      Buffer.inAxisOrder_of_not_shuffled hl h]
  exact ⟨hread, hread⟩

/-! ### Chains of layers -/

theorem LayerKind.outputCount_of_mem_conversions {kind : LayerKind}
    (h : kind ∈ conversions l target shape) : kind.outputCount = 1 := by
  unfold conversions at h
  split at h
  · rw [List.mem_singleton.1 h]
    rfl
  · cases h

namespace LayerGraph

theorem Chain.append {o o' o'' : Outlet} {kinds kinds' : List LayerKind}
    (h : g.Chain o kinds g' o') (h' : g'.Chain o' kinds' g'' o'') :
    g.Chain o (kinds ++ kinds') g'' o'' := by
  induction h with
  | nil => exact h'
  | cons name _ ih => exact .cons name (ih h')

/-- A chain of layers with one output each ends at an outlet. -/
theorem Chain.hasOutlet {o o' : Outlet} {kinds : List LayerKind} (h : g.Chain o kinds g' o')
    (ho : g.HasOutlet o) (hkinds : ∀ kind ∈ kinds, kind.outputCount = 1) : g'.HasOutlet o' := by
  induction h with
  | nil => exact ho
  | cons name _ ih =>
    apply ih
    · exact hasOutlet_push_self _ (hkinds _ List.mem_cons_self)
    · intro kind hkind
      exact hkinds kind (List.mem_cons_of_mem _ hkind)

/-- The layers behind one tensor lead to another of the same elements in axis order. Reshapes are
only put between layouts that are not shuffled. -/
structure Rereads (g : LayerGraph) (x : Handle) (g' : LayerGraph) (y : Handle)
    (steps : List LayerStep) : Prop where
  /-- The new layers are those of the steps, each reading the one before it. -/
  chain : g.Chain x.outlet (steps.map LayerStep.kind) g' y.outlet
  /-- The elements are kept. -/
  carries : ∀ b : Buffer, b.size = x.shape.count →
    Carries (b.inAxisOrder x.shape x.layout) steps ⟨y.shape, y.layout⟩ b
  /-- There are as many of them as before. -/
  count : y.shape.count = x.shape.count
  /-- The result has one slot per axis. -/
  rank : y.layout.rank = y.shape.rank
  /-- What a reshape reads and gives lies in axis order. -/
  inOrder : ∀ s ∈ steps, s.IsReshape →
    s.input.layout.isShuffled = false ∧ s.output.layout.isShuffled = false

variable {x y z : Handle} {steps steps' : List LayerStep}

theorem Rereads.trans (h : g.Rereads x g' y steps) (h' : g'.Rereads y g'' z steps') :
    g.Rereads x g'' z (steps ++ steps') where
  chain := by
    rw [List.map_append]
    exact h.chain.append h'.chain
  carries := by
    intro b hsize
    apply (h.carries b hsize).append
    intro b' hsize' hread
    have hcount : b'.size = y.shape.count := by rw [hsize', hsize, h.count]
    rw [← hread]
    exact h'.carries b' hcount
  count := h'.count.trans h.count
  rank := h'.rank
  inOrder := by
    intro s hs
    rcases List.mem_append.1 hs with hs | hs
    · exact h.inOrder s hs
    · exact h'.inOrder s hs

/-- It does not matter how a buffer is seen at the beginning, as long as the elements are the
same. -/
theorem Rereads.of_seenAs {layout : Layout} (hcount : shape.count = x.shape.count)
    (hread : ∀ b : Buffer, b.inAxisOrder shape layout = b.inAxisOrder x.shape x.layout)
    (h : g.Rereads (x.seenAs shape layout) g' y steps) : g.Rereads x g' y steps where
  chain := h.chain
  carries := by
    intro b hsize
    rw [← hread b]
    exact h.carries b (hsize.trans hcount.symm)
  count := h.count.trans hcount
  rank := h.rank
  inOrder := h.inOrder

end LayerGraph

/-! ### The four operators -/

section Operators

variable {p : Placement} {x : Handle} {out : Shape} {committed : Layout}

/-- What an operator with one output finds: a run-time tensor as its first input, and the shape and
the layout of its output. -/
structure Placement.Reads (p : Placement) (x : Handle) (out : Shape) (committed : Layout) :
    Prop where
  input : p.input? 0 = some (.handle x)
  shapes : p.shapes = [out]
  layouts : p.layouts = [committed]

theorem Placement.Reads.handle_runs {P : Fault → LayerGraph → Prop} (h : p.Reads x out committed) :
    Runs P g (p.handle 0) fun x' g' => x = x' ∧ g = g' := by
  have hinput : p.input 0 = .ok (.handle x) := by rw [Placement.input, h.input]
  unfold Placement.handle
  refine Runs.lift_bind (Q := (· = .handle x)) (.of_eq_ok hinput rfl) ?_
  rintro _ rfl
  exact Runs.pure ⟨rfl, rfl⟩

theorem Placement.Reads.shape_eq (h : p.Reads x out committed) : p.shape = .ok out := by
  rw [Placement.shape, h.shapes]
  rfl

theorem Placement.Reads.layout_eq (h : p.Reads x out committed) : p.layout = .ok committed := by
  rw [Placement.layout, h.layouts]
  rfl

theorem relayout_rereads (ho : g.HasOutlet x.outlet) (hlayout : x.layout.rank = x.shape.rank)
    (htarget : target.rank = x.shape.rank) :
    Runs (fun _ _ => False) g (p.relayout x target) fun y g' =>
      y.shape = x.shape ∧ y.layout = target ∧ g'.HasOutlet y.outlet ∧
        g.Rereads x g' y (conversionSteps x.layout target x.shape) := by
  refine (Lowering.relayout_chain ho htarget p.name).imp ?_
  rintro ⟨_, _, o⟩ g' ⟨rfl, rfl, hchain⟩
  refine ⟨rfl, rfl, ?_, ⟨?_, ?_, rfl, htarget, ?_⟩⟩
  · exact hchain.hasOutlet ho fun _ => LayerKind.outputCount_of_mem_conversions
  · rw [map_kind_conversionSteps]
    exact hchain
  · intro b hsize
    exact carries_conversionSteps hlayout htarget hsize
  · intro s hs hreshape
    exact absurd hreshape (not_isReshape_of_mem_conversionSteps hs)

/-- A reshape behind a tensor that lies in axis order. -/
theorem reshape_rereads (ho : g.HasOutlet x.outlet) (hlayout : x.layout.rank = x.shape.rank)
    (htarget : target.rank = out.rank) (h : x.layout.isShuffled = false)
    (h' : target.isShuffled = false) (hcount : out.count = x.shape.count) :
    Runs (fun _ _ => False) g (p.add (.reshape x.shape out) [x.outlet] out target) fun y g' =>
      y.shape = out ∧ y.layout = target ∧ g.Rereads x g' y
        [⟨.reshape x.shape out, ⟨x.shape, x.layout⟩, ⟨out, target⟩⟩] := by
  have hinputs : ∀ o ∈ [x.outlet], g.HasOutlet o := by simpa using ho
  refine (Lowering.add_runs hinputs rfl (Layout.fits_of_rank htarget) p.name).imp ?_
  rintro _ _ ⟨rfl, rfl⟩
  refine ⟨rfl, rfl, ⟨.cons _ .nil, ?_, hcount, htarget, ?_⟩⟩
  · intro b _
    exact carries_reshape hlayout htarget h h' hcount
  · intro s hs _
    obtain rfl := List.mem_singleton.1 hs
    exact ⟨h, h'⟩

/-- **Squeezing** sees the tensor without its unit axes. -/
theorem lowerSqueeze_rereads (h : p.Reads x out committed) (ho : g.HasOutlet x.outlet)
    (hlayout : x.layout.rank = x.shape.rank) (hcommitted : committed.rank = out.rank)
    (hunits : DropsUnits out.dims x.shape.dims) :
    Runs (fun _ _ => False) g (lowerSqueeze p) fun t g' => ∃ y layout, t = .handle y ∧
      y.shape = out ∧ g.Rereads x g' y (conversionSteps layout committed out) := by
  have hdims : dropPositions x.shape.dims (out.extraAxes x.shape) = out.dims :=
    (dropFrom_leftoverAxes hunits 0).1
  unfold lowerSqueeze
  refine Runs.lift_bind (Q := (out = ·)) (.of_eq_ok h.shape_eq rfl) ?_
  rintro _ rfl
  refine h.handle_runs.bind ?_
  rintro _ _ ⟨rfl, rfl⟩
  refine Runs.lift_bind (Layout.ofSlots_yields (nodup_dropPositions x.layout.nodup _)) ?_
  intro layout hslots
  refine Runs.lift_bind (Q := (committed = ·)) (.of_eq_ok h.layout_eq rfl) ?_
  rintro _ rfl
  have hrank : layout.rank = out.rank := by
    rw [Layout.rank, hslots, Shape.rank, ← hdims]
    exact length_dropFrom hlayout
  have hread : ∀ b : Buffer, b.inAxisOrder out layout = b.inAxisOrder x.shape x.layout := by
    intro b
    apply b.inAxisOrder_drop hlayout hslots hdims
    intro a ha
    exact (Shape.extent_of_mem_extraAxes hunits ha).2
  refine (relayout_rereads (x := x.seenAs out layout) ho hrank hcommitted).bind ?_
  rintro y g' ⟨hshape, -, -, hrereads⟩
  exact Runs.pure ⟨y, layout, rfl, hshape, hrereads.of_seenAs hunits.positions_eq hread⟩

@[simp] theorem length_spreadSlots (inserted : List Nat) (axis count : Nat) (slots : List Slot) :
    (spreadSlots inserted axis count slots).length = count := by
  induction count generalizing axis slots with
  | zero => rfl
  | succ count ih =>
    rw [spreadSlots]
    split <;> simp [ih]

/-- The slots of a tensor can be completed to those of a wider one, and are what is left of them
without the inserted axes. -/
theorem exists_inserted_slots {axes : List Nat} (hrank : out.rank ≤ Slot.total)
    (hdims : dropPositions out.dims axes = x.shape.dims) (hlayout : x.layout.rank = x.shape.rank)
    (wanted : List Slot) :
    ∃ slots : List Slot,
      completeSlots wanted (spreadSlots axes 0 out.rank x.layout.slots) = some slots ∧
        slots.Nodup ∧ slots.length = out.rank ∧ dropPositions slots axes = x.layout.slots := by
  have hsome : (completeSlots wanted (spreadSlots axes 0 out.rank x.layout.slots)).isSome :=
    isSome_completeSlots (by simpa using hrank)
  obtain ⟨slots, hslots⟩ := Option.isSome_iff_exists.1 hsome
  obtain ⟨hnodup, hlength⟩ := completeSlots_spec
    (x.layout.nodup.sublist (usedSlots_spreadSlots axes 0 out.rank x.layout.slots)) hslots
  have hspread : dropFrom 0 (spreadSlots axes 0 out.rank x.layout.slots) axes =
      x.layout.slots.map some := by
    apply dropFrom_spreadSlots
    rw [← dropPositions_eq, hdims]
    exact hlayout
  refine ⟨slots, hslots, hnodup, by simpa using hlength, ?_⟩
  exact dropFrom_of_keeps hlength (fun _ _ hd => completeSlots_keeps hslots hd) hspread

/-- **Unsqueezing** sees the tensor with more unit axes. -/
theorem lowerUnsqueeze_rereads (h : p.Reads x out committed) (ho : g.HasOutlet x.outlet)
    (hlayout : x.layout.rank = x.shape.rank) (hcommitted : committed.rank = out.rank)
    (hunits : DropsUnits x.shape.dims out.dims) :
    Runs (fun _ _ => False) g (lowerUnsqueeze p) fun t g' => ∃ y layout, t = .handle y ∧
      y.shape = out ∧ g.Rereads x g' y (conversionSteps layout committed out) := by
  have hdims : dropPositions out.dims (x.shape.extraAxes out) = x.shape.dims :=
    (dropFrom_leftoverAxes hunits 0).1
  have htotal : out.rank ≤ Slot.total := hcommitted ▸ committed.rank_le_total
  obtain ⟨slots, hslots, hnodup, hlength, hkept⟩ :=
    exists_inserted_slots htotal hdims hlayout committed.slots
  unfold lowerUnsqueeze
  refine Runs.lift_bind (Q := (out = ·)) (.of_eq_ok h.shape_eq rfl) ?_
  rintro _ rfl
  refine Runs.lift_bind (Q := (committed = ·)) (.of_eq_ok h.layout_eq rfl) ?_
  rintro _ rfl
  refine h.handle_runs.bind ?_
  rintro _ _ ⟨rfl, rfl⟩
  simp only [hslots]
  refine Runs.lift_bind (Layout.ofSlots_yields hnodup) ?_
  rintro layout rfl
  have hread : ∀ b : Buffer, b.inAxisOrder out layout = b.inAxisOrder x.shape x.layout := by
    intro b
    symm
    apply b.inAxisOrder_drop hlength hkept.symm hdims
    intro a ha
    exact (Shape.extent_of_mem_extraAxes hunits ha).2
  refine (relayout_rereads (x := x.seenAs out layout) ho hlength hcommitted).bind ?_
  rintro y g' ⟨hshape, -, -, hrereads⟩
  exact Runs.pure ⟨y, layout, rfl, hshape, hrereads.of_seenAs hunits.positions_eq.symm hread⟩

/-- **Reshaping** brings the tensor into axis order first. If there is nothing to reshape, it goes
to the committed layout from there, and otherwise the reshape gives the result. -/
theorem lowerReshape_rereads (h : p.Reads x out committed) (ho : g.HasOutlet x.outlet)
    (hlayout : x.layout.rank = x.shape.rank) (hcommitted : committed.rank = out.rank)
    (hcount : out.count = x.shape.count) :
    Runs (fun _ _ => False) g (lowerReshape p) fun t g' => ∃ y steps, t = .handle y ∧
      y.shape = out ∧ g.Rereads x g' y steps ∧
        ∀ s ∈ steps, s.IsReshape → s.output = ⟨y.shape, y.layout⟩ := by
  have hsorted : x.layout.sorted.rank = x.shape.rank := x.layout.rank_sorted.trans hlayout
  unfold lowerReshape
  refine Runs.lift_bind (Q := (out = ·)) (.of_eq_ok h.shape_eq rfl) ?_
  rintro _ rfl
  refine Runs.lift_bind (Q := (committed = ·)) (.of_eq_ok h.layout_eq rfl) ?_
  rintro _ rfl
  refine h.handle_runs.bind ?_
  rintro _ _ ⟨rfl, rfl⟩
  refine (relayout_rereads ho hlayout hsorted).bind ?_
  rintro ⟨_, _, o⟩ g' ⟨rfl, rfl, ho', hfirst⟩
  split
  · rename_i hsame
    have hsame : x.shape = out := hsame
    have hcommitted' : committed.rank = x.shape.rank := by rw [hcommitted, hsame]
    refine (relayout_rereads ho' hsorted hcommitted').bind ?_
    rintro y g'' ⟨hshape, -, -, hsecond⟩
    refine Runs.pure ⟨y, _, rfl, hshape.trans hsame, hfirst.trans hsecond, ?_⟩
    intro s hs hreshape
    rcases List.mem_append.1 hs with hs | hs <;>
      exact absurd hreshape (not_isReshape_of_mem_conversionSteps hs)
  · have hcommitted' : committed.sorted.rank = out.rank := committed.rank_sorted.trans hcommitted
    refine (reshape_rereads ho' hsorted hcommitted' x.layout.isShuffled_sorted
      committed.isShuffled_sorted hcount).bind ?_
    rintro y g'' ⟨hshape, hlayout', hsecond⟩
    refine Runs.pure ⟨y, _, rfl, hshape, hfirst.trans hsecond, ?_⟩
    intro s hs hreshape
    rcases List.mem_append.1 hs with hs | hs
    · exact absurd hreshape (not_isReshape_of_mem_conversionSteps hs)
    · rw [List.mem_singleton.1 hs, hshape, hlayout']

/-- Flattening, reshaping, squeezing and unsqueezing. -/
def Action.Rearranges : Action → Prop
  | .flatten _ | .reshape _ | .squeeze _ | .unsqueeze _ => True
  | _ => False

/-- **The four operators keep the elements in axis order.** Let the input be a run-time tensor with
one slot per axis, the shape of the output the inferred one, and its layout any of that rank. Then
the operator succeeds, its result has the shape, and the layers that lead to it keep the elements. A
reshape reads a layout that is not shuffled and gives the result under such a layout. Squeezing and
unsqueezing never reshape, and the axes that they take to be dropped or inserted are unit axes, also
where these are not the axes that were named. -/
theorem Operator.lower_rereads (op : Operator) (ops : Operands) (p : Placement) (x : Handle)
    (out : Shape) (committed : Layout) (g : LayerGraph) (hop : op.action.Rearranges)
    (hp : p.Reads x out committed) (ho : g.HasOutlet x.outlet)
    (hlayout : x.layout.rank = x.shape.rank) (hcommitted : committed.rank = out.rank)
    (hinput : ops.shape op.header 0 = .ok x.shape) (hout : op.outputShape ops = .ok out) :
    ∃ y g' steps, (op.lower p).run.run g = (.ok (.handle y), g') ∧ y.shape = out ∧
      g.Rereads x g' y steps ∧
      (∀ s ∈ steps, s.IsReshape → s.output = ⟨y.shape, y.layout⟩) ∧
      (∀ axes, op.action = .squeeze axes → (∀ s ∈ steps, ¬ s.IsReshape) ∧
        ∀ a ∈ out.extraAxes x.shape, a < x.shape.rank ∧ x.shape.extent a = 1) ∧
      (∀ axes, op.action = .unsqueeze axes → (∀ s ∈ steps, ¬ s.IsReshape) ∧
        ∀ a ∈ x.shape.extraAxes out, a < out.rank ∧ out.extent a = 1) := by
  obtain ⟨o, hbound, hshape⟩ := Operands.bound?_of_shape hinput
  have hconverts : ∀ layout, ∀ s ∈ conversionSteps layout committed out, ¬ s.IsReshape :=
    fun _ _ hs => not_isReshape_of_mem_conversionSteps hs
  -- the two that may reshape only need that the number of elements stays
  have hreshapes : out.count = x.shape.count → ∃ y g' steps,
      (lowerReshape p).run.run g = (.ok (.handle y), g') ∧ y.shape = out ∧
      g.Rereads x g' y steps ∧
      ∀ s ∈ steps, s.IsReshape → s.output = ⟨y.shape, y.layout⟩ := by
    intro hcount
    obtain ⟨_, g', hrun, y, steps, rfl, hy⟩ :=
      (lowerReshape_rereads hp ho hlayout hcommitted hcount).exists_ok
    exact ⟨y, g', steps, hrun, hy⟩
  unfold Operator.lower
  unfold Operator.outputShape at hout
  dsimp only at hout
  cases haction : op.action with
  | flatten axis =>
    rw [haction, hinput] at hout
    obtain ⟨y, g', steps, hrun, hy, hrereads, houtput⟩ :=
      hreshapes ((flattenShape_yields op.header axis x.shape).value hout)
    exact ⟨y, g', steps, hrun, hy, hrereads, houtput, by simp, by simp⟩
  | reshape requested =>
    rw [haction] at hout
    obtain ⟨_, hinput', hout⟩ := bind_eq_ok.1 hout
    obtain rfl := Except.ok.inj (hinput.symm.trans hinput')
    obtain ⟨extents, -, hout⟩ := bind_eq_ok.1 hout
    obtain ⟨y, g', steps, hrun, hy, hrereads, houtput⟩ :=
      hreshapes ((reshapeTarget_yields op.header x.shape extents).value hout)
    exact ⟨y, g', steps, hrun, hy, hrereads, houtput, by simp, by simp⟩
  | squeeze axes =>
    rw [haction] at hout
    obtain ⟨o', hbound', hunits⟩ := (squeezeShape_yields op.header axes ops).value hout
    obtain rfl := Option.some.inj (hbound.symm.trans hbound')
    rw [hshape] at hunits
    obtain ⟨_, g', hrun, y, layout, rfl, hy, hrereads⟩ :=
      (lowerSqueeze_rereads hp ho hlayout hcommitted hunits).exists_ok
    refine ⟨y, g', _, hrun, hy, hrereads, fun s hs h => absurd h (hconverts _ s hs), ?_, by simp⟩
    intro _ _
    exact ⟨hconverts layout, fun a ha => Shape.extent_of_mem_extraAxes hunits ha⟩
  | unsqueeze axes =>
    rw [haction] at hout
    obtain ⟨o', hbound', hunits⟩ := (unsqueezeShape_yields op.header axes ops).value hout
    obtain rfl := Option.some.inj (hbound.symm.trans hbound')
    rw [hshape] at hunits
    obtain ⟨_, g', hrun, y, layout, rfl, hy, hrereads⟩ :=
      (lowerUnsqueeze_rereads hp ho hlayout hcommitted hunits).exists_ok
    refine ⟨y, g', _, hrun, hy, hrereads, fun s hs h => absurd h (hconverts _ s hs), by simp, ?_⟩
    intro _ _
    exact ⟨hconverts layout, fun a ha => Shape.extent_of_mem_extraAxes hunits ha⟩
  | _ => simp [haction, Action.Rearranges] at hop

end Operators

/-- Three pairs behind two unit axes. -/
def pairsBehindUnits : Handle :=
  ⟨⟨[1, 1, 3, 2]⟩, ⟨[.depth, .width, .channels, .height], by decide⟩, ⟨0, 0⟩⟩

/-- Drops the first axis. -/
def squeezeFirst : Operator := ⟨⟨"Squeeze", "squeeze", 13⟩, .squeeze (some [0])⟩

/-- The axis that is named is the first one, but the second one is taken to be dropped. Both are
unit axes, and the elements are kept. -/
theorem squeezeFirst_rereads :
    ∃ (g : LayerGraph) (p : Placement) (y : Handle) (g' : LayerGraph) (steps : List LayerStep),
      (squeezeFirst.lower p).run.run g = (.ok (.handle y), g') ∧ y.shape = ⟨[1, 3, 2]⟩ ∧
      g.Rereads pairsBehindUnits g' y steps ∧ (∀ s ∈ steps, ¬ s.IsReshape) ∧
      y.shape.extraAxes pairsBehindUnits.shape = [1] ∧ pairsBehindUnits.shape.extent 1 = 1 := by
  let g : LayerGraph := LayerGraph.empty.push ⟨"pairs", .source, []⟩
  let committed : Layout := ⟨[.depth, .height, .channels], by decide⟩
  let p : Placement :=
    ⟨squeezeFirst.header, [some (.handle pairsBehindUnits)], [⟨[1, 3, 2]⟩], [committed], "squeeze"⟩
  have hout : squeezeFirst.outputShape [some ⟨pairsBehindUnits.shape, none⟩] =
      .ok ⟨[1, 3, 2]⟩ := by cbv
  obtain ⟨y, g', steps, hrun, hy, hrereads, -, hsqueeze, -⟩ :=
    Operator.lower_rereads squeezeFirst [some ⟨pairsBehindUnits.shape, none⟩] p pairsBehindUnits
      ⟨[1, 3, 2]⟩ committed g trivial ⟨rfl, rfl, rfl⟩ (LayerGraph.empty.hasOutlet_push_self rfl)
      rfl rfl rfl hout
  obtain ⟨hconverts, hunits⟩ := hsqueeze (some [0]) rfl
  have haxes : Shape.extraAxes ⟨[1, 3, 2]⟩ pairsBehindUnits.shape = [1] := by decide
  refine ⟨g, p, y, g', steps, hrun, hy, hrereads, hconverts, by rw [hy, haxes], ?_⟩
  exact (hunits 1 (by rw [haxes]; exact List.mem_singleton_self 1)).2

end Lamina
