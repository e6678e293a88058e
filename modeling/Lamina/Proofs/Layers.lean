import Mathlib
import Lamina.Layer.Adapt
import Lamina.Proofs.Broadcasting

/-!
# Layer graphs stay in order

In a layer graph that is in order (`LayerGraph.Sound`) no two layers have the same name, the names
in use are those of the layers, every layer has as many outputs as its kind, and it reads outputs of
layers before it. Appending a layer under a fresh name keeps a graph in order, and a fresh name can
always be found (`LayerGraph.freshName_notMem`).

`Lowers` says of a lowering step that it never fails because of the layer graph: its faults are
those of a given site. It keeps a graph in order, adds inner layers only and leaves what is there as
it is. This holds of every way of adapting a tensor: to a layout (`Lowering.relayout_lowers`) and to
a shape (`Lowering.fit_lowers`).
-/

namespace Lamina

variable {α β : Type} {site : Site} {g g' : LayerGraph}

/-! ### Fresh names -/

namespace LayerGraph

theorem hasName_iff {name : String} : g.hasName name = true ↔ name ∈ g.taken :=
  List.contains_iff_mem

theorem numbered_injective (base : String) : Function.Injective (numbered base) := by
  intro i j h
  have hrepr : i.repr = j.repr := by simpa [numbered] using h
  exact Nat.repr_inj.1 hrepr

theorem numbered_ne_base (base : String) (n : Nat) : numbered base n ≠ base := by
  intro h
  have hlength := congrArg String.length h
  simp only [numbered, toString, String.length_append] at hlength
  have hline : "_".length = 1 := rfl
  omega

/-- If a base and the names made from it with the first numbers are all among some names, there are
more names than numbers. -/
theorem lt_length_of_numbered {names : List String} {base : String} {k : Nat}
    (hbase : base ∈ names) (h : ∀ i < k, numbered base (i + 1) ∈ names) : k < names.length := by
  set made := (List.range k).map fun i => numbered base (i + 1) with hmade
  have hsubset : base :: made ⊆ names := by
    refine List.cons_subset.2 ⟨hbase, fun name hname => ?_⟩
    obtain ⟨i, hi, rfl⟩ := List.mem_map.1 hname
    exact h i (List.mem_range.1 hi)
  have hnodup : (base :: made).Nodup := by
    refine List.nodup_cons.2 ⟨fun hname => ?_, ?_⟩
    · obtain ⟨i, -, hi⟩ := List.mem_map.1 hname
      exact numbered_ne_base base (i + 1) hi
    · refine List.Nodup.map (fun i j hij => ?_) List.nodup_range
      exact Nat.succ_injective (numbered_injective base hij)
  have hlength := (List.subperm_of_subset hnodup hsubset).length_le
  simpa [hmade] using hlength

theorem freshName_of_notMem {base : String} (h : base ∉ g.taken) : g.freshName base = base :=
  if_neg fun hname => h (hasName_iff.1 hname)

/-- **A base that is in use gets the least number that makes a new name.** There is one candidate
more than there are names in use, so one of them is new. -/
theorem freshName_of_mem {base : String} (h : base ∈ g.taken) :
    ∃ n, g.freshName base = numbered base n ∧
      IsLeast {m | 1 ≤ m ∧ numbered base m ∉ g.taken} n := by
  rw [freshName, if_pos (hasName_iff.2 h)]
  dsimp only
  rw [List.find?_map]
  cases hfind : (List.range (g.taken.length + 1)).find?
      ((fun n => !g.hasName n) ∘ fun i => numbered base (i + 1)) with
  | none =>
    exfalso
    have hall : ∀ i < g.taken.length + 1, numbered base (i + 1) ∈ g.taken := by
      intro i hi
      have := List.find?_eq_none.1 hfind i (List.mem_range.2 hi)
      simpa [hasName_iff] using this
    have := lt_length_of_numbered h hall
    omega
  | some i =>
    obtain ⟨hfree, -, hbefore⟩ := List.find?_range_eq_some.1 hfind
    refine ⟨i + 1, rfl, ⟨Nat.le_add_left 1 i, ?_⟩, ?_⟩
    · simpa [hasName_iff, ← Bool.not_eq_true] using hfree
    · rintro m ⟨hm, hnew⟩
      by_contra hlt
      obtain ⟨j, rfl⟩ : ∃ j, m = j + 1 := ⟨m - 1, by omega⟩
      have := hbefore j (by omega)
      exact hnew (by simpa [hasName_iff] using this)

/-- **A fresh name is fresh.** -/
theorem freshName_notMem (g : LayerGraph) (base : String) : g.freshName base ∉ g.taken := by
  by_cases h : base ∈ g.taken
  · obtain ⟨n, hname, hleast⟩ := freshName_of_mem h
    rw [hname]
    exact hleast.1.2
  · rwa [freshName_of_notMem h]

/-! ### Graphs in order -/

/-- Some layer has the outlet. -/
def HasOutlet (g : LayerGraph) (o : Outlet) : Prop :=
  ∃ l, g.layer? o.layer = some l ∧ o.index < l.outputCount

/-- No name occurs twice, the names in use are those of the layers, and every layer has the outputs
of its kind and reads outlets of layers before it. -/
structure Sound (g : LayerGraph) : Prop where
  names : g.names.Nodup
  taken : ∀ name, name ∈ g.taken ↔ name ∈ g.names
  counts : ∀ i l, g.layer? i = some l → l.outputCount = l.kind.outputCount
  inputs : ∀ i l, g.layer? i = some l → ∀ o ∈ l.inputs, o.layer < i ∧ g.HasOutlet o

@[simp]
theorem layer?_empty (i : Nat) : empty.layer? i = none := rfl

theorem sound_empty : empty.Sound where
  names := List.nodup_nil
  taken := by simp [empty, LayerGraph.names]
  counts := by simp
  inputs := by simp

theorem layer?_push (g : LayerGraph) (s : LayerSpec) (i : Nat) :
    (g.push s).layer? i = if i = g.size then some s.layer else g.layer? i :=
  Array.getElem?_push

theorem layer?_push_of_some {s : LayerSpec} {l : Layer} {i : Nat} (h : g.layer? i = some l) :
    (g.push s).layer? i = some l := by
  have hlt : i < g.size := (Array.getElem?_eq_some_iff.1 h).1
  rw [layer?_push, if_neg hlt.ne, h]

theorem names_push (g : LayerGraph) (s : LayerSpec) : (g.push s).names = g.names ++ [s.name] := by
  simp [names, push, LayerSpec.layer]

theorem HasOutlet.lt {o : Outlet} (h : g.HasOutlet o) : o.layer < g.size := by
  obtain ⟨l, hl, _⟩ := h
  exact (Array.getElem?_eq_some_iff.1 hl).1

theorem HasOutlet.push {o : Outlet} (h : g.HasOutlet o) (s : LayerSpec) :
    (g.push s).HasOutlet o := by
  obtain ⟨l, hl, hindex⟩ := h
  exact ⟨l, layer?_push_of_some hl, hindex⟩

/-- A layer that is neither a sink has an outlet of its own. -/
theorem hasOutlet_push_self (g : LayerGraph) {s : LayerSpec} (h : s.kind.outputCount = 1) :
    (g.push s).HasOutlet ⟨g.size, 0⟩ :=
  ⟨s.layer, by rw [layer?_push, if_pos rfl], by rw [LayerSpec.layer, h]; exact Nat.one_pos⟩

/-- **One more layer**: its name is new, and what it reads is there. -/
theorem Sound.push {s : LayerSpec} (h : g.Sound) (hname : s.name ∉ g.taken)
    (hinputs : ∀ o ∈ s.inputs, g.HasOutlet o) : (g.push s).Sound where
  names := by
    rw [names_push, List.nodup_append]
    refine ⟨h.names, List.nodup_singleton _, fun a ha b hb => ?_⟩
    rw [List.mem_singleton.1 hb]
    rintro rfl
    exact hname ((h.taken _).2 ha)
  taken := by
    intro name
    rw [names_push, List.mem_append, List.mem_singleton, ← h.taken name, Or.comm]
    exact List.mem_cons
  counts := by
    intro i l hl
    rw [layer?_push] at hl
    split at hl
    · cases hl
      rfl
    · exact h.counts i l hl
  inputs := by
    intro i l hl o ho
    rw [layer?_push] at hl
    split at hl
    · rename_i hi
      cases hl
      exact ⟨hi ▸ (hinputs o ho).lt, (hinputs o ho).push _⟩
    · obtain ⟨hlt, houtlet⟩ := h.inputs i l hl o ho
      exact ⟨hlt, houtlet.push _⟩

/-! ### Inner layers -/

end LayerGraph

/-- Neither a source nor a sink. -/
def LayerKind.Inner : LayerKind → Prop
  | .source | .sink => False
  | _ => True

/-- A window over height and width: its points, the distances between windows and between points,
and the padding on either side. -/
structure PlaneWindow where
  kernel : Planar
  strides : Planar
  pads : Planar
  dilations : Planar
deriving DecidableEq

/-- The window that a layer slides over its input. The points of a pooling lie next to each other.
-/
def LayerKind.window? : LayerKind → Option PlaneWindow
  | .conv _ _ params | .channelwiseConv _ _ params =>
    some ⟨params.kernel, params.strides, params.pads, params.dilations⟩
  | .pooling _ params => some ⟨params.kernel, params.strides, params.pads, ⟨1, 1⟩⟩
  | _ => none

namespace LayerGraph

/-- The same layers, and others of certain kinds behind them. -/
inductive GrowsBy (K : LayerKind → Prop) (g : LayerGraph) : LayerGraph → Prop
  | refl : GrowsBy K g g
  | push {g' : LayerGraph} {s : LayerSpec} : GrowsBy K g g' → K s.kind → GrowsBy K g (g'.push s)

/-- The same layers, and inner ones behind them. -/
abbrev Grows (g g' : LayerGraph) : Prop := g.GrowsBy LayerKind.Inner g'

theorem GrowsBy.trans {K : LayerKind → Prop} {g'' : LayerGraph} (h : g.GrowsBy K g')
    (h' : g'.GrowsBy K g'') : g.GrowsBy K g'' := by
  induction h' with
  | refl => exact h
  | push _ hl ih => exact ih.push hl

theorem HasOutlet.grows {K : LayerKind → Prop} {o : Outlet} (ho : g.HasOutlet o)
    (h : g.GrowsBy K g') : g'.HasOutlet o := by
  induction h with
  | refl => exact ho
  | push _ _ ih => exact ih.push _

/-! ### Appending -/

/-- A layer can be appended: its name is not in use, and what it reads is there. -/
def Admits (g : LayerGraph) (s : LayerSpec) : Prop :=
  s.name ∉ g.taken ∧ ∀ o ∈ s.inputs, g.HasOutlet o

theorem checkOutlet_yields (g : LayerGraph) (o : Outlet) (node : String) :
    Yields (fun f => f.cause.isLayer = true ∧ ¬ g.HasOutlet o) (g.checkOutlet o node)
      fun _ => g.HasOutlet o := by
  unfold checkOutlet
  dsimp only
  split
  · rename_i hnone
    refine .fail ⟨rfl, ?_⟩
    rintro ⟨l, hl, -⟩
    rw [hnone] at hl
    cases hl
  · rename_i l hl
    split
    · rename_i hindex
      exact .ok ⟨l, hl, hindex⟩
    · rename_i hindex
      refine .fail ⟨rfl, ?_⟩
      rintro ⟨l', hl', hindex'⟩
      rw [hl] at hl'
      cases hl'
      exact hindex hindex'

/-- A layer is appended if and only if it can be. -/
theorem append_yields (g : LayerGraph) (s : LayerSpec) :
    Yields (fun f => f.cause.isLayer = true ∧ ¬ g.Admits s) (g.append s.name s.kind s.inputs)
      fun r => g.Admits s ∧ r = (g.size, g.push s) := by
  have hinputs : Yields (fun f => f.cause.isLayer = true ∧ ¬ g.Admits s)
      (s.inputs.forM fun o => g.checkOutlet o s.name) fun _ => ∀ o ∈ s.inputs, g.HasOutlet o := by
    refine .forM fun o ho => (g.checkOutlet_yields o s.name).mono ?_ fun _ h => h
    rintro f ⟨hcause, hmissing⟩
    exact ⟨hcause, fun hadmits => hmissing (hadmits.2 o ho)⟩
  refine hinputs.bind fun _ hthere => ?_
  split
  · rename_i htaken
    exact .fail ⟨rfl, fun hadmits => hadmits.1 (hasName_iff.1 htaken)⟩
  · rename_i hfree
    exact .pure ⟨⟨fun hmem => hfree (hasName_iff.2 hmem), hthere⟩, rfl⟩

theorem handle_yields (g : LayerGraph) (o : Outlet) (shape : Shape) (layout : Layout) :
    Yields (fun _ => ¬ (g.HasOutlet o ∧ layout.fits shape.rank = true)) (g.handle o shape layout)
      fun h => (g.HasOutlet o ∧ layout.fits shape.rank = true) ∧ h = ⟨shape, layout, o⟩ := by
  refine ((g.checkOutlet_yields o _).mono (fun _ hmissing h => hmissing.2 h.1) fun _ h => h).bind ?_
  intro _ hthere
  split
  · rename_i hfits
    exact .pure ⟨⟨hthere, hfits⟩, rfl⟩
  · rename_i hfits
    exact .fail fun h => hfits h.2

end LayerGraph

namespace Lowering

variable {P : Fault → LayerGraph → Prop}

/-- Appending changes nothing if it fails. -/
theorem append_spec (g : LayerGraph) (s : LayerSpec) :
    Runs (fun f g' => f.cause.isLayer = true ∧ ¬ g.Admits s ∧ g' = g) g
      (append s.name s.kind s.inputs) fun i g' => g.Admits s ∧ i = g.size ∧ g' = g.push s := by
  refine Runs.get_bind (Runs.lift_bind (Q := fun r => g.Admits s ∧ r = (g.size, g.push s)) ?_ ?_)
  · exact (g.append_yields s).mono (fun f h => ⟨h.1, h.2, rfl⟩) fun _ h => h
  rintro _ ⟨hadmits, rfl⟩
  refine (Runs.set (Q := fun _ t => t = g.push s) rfl).bind fun _ t ht => ?_
  exact Runs.pure ⟨hadmits, rfl, ht⟩

/-- Asking for a handle changes nothing. -/
theorem handle_spec (g : LayerGraph) (o : Outlet) (shape : Shape) (layout : Layout) :
    Runs (fun _ g' => ¬ (g.HasOutlet o ∧ layout.fits shape.rank = true) ∧ g' = g) g
      (handle o shape layout) fun h g' =>
        (g.HasOutlet o ∧ layout.fits shape.rank = true) ∧ h = ⟨shape, layout, o⟩ ∧ g' = g := by
  refine Runs.get_bind (Runs.lift ((g.handle_yields o shape layout).mono ?_ ?_))
  · exact fun _ h => ⟨h, rfl⟩
  · exact fun _ h => ⟨h.1, h.2, rfl⟩

/-- Appending under a fresh name always succeeds, if the outlets that are read are there. -/
theorem append_runs {inputs : List Outlet} (hinputs : ∀ o ∈ inputs, g.HasOutlet o) (base : String)
    (kind : LayerKind) :
    Runs P g (append (g.freshName base) kind inputs) fun i g' =>
      i = g.size ∧ g' = g.push ⟨g.freshName base, kind, inputs⟩ := by
  refine (append_spec g ⟨g.freshName base, kind, inputs⟩).mono ?_ fun _ _ h => h.2
  exact fun _ _ h => absurd ⟨g.freshName_notMem base, hinputs⟩ h.2.1

/-- A handle on an outlet that is there. -/
theorem handle_runs {o : Outlet} {shape : Shape} {layout : Layout} (ho : g.HasOutlet o)
    (hfits : layout.fits shape.rank = true) :
    Runs P g (handle o shape layout) fun h g' => h = ⟨shape, layout, o⟩ ∧ g' = g := by
  refine (handle_spec g o shape layout).mono ?_ fun _ _ h => h.2
  exact fun _ _ h => absurd ⟨ho, hfits⟩ h.1

/-- What a new layer and the handle on its output are, if they are admitted. -/
theorem add_spec (g : LayerGraph) (base : String) (kind : LayerKind) (inputs : List Outlet)
    (shape : Shape) (layout : Layout) :
    Runs (fun _ _ => True) g (add base kind inputs shape layout) fun h g' =>
      h = ⟨shape, layout, ⟨g.size, 0⟩⟩ ∧ g' = g.push ⟨g.freshName base, kind, inputs⟩ := by
  refine Runs.get_bind (((append_spec g ⟨g.freshName base, kind, inputs⟩).mono
    (fun _ _ _ => trivial) fun _ _ h => h.2).bind ?_)
  rintro _ _ ⟨rfl, rfl⟩
  refine (handle_spec _ _ shape layout).mono (fun _ _ _ => trivial) ?_
  rintro _ _ ⟨-, rfl, rfl⟩
  exact ⟨rfl, rfl⟩

/-- A new layer with an output, and a handle on it. -/
theorem add_runs {inputs : List Outlet} {shape : Shape} {layout : Layout} {kind : LayerKind}
    (hinputs : ∀ o ∈ inputs, g.HasOutlet o) (hkind : kind.outputCount = 1)
    (hfits : layout.fits shape.rank = true) (base : String) :
    Runs P g (add base kind inputs shape layout) fun h g' =>
      h = ⟨shape, layout, ⟨g.size, 0⟩⟩ ∧ g' = g.push ⟨g.freshName base, kind, inputs⟩ := by
  refine Runs.get_bind ((append_runs hinputs base kind).bind ?_)
  rintro _ _ ⟨rfl, rfl⟩
  refine (handle_runs (g.hasOutlet_push_self hkind) hfits).imp ?_
  rintro _ _ ⟨rfl, rfl⟩
  exact ⟨rfl, rfl⟩

end Lowering

/-! ### Lowering steps -/

/-- Started on a graph in order, a computation ends on one that has the same layers and inner ones
behind them. Its value satisfies `Q`, and its fault is one of the site. -/
def Lowers (site : Site) (g : LayerGraph) (x : Lowering α) (Q : α → LayerGraph → Prop) : Prop :=
  g.Sound → Runs (fun f _ => f.Own site) g x fun a g' => g'.Sound ∧ g.Grows g' ∧ Q a g'

namespace Lowers

variable {Q Q' : α → LayerGraph → Prop} {R : β → LayerGraph → Prop} {x : Lowering α}

theorem pure {a : α} (h : Q a g) : Lowers site g (Pure.pure a) Q :=
  fun hg => Runs.pure ⟨hg, .refl, h⟩

theorem imp (h : Lowers site g x Q) (hQ : ∀ a g', g.Grows g' → Q a g' → Q' a g') :
    Lowers site g x Q' :=
  fun hg => (h hg).imp fun a g' ⟨hsound, hgrows, ha⟩ => ⟨hsound, hgrows, hQ a g' hgrows ha⟩

theorem bind {f : α → Lowering β} (hx : Lowers site g x Q)
    (hf : ∀ a g', g.Grows g' → Q a g' → Lowers site g' (f a) R) : Lowers site g (x >>= f) R := by
  refine fun hg => (hx hg).bind fun a g' ⟨hsound, hgrows, ha⟩ => ?_
  exact (hf a g' hgrows ha hsound).imp fun b g'' ⟨hsound', hgrows', hb⟩ =>
    ⟨hsound', hgrows.trans hgrows', hb⟩

theorem map {f : α → β} (hx : Lowers site g x Q) (hf : ∀ a g', Q a g' → R (f a) g') :
    Lowers site g (f <$> x) R :=
  fun hg => (hx hg).map fun a g' ⟨hsound, hgrows, ha⟩ => ⟨hsound, hgrows, hf a g' ha⟩

theorem lift {y : Except Fault α} (h : Yields (Fault.Own site) y fun a => Q a g) :
    Lowers site g (liftM y) Q :=
  fun hg => Runs.lift (h.imp fun _ ha => ⟨hg, .refl, ha⟩)

/-- A result first, then a computation. -/
theorem lift_bind {Q : α → Prop} {y : Except Fault α} {f : α → Lowering β}
    (h : Yields (Fault.Own site) y Q) (hf : ∀ a, Q a → Lowers site g (f a) R) :
    Lowers site g (liftM y >>= f) R :=
  fun hg => Runs.lift_bind h fun a ha => hf a ha hg

/-- A result that is only asked for. -/
theorem lift_discard {Q : α → Prop} {y : Except Fault α} (h : Yields (Fault.Own site) y Q) :
    Lowers site g (Functor.discard (liftM y)) fun _ _ => True :=
  (lift (Q := fun _ _ => True) (h.imp fun _ _ => trivial)).map fun _ _ _ => trivial

theorem fail {cause : Cause} (h : cause.isNetwork = false) :
    Lowers site g (liftM (site.fail cause : Except Fault α)) Q := lift (.own h)

/-- What would come after a fault does not matter. -/
theorem fail_bind {cause : Cause} {f : α → Lowering β} (h : cause.isNetwork = false) :
    Lowers site g (liftM (site.fail cause : Except Fault α) >>= f) R :=
  lift_bind (Q := fun _ => False) (.own h) fun _ ha => ha.elim

/-- A look at the graph. -/
theorem read {f : LayerGraph → Lowering β} (h : Lowers site g (f g) R) :
    Lowers site g (MonadState.get >>= f) R := fun hg => Runs.get_bind (h hg)

/-- A computation that goes on in the same way from a value or from what is made of it. -/
theorem either {S : α → LayerGraph → Prop} {c : Prop} [Decidable c] {a : α} {y : Lowering α}
    {k : α → Lowering β} (ha : S a g) (hy : Lowers site g y S)
    (hk : ∀ b g', S b g' → Lowers site g' (k b) R) :
    Lowers site g (if c then k a else y >>= k) R := by
  split
  · exact hk a g ha
  · exact hy.bind fun b g' _ hb => hk b g' hb

/-- A computation for each entry of a list; what is found stays true while the graph grows. -/
theorem mapM {T : β → LayerGraph → Prop} {f : α → Lowering β} {l : List α}
    (hT : ∀ b g' g'', T b g' → g'.Grows g'' → T b g'')
    (h : ∀ a ∈ l, ∀ g', g.Grows g' → Lowers site g' (f a) T) :
    Lowers site g (l.mapM f) fun bs g' => ∀ b ∈ bs, T b g' := by
  induction l generalizing g with
  | nil => exact pure fun b hb => absurd hb List.not_mem_nil
  | cons a l ih =>
    rw [List.mapM_cons]
    refine (h a List.mem_cons_self g .refl).bind fun b g' hgrows hb => ?_
    -- what was found for this entry has to survive the growth by those behind it
    refine (ih fun a ha g'' hgrows' =>
      h a (List.mem_cons_of_mem _ ha) g'' (hgrows.trans hgrows')).bind
        fun bs g'' hgrows' hbs => ?_
    refine pure fun c hc => ?_
    rcases List.mem_cons.1 hc with rfl | hc
    · exact hT _ _ _ hb hgrows'
    · exact hbs c hc

end Lowers

/-! ### Handles -/

/-- A handle on an outlet that is there, with one slot per axis. -/
structure Handle.Valid (g : LayerGraph) (h : Handle) : Prop where
  rank : h.layout.rank = h.shape.rank
  outlet : g.HasOutlet h.outlet

/-- A tensor that is a constant or a valid handle. -/
def Tensor.Valid (g : LayerGraph) : Tensor → Prop
  | .constant _ => True
  | .handle h => h.Valid g

/-- A tensor stays valid as long as no outlet is lost. -/
theorem Tensor.Valid.mono {t : Tensor} (ht : t.Valid g)
    (hg : ∀ o, g.HasOutlet o → g'.HasOutlet o) : t.Valid g' := by
  cases t with
  | constant => trivial
  | handle h => exact ⟨Handle.Valid.rank ht, hg _ (Handle.Valid.outlet ht)⟩

namespace Lowering

variable {h : Handle} {c : Constant} {out : Shape} {target : Layout}

theorem append_lowers {inputs : List Outlet} {kind : LayerKind}
    (hinputs : ∀ o ∈ inputs, g.HasOutlet o) (hinner : kind.Inner) (base : String) :
    Lowers site g (append (g.freshName base) kind inputs) fun i g' => g'.HasOutlet ⟨i, 0⟩ := by
  refine fun hg => (append_runs hinputs base kind).imp ?_
  rintro _ _ ⟨rfl, rfl⟩
  have hkind : kind.outputCount = 1 := by
    cases kind with
    | source | sink => exact hinner.elim
    | _ => rfl
  exact ⟨hg.push (g.freshName_notMem base) hinputs, .push .refl hinner, g.hasOutlet_push_self hkind⟩

theorem handle_lowers {o : Outlet} (ho : g.HasOutlet o) (hrank : target.rank = out.rank) :
    Lowers site g (handle o out target) fun h g' =>
      h.Valid g' ∧ h.shape = out ∧ h.layout = target := by
  refine fun hg => (handle_runs ho (Layout.fits_of_rank hrank)).imp ?_
  rintro _ _ ⟨rfl, rfl⟩
  exact ⟨hg, .refl, ⟨hrank, ho⟩, rfl, rfl⟩

theorem add_lowers {inputs : List Outlet} {kind : LayerKind}
    (hinputs : ∀ o ∈ inputs, g.HasOutlet o) (hinner : kind.Inner)
    (hrank : target.rank = out.rank) (base : String) :
    Lowers site g (add base kind inputs out target) fun h g' =>
      h.Valid g' ∧ h.shape = out ∧ h.layout = target := by
  exact .read ((append_lowers hinputs hinner base).bind fun i g' _ hi => handle_lowers hi hrank)

/-- A layer that reads one handle. -/
theorem addOn_lowers {kind : LayerKind} (hh : g.HasOutlet h.outlet) (hinner : kind.Inner)
    (hrank : target.rank = out.rank) (base : String) :
    Lowers site g (add base kind [h.outlet] out target) fun h g' =>
      h.Valid g' ∧ h.shape = out ∧ h.layout = target :=
  add_lowers (fun _ ho => List.mem_singleton.1 ho ▸ hh) hinner hrank base

/-- **Every layout with one slot per axis can be reached**, whatever the layout was before. -/
theorem relayout_lowers (hh : g.HasOutlet h.outlet) (hrank : target.rank = h.shape.rank)
    (name : String) :
    Lowers site g (relayout name h target) fun h' g' =>
      h'.Valid g' ∧ h'.shape = h.shape ∧ h'.layout = target := by
  unfold relayout
  split
  · rename_i hsame
    exact .pure ⟨⟨hsame ▸ hrank, hh⟩, rfl, hsame⟩
  · split
    · exact addOn_lowers hh (by trivial) hrank _
    · exact .pure ⟨⟨hrank, hh⟩, rfl, rfl⟩

theorem stretch_lowers (hh : h.Valid g) {offset : Nat} (hoffset : offset + h.shape.rank ≤ out.rank)
    (hrank : target.rank = out.rank) (name : String) :
    Lowers site g (stretch site name h offset out target) fun h' g' =>
      h'.Valid g' ∧ h'.shape = out ∧ h'.layout = target := by
  refine .lift_bind (Broadcast.embedLayout_yields site target (hh.rank ▸ hoffset))
    fun layout hlayout => ?_
  dsimp only
  split
  · rename_i hsame
    rw [hsame]
    exact relayout_lowers (h := h.seenAs out layout) hh.outlet hrank name
  · refine (addOn_lowers hh.outlet (by trivial) hlayout _).bind ?_
    rintro h' g' - ⟨hvalid, rfl, -⟩
    exact relayout_lowers hvalid.outlet hrank name

/-- **Every shape that a tensor stretches to can be reached**, under every layout for it. -/
theorem fit_lowers {t : Tensor} (ht : t.Valid g) {offset : Nat}
    (hembeds : Broadcast.Embeds t.shape offset out) (hrank : target.rank = out.rank)
    (name : String) :
    Lowers site g (fit site name t offset out target) fun t' g' =>
      t'.Valid g' ∧ t'.shape = out := by
  unfold fit
  cases t with
  | constant c =>
    refine .lift_bind (Broadcast.constant_yields hembeds) fun expanded hshape => ?_
    have hfits : target.fits expanded.shape.rank = true :=
      Layout.fits_of_rank (hshape ▸ hrank)
    refine .lift_bind (Constant.toLayout_yields hfits) fun laid hlaid => ?_
    exact .pure ⟨trivial, hlaid.1.trans hshape⟩
  | handle h =>
    refine (stretch_lowers ht hembeds.1 hrank name).bind fun h' g' _ hh' => ?_
    exact .pure ⟨hh'.1, hh'.2.1⟩

theorem feed_lowers (hrank : target.rank = c.shape.rank) (name : String) :
    Lowers site g (feed name c target) fun h g' =>
      h.Valid g' ∧ h.shape = c.shape ∧ h.layout = target := by
  refine .lift_bind (Constant.toLayout_yields (Layout.fits_of_rank hrank)) fun laid hlaid => ?_
  refine (add_lowers (fun _ ho => absurd ho List.not_mem_nil) (by trivial)
    (hlaid.1 ▸ hrank) _).imp fun h g' _ hh => ?_
  exact ⟨hh.1, hh.2.1.trans hlaid.1, hh.2.2⟩

end Lowering

end Lamina
