import Mathlib
import Lamina.Operator.Lower
import Lamina.Proofs.Layers

/-!
# What lowering appends

Lowering touches a layer graph in one way: it appends a layer under a fresh name that is made from
the name of the node. `Renames` certifies this of a computation, once for each operator
(`Operator.lower_renames`). It compares two computations that go the same way, of which the first
has a text in front of all its names, and says which kinds of layers they append.

Two things follow from a certificate, whatever the graph is at the beginning and whether or not the
computations fail.

* **Names are names only** (`Renames.runs`): started on a graph with the text in front of all names,
  the first computation ends as the second one does, on a graph that again differs by the text
  alone.
* **Layers come behind the others and are of the given kinds** (`Renames.grows`).

Layers that slide a window come from three operators only; all others are windowless.
-/

namespace Lamina

variable {α β : Type} {s : String} {K : LayerKind → Prop} {g g' : LayerGraph}

/-! ### A text in front of all names -/

/-- The layer with a text in front of its name. -/
def Layer.inScope (s : String) (l : Layer) : Layer := { l with name := s ++ l.name }

/-- The same before the layer is appended. -/
def LayerSpec.inScope (s : String) (t : LayerSpec) : LayerSpec := { t with name := s ++ t.name }

namespace LayerGraph

/-- The graph with a text in front of all names. -/
def inScope (s : String) (g : LayerGraph) : LayerGraph :=
  ⟨g.layers.map (Layer.inScope s), g.taken.map (s ++ ·)⟩

@[simp] theorem inScope_empty (s : String) : empty.inScope s = empty := by
  simp [inScope, empty]

@[simp] theorem size_inScope (s : String) (g : LayerGraph) : (g.inScope s).size = g.size := by
  simp [size, inScope]

@[simp] theorem layer?_inScope (s : String) (g : LayerGraph) (i : Nat) :
    (g.inScope s).layer? i = (g.layer? i).map (Layer.inScope s) := by
  simp [layer?, inScope]

@[simp] theorem inScope_push (s : String) (g : LayerGraph) (t : LayerSpec) :
    (g.push t).inScope s = (g.inScope s).push (t.inScope s) := by
  simp [push, inScope, LayerSpec.layer, LayerSpec.inScope, Layer.inScope]

@[simp] theorem hasOutlet_inScope {o : Outlet} : (g.inScope s).HasOutlet o ↔ g.HasOutlet o := by
  simp [HasOutlet, Layer.inScope]

@[simp] theorem mem_taken_inScope {name : String} :
    s ++ name ∈ (g.inScope s).taken ↔ name ∈ g.taken := by
  simp [inScope]

@[simp] theorem hasName_inScope (s : String) (g : LayerGraph) (name : String) :
    (g.inScope s).hasName (s ++ name) = g.hasName name := by
  rw [Bool.eq_iff_iff, hasName_iff, hasName_iff, mem_taken_inScope]

theorem admits_inScope {t : LayerSpec} : (g.inScope s).Admits (t.inScope s) ↔ g.Admits t := by
  simp [Admits, LayerSpec.inScope]

theorem numbered_inScope (s base : String) (n : Nat) :
    numbered (s ++ base) n = s ++ numbered base n := by
  simp [numbered, toString, String.append_assoc]

/-- A fresh name is found in the same way behind the text. -/
theorem freshName_inScope (s : String) (g : LayerGraph) (base : String) :
    (g.inScope s).freshName (s ++ base) = s ++ g.freshName base := by
  have hlength : (g.inScope s).taken.length = g.taken.length := by simp [inScope]
  have hcandidates : ((List.range (g.taken.length + 1)).map fun i => numbered (s ++ base) (i + 1)) =
      ((List.range (g.taken.length + 1)).map fun i => numbered base (i + 1)).map (s ++ ·) := by
    simp [numbered_inScope]
  have hfree : (fun n => !(g.inScope s).hasName n) ∘ (s ++ ·) = fun n => !g.hasName n := by
    funext n
    simp
  unfold freshName
  rw [hasName_inScope, hlength]
  split
  · dsimp only
    rw [hcandidates, List.find?_map, hfree, Option.getD_map]
  · rfl

end LayerGraph

/-! ### Certificates -/

/-- Two computations that go the same way, the first with a text in front of all names. They read
and append to a layer graph, and the layers that they append are of certain kinds. -/
inductive Renames (s : String) (K : LayerKind → Prop) :
    {α : Type} → Lowering α → Lowering α → Prop
  /-- A result has no names. -/
  | lift {α : Type} (y : Except Fault α) : Renames s K (liftM y) (liftM y)
  /-- A layer is appended under a fresh name. -/
  | append (base : String) {kind : LayerKind} (hkind : K kind) (inputs : List Outlet) :
      Renames s K (do Lowering.append ((← get).freshName (s ++ base)) kind inputs)
        (do Lowering.append ((← get).freshName base) kind inputs)
  /-- A handle is taken of an output. -/
  | handle (o : Outlet) (shape : Shape) (layout : Layout) :
      Renames s K (Lowering.handle o shape layout) (Lowering.handle o shape layout)
  /-- One computation after another. -/
  | bind {α β : Type} {x y : Lowering α} {f f' : α → Lowering β} :
      Renames s K x y → (∀ a, Renames s K (f a) (f' a)) → Renames s K (x >>= f) (y >>= f')

namespace LayerGraph

theorem checkOutlet_of_hasOutlet {o : Outlet} (h : g.HasOutlet o) (node : String) :
    g.checkOutlet o node = .ok () := by
  have hyields := (g.checkOutlet_yields o node).mono (fun _ hf => hf.2 h) fun _ h => h
  obtain ⟨_, hok, -⟩ := hyields.exists_ok
  exact hok

/-- A handle is the same, and so is the fault if it is not one of the layer graph. -/
theorem handle_inScope (s : String) (g : LayerGraph) (o : Outlet) (shape : Shape)
    (layout : Layout) :
    Yields (fun f => f.cause.isLayer = false →
        (g.inScope s).handle o shape layout = .error f) (g.handle o shape layout)
      fun h => (g.inScope s).handle o shape layout = .ok h := by
  by_cases hthere : g.HasOutlet o
  · have hsame : (g.inScope s).handle o shape layout = g.handle o shape layout := by
      rw [handle, handle, checkOutlet_of_hasOutlet hthere,
        checkOutlet_of_hasOutlet (hasOutlet_inScope.2 hthere)]
    rw [hsame]
    cases g.handle o shape layout with
    | ok h => rfl
    | error f => exact fun _ => rfl
  · refine ((g.checkOutlet_yields o _).mono ?_ fun _ h => h).bind fun _ h => absurd h hthere
    intro f hf hcause
    rw [hf.1] at hcause
    cases hcause

end LayerGraph

namespace Renames

variable {x y : Lowering α}

theorem run_appendFresh (base : String) (kind : LayerKind) (inputs : List Outlet)
    (g : LayerGraph) :
    (do Lowering.append ((← get).freshName base) kind inputs : Lowering Nat).run.run g =
      (Lowering.append (g.freshName base) kind inputs).run.run g :=
  run_get_bind _ g

theorem run_handle (o : Outlet) (shape : Shape) (layout : Layout) (g : LayerGraph) :
    (Lowering.handle o shape layout).run.run g = (g.handle o shape layout, g) :=
  (run_get_bind _ g).trans (run_lift _ g)

/-- **Names are names only.** On the graph with the text in front of all names, the first
computation ends as the second does on the other, unless that fails because of the layer graph
itself. -/
theorem runs (h : Renames s K x y) (g : LayerGraph) :
    Runs (fun f g' => f.cause.isLayer = false →
        x.run.run (g.inScope s) = (.error f, g'.inScope s)) g y
      fun a g' => x.run.run (g.inScope s) = (.ok a, g'.inScope s) := by
  induction h generalizing g with
  | lift y =>
    apply Runs.lift
    cases y with
    | ok a => exact run_lift _ _
    | error f => exact fun _ => run_lift _ _
  | append base hkind inputs =>
    rename_i kind
    refine Runs.get_bind ?_
    rw [run_appendFresh, LayerGraph.freshName_inScope]
    let t : LayerSpec := ⟨g.freshName base, kind, inputs⟩
    have hscoped := Lowering.append_spec (g.inScope s) (t.inScope s)
    refine (Lowering.append_spec g t).mono ?_ ?_
    · intro f g' hf hcause
      rw [hf.1] at hcause
      cases hcause
    · rintro i _ ⟨hadmits, rfl, rfl⟩
      rcases hrun : (Lowering.append (s ++ g.freshName base) kind inputs).run.run (g.inScope s) with
        ⟨f | j, g'⟩
      · exact absurd (LayerGraph.admits_inScope.2 hadmits) (hscoped.fault hrun).2.1
      · obtain ⟨-, rfl, rfl⟩ := hscoped.value hrun
        rw [LayerGraph.size_inScope, LayerGraph.inScope_push]
  | handle o shape layout =>
    rw [run_handle]
    refine Runs.get_bind (Runs.lift ((g.handle_inScope s o shape layout).mono ?_ ?_))
    · intro f hf hcause
      rw [hf hcause]
    · intro h hh
      rw [hh]
  | bind hx hf ihx ihf =>
    refine Runs.bind ((ihx g).mono ?_ fun _ _ h => h) ?_
    · intro f g' hrun hcause
      exact run_bind_error (hrun hcause)
    · intro a g' hrun
      rw [run_bind_ok hrun]
      exact ihf a g'

/-- **Layers come behind the others and are of the given kinds**, whether or not a computation
fails. -/
theorem grows (h : Renames s K x y) (g : LayerGraph) :
    Runs (fun _ g' => g.GrowsBy K g') g y fun _ g' => g.GrowsBy K g' := by
  induction h generalizing g with
  | lift y =>
    apply Runs.lift
    cases y with
    | ok a => exact .refl
    | error f => exact .refl
  | append base hkind inputs =>
    rename_i kind
    refine Runs.get_bind ?_
    refine (Lowering.append_spec g ⟨g.freshName base, kind, inputs⟩).mono ?_ ?_
    · rintro f _ ⟨-, -, rfl⟩
      exact .refl
    · rintro i _ ⟨-, -, rfl⟩
      exact .push .refl hkind
  | handle o shape layout =>
    refine (Lowering.handle_spec g o shape layout).mono ?_ ?_
    · rintro f _ ⟨-, rfl⟩
      exact .refl
    · rintro h _ ⟨-, -, rfl⟩
      exact .refl
  | bind hx hf ihx ihf =>
    refine Runs.bind (ihx g) ?_
    intro a g' hgrows
    exact (ihf a g').mono (fun _ _ h => hgrows.trans h) fun _ _ h => hgrows.trans h

/-! ### Ways to put computations together -/

theorem mono {K' : LayerKind → Prop} (h : Renames s K x y) (hK : ∀ kind, K kind → K' kind) :
    Renames s K' x y := by
  induction h with
  | lift y => exact .lift y
  | append base hkind inputs => exact .append base (hK _ hkind) inputs
  | handle o shape layout => exact .handle o shape layout
  | bind _ _ ihx ihf => exact .bind ihx ihf

theorem pure (a : α) : Renames s K (Pure.pure a) (Pure.pure a) := .lift (.ok a)

/-- A result first, then a computation. -/
theorem lift_bind {y : Except Fault α} {f f' : α → Lowering β}
    (h : ∀ a, Renames s K (f a) (f' a)) : Renames s K (liftM y >>= f) (liftM y >>= f') :=
  .bind (.lift y) h

/-- What would come after a fault does not matter. -/
theorem fail_bind {site : Site} {cause : Cause} {f f' : α → Lowering β} :
    Renames s K (liftM (site.fail cause : Except Fault α) >>= f)
      (liftM (site.fail cause : Except Fault α) >>= f') :=
  .lift (.error ⟨site, cause⟩)

theorem ite {c : Prop} [Decidable c] {x' y' : Lowering α} (h : Renames s K x y)
    (h' : Renames s K x' y') : Renames s K (if c then x else x') (if c then y else y') := by
  split
  · exact h
  · exact h'

theorem map (h : Renames s K x y) (f : α → β) : Renames s K (f <$> x) (f <$> y) := by
  rw [map_eq_pure_bind, map_eq_pure_bind]
  exact .bind h fun a => .pure (f a)

/-- A layer under a fresh name, and what is done with it. -/
theorem append_bind {base : String} {kind : LayerKind} (hkind : K kind) (inputs : List Outlet)
    {f f' : Nat → Lowering β} (h : ∀ i, Renames s K (f i) (f' i)) :
    Renames s K
      (MonadState.get >>= fun g => Lowering.append (g.freshName (s ++ base)) kind inputs >>= f)
      (MonadState.get >>= fun g => Lowering.append (g.freshName base) kind inputs >>= f') := by
  have happend := Renames.bind (.append base hkind inputs) h
  rwa [bind_assoc, bind_assoc] at happend

theorem add (base : String) {kind : LayerKind} (hkind : K kind) (inputs : List Outlet)
    (shape : Shape) (layout : Layout) :
    Renames s K (Lowering.add (s ++ base) kind inputs shape layout)
      (Lowering.add base kind inputs shape layout) :=
  .append_bind hkind inputs fun i => .handle ⟨i, 0⟩ shape layout

/-- A computation that goes on in the same way from a value or from what is made of it. -/
theorem either {c : Prop} [Decidable c] {a : α} {k k' : α → Lowering β} (h : Renames s K x y)
    (hk : ∀ b, Renames s K (k b) (k' b)) :
    Renames s K (if c then k a else x >>= k) (if c then k' a else y >>= k') := by
  split
  · exact hk a
  · exact .bind h hk

theorem mapM {f f' : α → Lowering β} (h : ∀ a, Renames s K (f a) (f' a)) (l : List α) :
    Renames s K (l.mapM f) (l.mapM f') := by
  induction l with
  | nil => exact .pure _
  | cons a l ih =>
    rw [List.mapM_cons, List.mapM_cons]
    exact .bind (h a) fun b => .bind ih fun bs => .pure _

theorem foldlM {f f' : β → α → Lowering β} (h : ∀ b a, Renames s K (f b a) (f' b a))
    (l : List α) (b : β) : Renames s K (l.foldlM f b) (l.foldlM f' b) := by
  induction l generalizing b with
  | nil => exact .pure b
  | cons a l ih =>
    rw [List.foldlM_cons, List.foldlM_cons]
    exact .bind (h b a) ih

theorem optionMapM {f f' : α → Lowering β} (h : ∀ a, Renames s K (f a) (f' a)) (o : Option α) :
    Renames s K (o.mapM f) (o.mapM f') := by
  cases o with
  | none => exact .pure _
  | some a => exact (h a).map some

end Renames

/-! ### Adapting tensors -/

/-- A layer that slides no window. -/
def LayerKind.Windowless (kind : LayerKind) : Prop := kind.window? = none

namespace Lowering

theorem relayout_renames (name : String) (h : Handle) (target : Layout) :
    Renames s LayerKind.Windowless (relayout (s ++ name) h target) (relayout name h target) := by
  unfold relayout
  split
  · exact .pure h
  · split
    · rw [String.append_assoc]
      exact .add _ (by rfl) _ _ _
    · exact .pure _

theorem stretch_renames (site : Site) (name : String) (h : Handle) (offset : Nat) (out : Shape)
    (target : Layout) :
    Renames s LayerKind.Windowless (stretch site (s ++ name) h offset out target)
      (stretch site name h offset out target) := by
  unfold stretch
  refine .lift_bind fun layout => ?_
  dsimp only
  split
  · exact relayout_renames _ _ _
  · rw [String.append_assoc]
    exact .bind (.add _ (by rfl) _ _ _) fun repeated => relayout_renames _ _ _

theorem fit_renames (site : Site) (name : String) (t : Tensor) (offset : Nat) (out : Shape)
    (target : Layout) :
    Renames s LayerKind.Windowless (fit site (s ++ name) t offset out target)
      (fit site name t offset out target) := by
  unfold fit
  cases t with
  | constant c => exact .lift_bind fun expanded => .lift_bind fun laid => .pure _
  | handle h => exact .bind (stretch_renames _ _ _ _ _ _) fun h' => .pure _

theorem feed_renames (name : String) (c : Constant) (layout : Layout) :
    Renames s LayerKind.Windowless (feed (s ++ name) c layout) (feed name c layout) := by
  unfold feed
  rw [String.append_assoc]
  exact .lift_bind fun laid => .add _ (by rfl) _ _ _

end Lowering

/-! ### Operators -/

/-- The surroundings of an operator with a text in front of the name. -/
def Placement.inScope (s : String) (p : Placement) : Placement := { p with name := s ++ p.name }

namespace Placement

variable (p : Placement)

theorem add_renames {kind : LayerKind} (hkind : K kind) (inputs : List Outlet) (shape : Shape)
    (layout : Layout) :
    Renames s K ((p.inScope s).add kind inputs shape layout) (p.add kind inputs shape layout) :=
  .add p.name hkind inputs shape layout

theorem relayout_renames (h : Handle) (target : Layout) :
    Renames s LayerKind.Windowless ((p.inScope s).relayout h target) (p.relayout h target) :=
  Lowering.relayout_renames p.name h target

theorem handle_renames (i : Nat) :
    Renames s LayerKind.Windowless ((p.inScope s).handle i) (p.handle i) := by
  refine .lift_bind fun t => ?_
  cases t with
  | handle h => exact .pure h
  | constant c => exact .lift_bind fun layout => Lowering.feed_renames _ _ _

theorem handleAs_renames (i : Nat) (layout : Layout) :
    Renames s LayerKind.Windowless ((p.inScope s).handleAs i layout) (p.handleAs i layout) := by
  refine .lift_bind fun t => ?_
  cases t with
  | handle h => exact p.relayout_renames _ _
  | constant c => exact Lowering.feed_renames _ _ _

/-- A layer named after the node, as the last step. -/
theorem output_renames {kind : LayerKind} (hkind : K kind) (inputs : List Outlet) (shape : Shape)
    (layout : Layout) :
    Renames s K (do return Tensor.handle (← (p.inScope s).add kind inputs shape layout))
      (do return Tensor.handle (← p.add kind inputs shape layout)) :=
  .bind (p.add_renames hkind inputs shape layout) fun _ => .pure _

/-- Another layout, as the last step. -/
theorem relaid_renames (h : Handle) (target : Layout) :
    Renames s LayerKind.Windowless (do return Tensor.handle (← (p.inScope s).relayout h target))
      (do return Tensor.handle (← p.relayout h target)) :=
  .bind (p.relayout_renames h target) fun _ => .pure _

end Placement

variable (p : Placement)

theorem inverseOperand_renames (op : Pointwise) (t : Tensor) :
    Renames s LayerKind.Windowless (inverseOperand (p.inScope s) op t) (inverseOperand p op t) := by
  unfold inverseOperand
  split
  · exact .lift_bind fun _ => .lift_bind fun _ => .pure _
  · refine .bind ?_ fun _ => .pure _
    rw [Placement.inScope, String.append_assoc]
    exact .add _ (by rfl) _ _ _
  · exact .lift_bind fun _ => .lift_bind fun _ => .pure _
  · exact .lift _
  · exact .pure _

theorem lowerOperand_renames (op : Pointwise) (mode : Alignment) (out : Shape) (target : Layout)
    (i : Nat) :
    Renames s LayerKind.Windowless (lowerOperand (p.inScope s) op mode out target i)
      (lowerOperand p op mode out target i) := by
  unfold lowerOperand
  refine .lift_bind fun t => .either (inverseOperand_renames p op t) fun t => ?_
  refine .lift_bind fun offset => .bind (Lowering.fit_renames _ _ _ _ _ _) fun fitted => ?_
  cases fitted with
  | handle h => exact .pure _
  | constant c => exact .bind (Lowering.feed_renames _ _ _) fun _ => .pure _

theorem lowerEltwise_renames (op : Pointwise) (mode : Alignment) :
    Renames s LayerKind.Windowless (lowerEltwise (p.inScope s) op mode)
      (lowerEltwise p op mode) := by
  refine .ite (.lift _) ?_
  · refine .lift_bind fun out => .lift_bind fun committed => .lift_bind fun target => ?_
    refine .bind (.mapM (lowerOperand_renames p op mode out target) _) fun outlets => ?_
    exact p.output_renames (by cases op <;> rfl) _ _ _

theorem lowerActivation_renames (function : Activation) (boundsAreInputs : Bool) :
    Renames s LayerKind.Windowless (lowerActivation (p.inScope s) function boundsAreInputs)
      (lowerActivation p function boundsAreInputs) := by
  refine .lift_bind fun low => .lift_bind fun high => .lift_bind fun resolved => ?_
  exact .bind (p.handle_renames 0) fun x => p.output_renames (by rfl) _ _ _

theorem lowerInPlace_renames {kind : LayerKind} (hkind : kind.Windowless) :
    Renames s LayerKind.Windowless (lowerInPlace (p.inScope s) kind) (lowerInPlace p kind) := by
  refine .lift_bind fun out => .lift_bind fun layout => ?_
  exact .bind (p.handleAs_renames 0 layout) fun x => p.output_renames hkind _ _ _

theorem lowerBatchNorm_renames (epsilon : Binary32) :
    Renames s LayerKind.Windowless (lowerBatchNorm (p.inScope s) epsilon)
      (lowerBatchNorm p epsilon) := by
  refine .lift_bind fun scale => .lift_bind fun bias => .lift_bind fun mean => ?_
  refine .lift_bind fun variance => .lift_bind fun coefficients => ?_
  exact lowerInPlace_renames p (by rfl)

theorem lowerSoftmax_renames (axis : Int64) :
    Renames s LayerKind.Windowless (lowerSoftmax (p.inScope s) axis) (lowerSoftmax p axis) := by
  refine .lift_bind fun out => .lift_bind fun slots => .lift_bind fun layout => ?_
  exact .bind (p.handleAs_renames 0 layout) fun x => p.output_renames (by rfl) _ _ _

theorem convSliding_renames (group : Nat) (window : Window) :
    Renames s LayerKind.Windowless (convSliding (p.inScope s) group window)
      (convSliding p group window) := by
  refine .lift_bind fun out => .lift_bind fun layout => .lift_bind fun weights => ?_
  refine .lift_bind fun bias => .bind (.optionMapM (fun _ => .lift _) bias) fun bias' => ?_
  refine .bind (p.handleAs_renames 0 layout) fun x => .lift_bind fun axes => ?_
  exact .lift_bind fun pads => .lift_bind fun kind => .pure _

theorem poolSliding_renames (kind : PoolKind) (window : Window) :
    Renames s LayerKind.Windowless (poolSliding (p.inScope s) kind window)
      (poolSliding p kind window) := by
  refine .lift_bind fun out => .lift_bind fun layout => ?_
  refine .bind (p.handleAs_renames 0 layout) fun x => .lift_bind fun axes => ?_
  exact .lift_bind fun pads => .pure _

theorem lowerGlobalPool_renames (kind : PoolKind) :
    Renames s LayerKind.Windowless (lowerGlobalPool (p.inScope s) kind)
      (lowerGlobalPool p kind) := by
  refine .lift_bind fun out => .lift_bind fun layout => ?_
  exact .bind (p.handleAs_renames 0 layout) fun x => p.output_renames (by rfl) _ _ _

theorem lowerGemm_renames (params : Gemm) :
    Renames s LayerKind.Windowless (lowerGemm (p.inScope s) params) (lowerGemm p params) := by
  refine .lift_bind fun b => .lift_bind fun c => .lift_bind fun a => .lift_bind fun d => ?_
  refine .lift_bind fun scaled => .lift_bind fun unpacked => .lift_bind fun columns => ?_
  refine .lift_bind fun weights => .bind (.optionMapM (fun _ => .lift _) c) fun freeTerm => ?_
  refine .lift_bind fun rows => .bind (p.handleAs_renames 0 rows) fun x => ?_
  exact .lift_bind fun layout => p.output_renames (by rfl) _ _ _

theorem lowerMatMul_renames :
    Renames s LayerKind.Windowless (lowerMatMul (p.inScope s)) (lowerMatMul p) := by
  refine .lift_bind fun b => .ite .fail_bind ?_
  refine .lift_bind fun a => ?_
  dsimp only
  split
  · exact .lift _
  · refine .lift_bind fun layout => .lift_bind fun columns => .lift_bind fun weights => ?_
    refine .lift_bind fun out => .bind (p.handleAs_renames 0 layout) fun x => ?_
    exact p.output_renames (by rfl) _ _ _

theorem lowerLstm_renames (hidden : Nat) (reverse : Bool) :
    Renames s LayerKind.Windowless (lowerLstm (p.inScope s) hidden reverse)
      (lowerLstm p hidden reverse) := by
  refine .lift_bind fun _ => .lift_bind fun _ => .lift_bind fun _ => .lift_bind fun _ => ?_
  refine .lift_bind fun w => .lift_bind fun inputWeights => .lift_bind fun r => ?_
  refine .lift_bind fun recurrentWeights => .lift_bind fun bias => ?_
  refine .bind (.optionMapM (fun _ => .lift _) bias) fun freeTerm => .lift_bind fun layout => ?_
  refine .bind (p.handleAs_renames 0 layout) fun x => .append_bind (by rfl) _ fun layer => ?_
  exact .lift_bind fun out => .lift_bind fun layout => .bind (.handle _ _ _) fun _ => .pure _

theorem lowerReshape_renames :
    Renames s LayerKind.Windowless (lowerReshape (p.inScope s)) (lowerReshape p) := by
  refine .lift_bind fun out => .lift_bind fun committed => .bind (p.handle_renames 0) fun x => ?_
  refine .bind (p.relayout_renames _ _) fun x => .ite (p.relaid_renames _ _) ?_
  exact p.output_renames (by rfl) _ _ _

theorem lowerSqueeze_renames :
    Renames s LayerKind.Windowless (lowerSqueeze (p.inScope s)) (lowerSqueeze p) := by
  refine .lift_bind fun out => .bind (p.handle_renames 0) fun x => .lift_bind fun layout => ?_
  exact .lift_bind fun committed => p.relaid_renames _ _

theorem lowerUnsqueeze_renames :
    Renames s LayerKind.Windowless (lowerUnsqueeze (p.inScope s)) (lowerUnsqueeze p) := by
  refine .lift_bind fun out => .lift_bind fun committed => .bind (p.handle_renames 0) fun x => ?_
  dsimp only
  split
  · exact .lift _
  · exact .lift_bind fun layout => p.relaid_renames _ _

theorem lowerPart_renames (target : Layout) (i : Nat) :
    Renames s LayerKind.Windowless (lowerPart (p.inScope s) target i) (lowerPart p target i) := by
  refine .lift_bind fun t => ?_
  cases t with
  | handle h => exact .bind (p.relayout_renames _ _) fun _ => .pure _
  | constant c => exact .bind (Lowering.feed_renames _ _ _) fun _ => .pure _

theorem lowerConcat_renames (axis : Int64) :
    Renames s LayerKind.Windowless (lowerConcat (p.inScope s) axis) (lowerConcat p axis) := by
  refine .ite (.lift _) ?_
  refine .lift_bind fun out => .lift_bind fun target => .lift_bind fun a => ?_
  refine .bind (.mapM (lowerPart_renames p target) _) fun outlets => ?_
  exact p.output_renames (by rfl) _ _ _

theorem lowerSlices_renames (layout : Layout) (ranges : List AxisRange) (current : Handle) :
    Renames s LayerKind.Windowless (lowerSlices (p.inScope s) layout current ranges)
      (lowerSlices p layout current ranges) := by
  induction ranges generalizing current with
  | nil => exact .pure current
  | cons range rest ih =>
    unfold lowerSlices
    refine .ite (ih current) (.ite (.lift _) ?_)
    exact .bind (p.add_renames (by rfl) _ _ _) ih

theorem lowerSlice_renames (bounds : Option SliceBounds) :
    Renames s LayerKind.Windowless (lowerSlice (p.inScope s) bounds) (lowerSlice p bounds) := by
  refine .lift_bind fun layout => .bind (p.handle_renames 0) fun x => ?_
  refine .bind (p.relayout_renames _ _) fun current => .lift_bind fun slices => ?_
  exact .bind (lowerSlices_renames p layout slices current) fun _ => .pure _

theorem meanSliding_renames (x : Handle) (reduced : List Nat) :
    Renames s LayerKind.Windowless (meanSliding (p.inScope s) x reduced)
      (meanSliding p x reduced) := by
  refine .ite .fail_bind ?_
  refine .lift_bind fun layout => .bind (p.relayout_renames _ _) fun x => .pure _

/-- The layer of a mean over given axes with all that it needs. -/
def reduceSliding (p : Placement) (axes : Option (List Int64)) : Lowering Sliding := do
  let x ← p.handle 0
  let reduced ← reducedAxes p.header axes x.shape.rank
  meanSliding p x reduced

theorem reduceSliding_renames (axes : Option (List Int64)) :
    Renames s LayerKind.Windowless (reduceSliding (p.inScope s) axes) (reduceSliding p axes) := by
  refine .bind (p.handle_renames 0) fun x => .lift_bind fun reduced => ?_
  exact meanSliding_renames p x reduced

/-- A mean is pooled, and what comes out is brought to its layout. -/
theorem lowerReduceMean_renames (axes : Option (List Int64)) (keepDims : Bool) :
    Renames s (fun _ => True) (lowerReduceMean (p.inScope s) axes keepDims)
      (lowerReduceMean p axes keepDims) := by
  refine .lift_bind fun out => .lift_bind fun committed => ?_
  refine .bind ((p.handle_renames 0).mono fun _ _ => trivial) fun x => .lift_bind fun reduced => ?_
  refine .bind ((meanSliding_renames p x reduced).mono fun _ _ => trivial) fun pooling => ?_
  refine .bind (p.add_renames trivial _ _ _) fun pooled => .ite ?_ ?_
  · exact (p.relaid_renames _ _).mono fun _ _ => trivial
  · exact .lift_bind fun slots => (p.relaid_renames _ _).mono fun _ _ => trivial

/-! ### All operators -/

namespace Operator

/-- The layer that an operator slides over its first input, if it is one of those that do. -/
def sliding? (op : Operator) (p : Placement) : Option (Lowering Sliding) :=
  match op.action with
  | .conv group window => some (convSliding p group window)
  | .pool kind window => some (poolSliding p kind window)
  | .reduceMean axes _ => some (reduceSliding p axes)
  | _ => none

/-- The operators that slide no layer over their input append windowless layers only. -/
theorem lower_windowless (op : Operator) (h : op.sliding? p = none) :
    Renames s LayerKind.Windowless (op.lower (p.inScope s)) (op.lower p) := by
  unfold sliding? at h
  unfold lower
  cases haction : op.action with
  | conv | pool | reduceMean =>
    rw [haction] at h
    cases h
  | identity => exact .lift _
  | eltwise e mode => exact lowerEltwise_renames p e mode
  | activation function boundsAreInputs => exact lowerActivation_renames p function boundsAreInputs
  | globalPool kind => exact lowerGlobalPool_renames p kind
  | batchNorm epsilon => exact lowerBatchNorm_renames p epsilon
  | gemm params => exact lowerGemm_renames p params
  | matMul => exact lowerMatMul_renames p
  | softmax axis => exact lowerSoftmax_renames p axis
  | lrn size alpha beta bias => exact lowerInPlace_renames p (by rfl)
  | lstm hidden reverse => exact lowerLstm_renames p hidden reverse
  | flatten | reshape => exact lowerReshape_renames p
  | squeeze => exact lowerSqueeze_renames p
  | unsqueeze => exact lowerUnsqueeze_renames p
  | concat axis => exact lowerConcat_renames p axis
  | gather => exact .bind (.map (.lift _) _) fun _ => .bind (.map (.lift _) _) fun _ => .lift _
  | shapeOf | constantOfShape | constant => exact .lift _
  | slice bounds => exact lowerSlice_renames p bounds

/-- **Every operator appends its layers under names made from its own.** -/
theorem lower_renames (op : Operator) :
    Renames s (fun _ => True) (op.lower (p.inScope s)) (op.lower p) := by
  cases hsliding : op.sliding? p with
  | none => exact (op.lower_windowless p hsliding).mono fun _ _ => trivial
  | some x =>
    unfold sliding? at hsliding
    unfold lower
    split at hsliding
    · rename_i group window haction
      rw [haction]
      refine .bind ((convSliding_renames p group window).mono fun _ _ => trivial) fun c => ?_
      exact p.output_renames trivial _ _ _
    · rename_i kind window haction
      rw [haction]
      refine .bind ((poolSliding_renames p kind window).mono fun _ _ => trivial) fun c => ?_
      exact p.output_renames trivial _ _ _
    · rename_i axes keepDims haction
      rw [haction]
      exact lowerReduceMean_renames p axes keepDims
    · cases hsliding

end Operator

end Lamina
