import Mathlib
import Lamina.Network.Plan
import Lamina.Operator.Lower
import Lamina.Proofs.Adapting
import Lamina.Proofs.FoldOutcomes
import Lamina.Proofs.Lowering
import Lamina.Proofs.Planning
import Lamina.Proofs.Wishes

/-!
# Operands have a place in the common shape

The common shape is found by placing each operand in the shape of those before it. The later phases
place each operand in the common shape itself. Here the two are shown to agree: an operand that was
accepted once has a place in the result (`Broadcast.Placed`), and keeps it while the result grows.

Ranks only grow when shapes are aligned at their last axes, where the place of an operand moves
along with the end. In the other modes the result is the shape of the first operand, and the later
phases ask for the same places again.

**Theorem** (`Operator.offsets_found`): in the common shape the offset of every operand is found,
and from there the operand stretches to that shape. None of the later phases fails for want of a
place (`Fault.Elsewhere`): not folding, not the propagation of roles, not lowering.
-/

namespace Lamina

/-! ### Places -/

namespace Broadcast

/-- An operand has a place in a result: its offset is found, and it stretches to the result from
there. -/
def Placed (mode : Alignment) (shape out : Shape) : Prop :=
  ∃ k, (∀ site, offset site mode shape.rank out.rank = .ok k) ∧ Embeds shape k out

variable {site : Site} {mode : Alignment} {shape out : Shape}

/-- What is aligned in a result has a place there, if its offset is found once. -/
theorem Aligned.placed {k : Nat} (h : Aligned mode shape out)
    (hk : offset site mode shape.rank out.rank = .ok k) : Placed mode shape out :=
  ⟨k, offset_site hk, h.2 site k hk⟩

theorem Aligned.placed_trailing (h : Aligned .trailing shape out) : Placed .trailing shape out := by
  have hk : offset ⟨"", ""⟩ .trailing shape.rank out.rank = .ok (out.rank - shape.rank) :=
    offset_trailing h.1
  exact h.placed hk

theorem Placed.aligned (h : Placed mode shape out) : Aligned mode shape out := by
  obtain ⟨k, hk, hembeds⟩ := h
  refine ⟨(Nat.le_add_left _ _).trans hembeds.1, fun site k' hk' => ?_⟩
  obtain rfl := Except.ok.inj ((hk site).symm.trans hk')
  exact hembeds

theorem placed_self (mode : Alignment) (shape : Shape) : Placed mode shape shape :=
  (aligned_self mode shape).placed (offset_self ⟨"", ""⟩ mode shape.rank)

/-- **One step:** a new operand gets a place, and those before it keep theirs. -/
theorem shapes_places {a b out : Shape} (h : shapes site mode a b = .ok out) :
    Placed mode b out ∧ ∀ s, Placed mode s a → Placed mode s out := by
  obtain ⟨hb, hkeeps⟩ := (shapes_yields site mode a b).value h
  cases mode with
  | trailing => exact ⟨hb.placed_trailing, fun s hs => (hkeeps s hs.aligned).placed_trailing⟩
  | exact =>
    unfold shapes at h
    dsimp only at h
    split at h
    · rename_i heq
      obtain rfl := Except.ok.inj h
      exact ⟨heq ▸ placed_self _ _, fun _ hs => hs⟩
    · cases h
  | anchored axis =>
    -- the result is the first shape, and its offset was asked for
    unfold shapes at h
    dsimp only at h
    split at h
    · cases h
    · rename_i start hstart
      split at h
      · obtain rfl := Except.ok.inj h
        exact ⟨hb.placed hstart, fun _ hs => hs⟩
      · cases h

end Broadcast

/-- **The whole run:** every operand has a place in the common shape. -/
theorem commonShape_places {h : Header} {mode : Alignment} {shapes : List Shape} {out : Shape}
    (hout : commonShape h mode shapes = .ok out) : ∀ s ∈ shapes, Broadcast.Placed mode s out := by
  cases shapes with
  | nil => cases hout
  | cons first rest =>
    refine Yields.value (P := fun _ => True) (Yields.foldlM_passed
      (I := fun passed acc => ∀ s ∈ first :: passed, Broadcast.Placed mode s acc) ?_ ?_) hout
    · intro passed b _ _ acc hacc
      refine (Yields.of_faults fun _ _ => trivial).imp fun out hout s hs => ?_
      obtain ⟨hb, hkeeps⟩ := Broadcast.shapes_places hout
      rw [← List.cons_append] at hs
      rcases List.mem_append.1 hs with hs | hs
      · exact hkeeps s (hacc s hs)
      · exact List.mem_singleton.1 hs ▸ hb
    · simpa using Broadcast.placed_self mode first

/-! ### Faults about something else -/

/-- Whether a cause is that an operand has no place in a result. -/
def Cause.isOffset : Cause → Bool
  | .broadcast (.rank ..) | .broadcast (.axis ..) => true
  | _ => false

/-- A fault that is not about the place of an operand. -/
def Fault.Elsewhere (f : Fault) : Prop := f.cause.isOffset = false

variable {α : Type} {site : Site} {g g' : LayerGraph} {ops : Operands} {h : Header}
  {mode : Alignment} {out : Shape}

/-- The offset of an operand that has a place. -/
theorem Broadcast.Placed.offset_yields {P : Fault → Prop} {shape : Shape}
    (hplaced : Broadcast.Placed mode shape out) (site : Site) :
    Yields P (Broadcast.offset site mode shape.rank out.rank)
      fun k => Broadcast.Embeds shape k out := by
  obtain ⟨k, hk, hembeds⟩ := hplaced
  exact .of_eq_ok (hk site) hembeds

theorem Kernel.binary_elsewhere (op : BinaryOp) (a b : Buffer) :
    Yields Fault.Elsewhere (Kernel.binary op a b) fun _ => True := by
  unfold Kernel.binary
  dsimp only
  split
  · exact .fail rfl
  · split
    · exact .ok trivial
    · split
      · exact .ok trivial
      · exact .fail rfl
    · exact .fail rfl

theorem Kernel.unary_elsewhere (op : UnaryOp) (b : Buffer) :
    Yields Fault.Elsewhere (Kernel.unary op b) fun out => out.size = b.size := by
  unfold Kernel.unary
  split
  · exact .ok (by simp [Buffer.size])
  · split
    · exact .ok (by simp [Buffer.size])
    · split
      · rename_i hsome
        exact .ok (Kernel.size_mapM_some hsome)
      · exact .fail rfl
    · exact .fail rfl
    · exact .fail rfl

theorem Constant.ofBuffer_elsewhere (shape : Shape) (data : Buffer) :
    Yields Fault.Elsewhere (Constant.ofBuffer shape data) fun _ => True := by
  unfold Constant.ofBuffer Constant.ofParts
  split
  · split
    · exact .ok trivial
    · exact .fail rfl
  · exact .fail rfl

/-! ### Folding -/

theorem Operands.Consistent.constant_elsewhere (hops : ops.Consistent) (i : Nat) :
    Yields Fault.Elsewhere (ops.constant h i) fun c => c.shape ∈ ops.shapes := by
  unfold Operands.constant Operands.get
  split
  · rename_i op hop
    unfold Operands.constantOf
    refine Yields.bind (Q := (op = ·)) (.ok rfl) ?_
    rintro _ rfl
    split
    · rename_i c hc
      exact .ok (hops i op hop c hc ▸ Operands.mem_shapes hop)
    · exact .fail rfl
  · exact .fail rfl

theorem combineOperand_elsewhere (op : BinaryOp) (acc : Option Constant) {c : Constant}
    (hplaced : Broadcast.Placed mode c.shape out) :
    Yields Fault.Elsewhere (combineOperand h op mode out acc c) fun _ => True := by
  unfold combineOperand expandOperand
  refine ((hplaced.offset_yields h.site).bind fun k hembeds =>
    Broadcast.constant_yields hembeds).bind fun expanded _ => ?_
  split
  · exact .pure trivial
  · split
    · exact .fail rfl
    · refine (Kernel.binary_elsewhere _ _ _).bind fun data _ => ?_
      exact (Constant.ofBuffer_elsewhere out data).bind fun _ _ => .pure trivial

/-- Folding does not fail for want of a place. -/
theorem foldEltwise_elsewhere (hops : ops.Consistent) (op : Pointwise)
    (hout : commonShape h mode ops.shapes = .ok out) :
    Yields Fault.Elsewhere (foldEltwise h op mode ops) fun _ => True := by
  unfold foldEltwise
  refine Yields.bind (Q := (out = ·)) (.of_eq_ok hout rfl) ?_
  rintro _ rfl
  refine Yields.bind (Q := fun _ => True) ?_ fun result _ => ?_
  · refine Yields.foldlM (I := fun _ => True) (fun acc i _ _ => ?_) trivial
    refine (hops.constant_elsewhere i).bind fun c hc => ?_
    exact combineOperand_elsewhere _ _ (commonShape_places hout _ hc)
  · split
    · exact .pure trivial
    · exact .fail rfl

/-! ### Propagation of roles -/

namespace RoleM

variable {t : Roles} {v : Wire}

theorem row_elsewhere (t : Roles) (v : Wire) :
    Yields Fault.Elsewhere (t.row v) fun _ => True := by
  unfold Roles.row
  split
  · exact .ok trivial
  · exact .fail rfl

theorem shape_elsewhere (t : Roles) (v : Wire) :
    Yields Fault.Elsewhere (t.shape v) fun _ => True :=
  (row_elsewhere t v).map fun _ _ => trivial

theorem pin_elsewhere (axis : Nat) (slot : Slot) :
    Runs (fun f _ => f.Elsewhere) t (pin site v axis slot) fun _ _ => True := by
  refine Runs.get_bind (Runs.lift_bind (row_elsewhere t v) fun r _ => ?_)
  split
  · exact .pure trivial
  · split
    · exact .lift (.fail rfl)
    · split
      · exact .pure trivial
      · exact .lift (.fail rfl)
    · split
      · exact .lift (.fail rfl)
      · exact (Runs.set (Q := fun _ _ => True) trivial).bind fun _ _ _ => .pure trivial

theorem passRole_elsewhere (source target : Axis) :
    Runs (fun f _ => f.Elsewhere) t (passRole site source target) fun _ _ => True := by
  refine Runs.get_bind ?_
  split
  · exact (pin_elsewhere _ _).map fun _ _ _ => trivial
  · exact .pure trivial

theorem linkAxes_elsewhere (a b : Axis) :
    Runs (fun f _ => f.Elsewhere) t (linkAxes site a b) fun _ _ => True := by
  refine Runs.get_bind ?_
  split
  · exact .pure trivial
  · refine (Runs.set (Q := fun _ _ => True) trivial).bind fun _ _ _ => ?_
    exact (passRole_elsewhere a b).bind fun _ _ _ => passRole_elsewhere b a

theorem linkMatching_elsewhere (input : Wire) (offset : Nat) (output : Wire) :
    Runs (fun f _ => f.Elsewhere) t (linkMatching site input offset output) fun _ _ => True := by
  refine Runs.get_bind ?_
  dsimp only
  split
  · exact .pure trivial
  · refine Runs.lift_bind (shape_elsewhere t input) fun inner _ => ?_
    refine Runs.lift_bind (shape_elsewhere t output) fun outer _ => ?_
    refine Runs.forM (I := fun _ => True) (fun axis _ t _ => ?_) trivial
    split
    · exact linkAxes_elsewhere _ _
    · exact .pure trivial

end RoleM

variable {facts : Facts} {t : Roles} {w : Wiring}

/-- What is known about a bound input is one of the operands. -/
theorem find?_of_mem_inputs {inputs : List (Option Wire)} (hops : facts.Operands inputs ops)
    {v : Wire} (hv : some v ∈ inputs) :
    ∃ op, facts.find? v = some op ∧ op.shape ∈ ops.shapes := by
  obtain ⟨o, ho, hrel⟩ := forall₂_mem_left hops hv
  cases hrel with
  | some hop => exact ⟨_, hop, List.mem_map.2 ⟨_, List.mem_filterMap.2 ⟨_, ho, rfl⟩, rfl⟩⟩

/-- The propagation of roles does not fail for want of a place. -/
theorem propagateEltwise_elsewhere (ht : t.Describes facts)
    (hops : facts.Operands w.inputs ops) {v : Wire} (hv : w.outputs[0]? = some v)
    {result : Operand} (hresult : facts.find? v = some result)
    (hout : commonShape h mode ops.shapes = .ok result.shape) :
    Runs (fun f _ => f.Elsewhere) t (propagateEltwise h mode w) fun _ _ => True := by
  have houtput : w.output 0 = .ok v := by
    unfold Wiring.output
    rw [hv]
  refine Runs.lift_bind (Q := (v = ·)) (.of_eq_ok houtput rfl) ?_
  rintro _ rfl
  refine Runs.get_bind (Runs.lift_bind (ht.shape_yields hresult) ?_)
  rintro _ rfl
  have hw : w.Known facts := by
    refine ⟨fun input hinput => ?_, v, hv, result, hresult⟩
    obtain ⟨op, hop, -⟩ := find?_of_mem_inputs hops hinput
    exact ⟨op, hop⟩
  -- linking keeps the shapes of the values, so every input finds those it was inferred from
  refine (Runs.forM (I := fun t => t.Describes facts) (fun input hinput t ht => ?_) ht).imp
    fun _ _ _ => trivial
  obtain ⟨op, hop, hmem⟩ := find?_of_mem_inputs hops (by simpa using hinput)
  refine Runs.get_bind (Runs.lift_bind (ht.shape_yields hop) ?_)
  rintro _ rfl
  refine Runs.lift_bind ((commonShape_places hout _ hmem).offset_yields h.site) fun k _ => ?_
  have hkeeps : RoleM.Keeps facts h.site (RoleM.linkMatching h.site input k v) fun _ => True :=
    RoleM.Plans.keeps (fun _ => RoleM.linkMatching_exactly input k v) hw
  refine ((RoleM.linkMatching_elsewhere input k v).and (hkeeps t ht)).mono (fun _ _ hf => hf.1) ?_
  rintro _ _ ⟨-, ht', -⟩
  exact ht'

/-! ### Lowering -/

namespace Lowering

variable {P : Fault → LayerGraph → Prop} {target : Layout}

/-- A valid tensor is brought to every shape that it stretches to. -/
theorem fit_runs {x : Tensor} (hx : x.Valid g) {offset : Nat}
    (hembeds : Broadcast.Embeds x.shape offset out) (htarget : target.rank = out.rank)
    (name : String) :
    Runs P g (fit site name x offset out target) fun y _ => y.shape = out := by
  cases x with
  | constant c =>
    obtain ⟨e, c', he, hc', hrun⟩ := fit_constant site name g hembeds htarget
    have hshape := (Broadcast.constant_yields (P := fun _ => False) hembeds).value he
    have hshape' := (Constant.elementAt_toLayout hc').1
    unfold Runs
    rw [hrun]
    exact hshape'.trans hshape
  | handle x =>
    have hspace : offset + x.layout.rank ≤ out.rank := (Handle.Valid.rank hx) ▸ hembeds.1
    have htotal : out.rank ≤ Slot.total := htarget ▸ target.rank_le_total
    obtain ⟨padded, hpadded, hrank, -⟩ := Broadcast.embedLayout_eq_ok site target hspace htotal
    refine ((stretch_chain (Handle.Valid.outlet hx) hpadded hrank htarget name).mono
      (fun _ _ hf => hf.elim) fun _ _ hh => hh.1).bind fun y _ hy => ?_
    exact Runs.pure hy

theorem feed_runs {c : Constant} (htarget : target.rank = c.shape.rank) (name : String) :
    Runs P g (feed name c target) fun _ _ => True := by
  refine Runs.lift_bind (Constant.toLayout_yields (Layout.fits_of_rank htarget)) ?_
  intro laid hlaid
  refine (add_runs (by simp) rfl ?_ _).imp fun _ _ _ => trivial
  rw [hlaid.1]
  exact Layout.fits_of_rank htarget

end Lowering

variable {p : Placement}

theorem Placement.Ready.input_elsewhere (hp : p.Ready g ops out) (i : Nat) :
    Yields Fault.Elsewhere (p.input i) fun x => x.Valid g ∧ x.shape ∈ ops.shapes := by
  unfold Placement.input
  split
  · rename_i x hx
    obtain ⟨op, hop, hstands⟩ := hp.bound?_of_input? hx
    exact .ok ⟨hstands.valid, hstands.shape ▸ Operands.mem_shapes hop⟩
  · exact .fail rfl

theorem inverseOperand_elsewhere (p : Placement) (op : Pointwise) {x : Tensor} (hx : x.Valid g) :
    Runs (fun f _ => f.Elsewhere) g (inverseOperand p op x) fun _ _ => True := by
  unfold inverseOperand
  split
  · rename_i c
    refine Runs.lift_bind (Kernel.unary_elsewhere _ c.data) fun data hdata => ?_
    refine Runs.lift_bind (Constant.ofParts_yields c.layout_fits (hdata.trans c.size_eq))
      fun c' _ => ?_
    exact .pure trivial
  · rename_i x
    refine (Lowering.add_runs (by simpa using Handle.Valid.outlet hx) rfl
      (Layout.fits_of_rank (Handle.Valid.rank hx)) _).bind fun _ _ _ => ?_
    exact .pure trivial
  · rename_i c
    refine Runs.lift_bind (Kernel.unary_elsewhere _ _) fun data hdata => ?_
    refine Runs.lift_bind (Constant.ofParts_yields (c.cast .float).layout_fits
      (hdata.trans (c.cast .float).size_eq)) fun c' _ => ?_
    exact .pure trivial
  · exact .lift (.fail rfl)
  · exact .pure trivial

/-- What is known of the faults of a computation goes together with what is known of its outcome. -/
theorem Runs.and_lowers {P : Fault → LayerGraph → Prop} {x : Lowering α} {S : α → LayerGraph → Prop}
    {Q R : α → LayerGraph → Prop} (h : Runs P g x S) (hx : Lowers site g x Q) (hg : g.Sound)
    (hR : ∀ a g', g'.Sound → g.Grows g' → Q a g' → R a g') : Runs P g x R := by
  refine (h.and (hx hg)).mono (fun _ _ hf => hf.1) ?_
  rintro a g' ⟨-, hg', hgrows, ha⟩
  exact hR a g' hg' hgrows ha

/-- A computation that goes on in the same way from a value or from what is made of it. -/
theorem Runs.either {β σ : Type} {P : Fault → σ → Prop} {S : α → σ → Prop} {R : β → σ → Prop}
    {s : σ} {c : Prop} [Decidable c] {a : α} {y : ExceptT Fault (StateM σ) α}
    {k : α → ExceptT Fault (StateM σ) β} (ha : S a s) (hy : Runs P s y S)
    (hk : ∀ b t, S b t → Runs P t (k b) R) : Runs P s (if c then k a else y >>= k) R := by
  split
  · exact hk a s ha
  · exact hy.bind hk

theorem lowerOperand_elsewhere (hp : p.Ready g ops out) (hg : g.Sound) (op : Pointwise)
    {target : Layout} (htarget : target.rank = out.rank)
    (hout : commonShape p.header mode ops.shapes = .ok out) (i : Nat) :
    Runs (fun f _ => f.Elsewhere) g (lowerOperand p op mode out target i) fun _ _ => True := by
  unfold lowerOperand
  refine Runs.lift_bind (hp.input_elsewhere i) ?_
  rintro x ⟨hx, hmem⟩
  -- inverted or not, the operand keeps the shape for which there is a place
  refine Runs.either (S := Tensor.HasShape x.shape) ⟨hx, rfl⟩ ?_ ?_
  · exact (inverseOperand_elsewhere p op hx).and_lowers (inverseOperand_lowers p op hx) hg
      fun _ _ _ _ hy => hy
  rintro y g' ⟨hy, hshape⟩
  have hplaced := commonShape_places hout _ (hshape ▸ hmem)
  refine Runs.lift_bind (hplaced.offset_yields p.header.site) fun k hembeds => ?_
  refine (Lowering.fit_runs hy hembeds htarget p.name).bind fun z g'' hz => ?_
  cases z with
  | handle z => exact .pure trivial
  | constant c =>
    have hrank : target.rank = (c.cast .float).shape.rank := by
      rw [c.shape_cast, htarget]
      exact congrArg Shape.rank hz.symm
    exact (Lowering.feed_runs hrank p.name).bind fun _ _ _ => .pure trivial

theorem eltwiseLayout_elsewhere (hp : p.Ready g ops out)
    (hout : commonShape p.header mode ops.shapes = .ok out) {committed : Layout}
    (hcommitted : committed.rank = out.rank) :
    Yields Fault.Elsewhere (eltwiseLayout p mode out committed) fun l => l.rank = out.rank := by
  unfold eltwiseLayout
  dsimp only
  split
  · exact .ok hcommitted
  · rename_i x hfirst
    obtain ⟨o, ho, heq⟩ := List.exists_of_findSome?_eq_some hfirst
    obtain ⟨hx, hmem⟩ : x.Valid g ∧ x.shape ∈ ops.shapes := by
      split at heq
      · obtain rfl := Option.some.inj heq
        obtain ⟨op, hop, hrel⟩ := forall₂_mem_left hp.inputs.flip ho
        cases hrel with
        | some hstands =>
          refine ⟨hstands.valid, List.mem_map.2 ⟨_, List.mem_filterMap.2 ⟨_, hop, rfl⟩, ?_⟩⟩
          exact hstands.shape.symm
      · cases heq
    refine ((commonShape_places hout _ hmem).offset_yields p.header.site).bind fun k hembeds => ?_
    have hspace : k + x.layout.rank ≤ out.rank := hx.rank ▸ hembeds.1
    have htotal : out.rank ≤ Slot.total := hcommitted ▸ committed.rank_le_total
    obtain ⟨l, hl, hrank, -⟩ :=
      Broadcast.embedLayout_eq_ok p.header.site committed hspace htotal
    exact .of_eq_ok hl hrank

/-- Lowering does not fail for want of a place. -/
theorem lowerEltwise_elsewhere (hp : p.Ready g ops out) (hg : g.Sound) (op : Pointwise)
    (hout : commonShape p.header mode ops.shapes = .ok out) :
    Runs (fun f _ => f.Elsewhere) g (lowerEltwise p op mode) fun _ _ => True := by
  unfold lowerEltwise
  split
  · exact .lift ((hp.input_elsewhere 0).imp fun _ _ => trivial)
  refine Runs.lift_bind hp.shape_yields ?_
  rintro _ rfl
  refine Runs.lift_bind hp.layout_yields fun committed hcommitted => ?_
  refine Runs.lift_bind (eltwiseLayout_elsewhere hp hout hcommitted) fun target htarget => ?_
  have haligned := (commonShape_yields p.header mode ops.shapes).value hout
  have hlowers := Lowers.mapM (T := fun o g' => g'.HasOutlet o) (l := List.range p.inputs.length)
    (fun _ _ _ ho hgrows => ho.grows hgrows) (fun i _ g' hgrows =>
      lowerOperand_lowers (hp.grows hgrows) op haligned htarget i)
  have helsewhere := Runs.mapM (P := fun f _ => f.Elsewhere) (l := List.range p.inputs.length)
    (I := fun g' => g'.Sound ∧ g.Grows g') (R := fun _ _ => True) (fun i _ g' hg' =>
      (lowerOperand_elsewhere (hp.grows hg'.2) hg'.1 op htarget hout i).and_lowers
        (lowerOperand_lowers (hp.grows hg'.2) op haligned htarget i) hg'.1
        fun _ _ hsound hgrows _ => ⟨⟨hsound, hg'.2.trans hgrows⟩, trivial⟩) ⟨hg, .refl⟩
  refine (helsewhere.and_lowers hlowers hg fun _ _ _ _ houtlets => houtlets).bind
    fun outlets g' houtlets => ?_
  have hkind : (eltwiseKind op).outputCount = 1 := by cases op <;> rfl
  refine (Lowering.add_runs houtlets hkind (Layout.fits_of_rank htarget) p.name).bind
    fun _ _ _ => ?_
  exact .pure trivial

/-! ### Elementwise operators -/

/-- **The offset of every operand is found** in the common shape, and from there the operand
stretches to that shape. So no later phase fails for want of a place. -/
theorem Operator.offsets_found {op : Operator} {e : Pointwise} {mode : Alignment} {ops : Operands}
    {out : Shape} (haction : op.action = .eltwise e mode)
    (hout : commonShape op.header mode ops.shapes = .ok out) :
    (∀ s ∈ ops.shapes, ∃ k, Broadcast.offset op.header.site mode s.rank out.rank = .ok k ∧
      k + s.rank ≤ out.rank ∧ (Broadcast.embedShape s k out.rank).rank = out.rank ∧
      (∀ a < out.rank, (Broadcast.embedShape s k out.rank).extent a = 1 ∨
        (Broadcast.embedShape s k out.rank).extent a = out.extent a) ∧
      ∀ c : Constant, c.shape = s → ∃ c', Broadcast.constant c k out = .ok c' ∧ c'.shape = out) ∧
    (ops.Consistent → ∀ f, op.foldOutputs ops = .error f → f.Elsewhere) ∧
    (∀ facts t w v result f t', Roles.Describes t facts → facts.Operands w.inputs ops →
      w.outputs[0]? = some v → facts.find? v = some result → result.shape = out →
        (op.propagate w).run.run t = (.error f, t') → f.Elsewhere) ∧
    (∀ p g f g', p.header = op.header → p.Ready g ops out → g.Sound →
      (op.lower p).run.run g = (.error f, g') → f.Elsewhere) := by
  refine ⟨fun s hs => ?_, fun hops f hf => ?_, ?_, ?_⟩
  · obtain ⟨k, hk, hembeds⟩ := commonShape_places hout s hs
    have hrank := Broadcast.rank_embedShape hembeds.1
    refine ⟨k, hk _, hembeds.1, hrank, fun a ha => ?_, ?_⟩
    · have ha' : a < (Broadcast.embedShape s k out.rank).dims.length := ha.trans_eq hrank.symm
      have hextent := hembeds.2.get ha' ha
      rw [Shape.extent, Shape.extent, List.getD_eq_getElem _ _ ha', List.getD_eq_getElem _ _ ha]
      exact hextent.symm
    · rintro c rfl
      exact (Broadcast.constant_yields hembeds).exists_ok
  · have hfold : Yields Fault.Elsewhere (op.foldOutputs ops) fun _ => True := by
      unfold Operator.foldOutputs Operator.fold Operator.foldBy
      rw [haction]
      exact (foldEltwise_elsewhere hops e hout).bind fun _ _ => .pure trivial
    exact hfold.fault hf
  · rintro facts t w v result f t' ht hops hv hresult rfl hrun
    unfold Operator.propagate at hrun
    rw [haction] at hrun
    exact (propagateEltwise_elsewhere ht hops hv hresult hout).fault hrun
  · intro p g f g' hheader hp hg hrun
    unfold Operator.lower at hrun
    rw [haction] at hrun
    exact (lowerEltwise_elsewhere hp hg e (hheader ▸ hout)).fault hrun

/-- A matrix anchored at the third axis from the end of a tensor, where it fills the axes one and
two. -/
theorem Operator.offsets_found_of_anchored :
    commonShape ⟨"Mul", "gain", 6⟩ (.anchored (some (-3)))
        (Operands.shapes [some ⟨⟨[2, 3, 4, 5]⟩, none⟩, some ⟨⟨[3, 1]⟩, none⟩]) =
      .ok ⟨[2, 3, 4, 5]⟩ ∧
    ∃ k, Broadcast.offset ⟨"Mul", "gain"⟩ (.anchored (some (-3))) 2 4 = .ok k ∧ k + 2 ≤ 4 ∧
      ∀ a < 4, (Broadcast.embedShape ⟨[3, 1]⟩ k 4).extent a = 1 ∨
        (Broadcast.embedShape ⟨[3, 1]⟩ k 4).extent a = Shape.extent ⟨[2, 3, 4, 5]⟩ a := by
  have hout : commonShape ⟨"Mul", "gain", 6⟩ (.anchored (some (-3)))
      (Operands.shapes [some ⟨⟨[2, 3, 4, 5]⟩, none⟩, some ⟨⟨[3, 1]⟩, none⟩]) =
        .ok ⟨[2, 3, 4, 5]⟩ := by rfl
  obtain ⟨hplaces, -⟩ :=
    @Operator.offsets_found ⟨⟨"Mul", "gain", 6⟩, .eltwise .mul (.anchored (some (-3)))⟩ _ _ _ _
      rfl hout
  obtain ⟨k, hk, hspace, -, hextents, -⟩ := hplaces ⟨[3, 1]⟩ (by simp [Operands.shapes])
  exact ⟨hout, k, hk, hspace, hextents⟩

end Lamina
