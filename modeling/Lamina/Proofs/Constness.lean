import Mathlib
import Lamina.Proofs.Compilation
import Lamina.Proofs.Solutions

/-!
# Which values are constant, before and after lowering

Inference decides which values are constant, and lowering binds every value to a constant or to the
output of a layer. The two decide by different rules: inference looks at all inputs of a node,
lowering at what the node makes of them.

**Theorem** (`Model.constness_spec`): after any number of vertices, the tensors bound so far are
constant exactly where inference has found a constant, and are then that constant, iff no vertex so
far is a node that passes on a known constant without having been folded (`Plan.Drifts`). The same
condition decides whether all values of the vertices that were lowered come from layers.

Only the identity can drift. It passes on its first input whatever the others are, so it is not
folded if another input is supplied at run time (`Model.unfoldedDropout`). The other operators that
pass on an input do so only if it is the only one (`Action.passesOn`), and all others append a layer
in the end (`Operator.lower_endsInHandle`).
-/

namespace Lamina

variable {g : LayerGraph} {q : Placement}

/-! ### Operators that append a layer -/

namespace Lowering

/-- If a computation succeeds, its result comes from a layer. -/
def EndsInHandle (x : Lowering Tensor) : Prop :=
  ∀ g, Runs (fun _ _ => True) g x fun t _ => t.constant? = none

namespace EndsInHandle

theorem handle (h : Handle) : EndsInHandle (pure (.handle h)) := fun _ => Runs.pure rfl

theorem fail (site : Site) (cause : Cause) : EndsInHandle (liftM (site.fail cause)) :=
  fun _ => Runs.lift trivial

theorem fail_bind {α : Type} (site : Site) (cause : Cause) (f : α → Lowering Tensor) :
    EndsInHandle (liftM (site.fail cause) >>= f) :=
  fun _ => Runs.lift_bind (Q := fun _ => False) trivial fun _ h => h.elim

/-- Only the last step matters. -/
theorem bind {α : Type} {x : Lowering α} {f : α → Lowering Tensor}
    (h : ∀ a, EndsInHandle (f a)) : EndsInHandle (x >>= f) :=
  fun _ => Runs.any.bind fun a t _ => h a t

end EndsInHandle

end Lowering

open Lowering

/-- Whether an operator with so many inputs gives its first input as its output. -/
def Action.passesOn (a : Action) (inputs : Nat) : Bool :=
  match a with
  | .identity => true
  | .eltwise _ _ | .concat _ => inputs = 1
  | _ => false

theorem Operator.lower_of_passesOn {op : Operator}
    (h : op.action.passesOn q.inputs.length = true) : op.lower q = liftM (q.input 0) := by
  unfold Action.passesOn at h
  unfold lower
  split at h
  · rename_i haction
    rw [haction]
  · rename_i haction
    rw [haction]
    dsimp only
    rw [lowerEltwise, if_pos (of_decide_eq_true h)]
  · rename_i haction
    rw [haction]
    dsimp only
    rw [lowerConcat, if_pos (of_decide_eq_true h)]
  · cases h

theorem lowerEltwise_endsInHandle (op : Pointwise) (mode : Alignment) (h : q.inputs.length ≠ 1) :
    EndsInHandle (lowerEltwise q op mode) := by
  unfold lowerEltwise
  rw [if_neg h]
  repeat refine .bind fun _ => ?_
  exact .handle _

theorem lowerConcat_endsInHandle (axis : Int64) (h : q.inputs.length ≠ 1) :
    EndsInHandle (lowerConcat q axis) := by
  unfold lowerConcat
  rw [if_neg h]
  repeat refine .bind fun _ => ?_
  exact .handle _

theorem lowerBatchNorm_endsInHandle (epsilon : Binary32) :
    EndsInHandle (lowerBatchNorm q epsilon) := by
  unfold lowerBatchNorm
  iterate 4 refine .bind fun _ => ?_
  refine .bind fun coefficients => ?_
  dsimp only
  repeat refine .bind fun _ => ?_
  exact .handle _

theorem lowerMatMul_endsInHandle : EndsInHandle (lowerMatMul q) := by
  unfold lowerMatMul
  refine .bind fun b => ?_
  split
  · exact .fail_bind _ _ _
  · refine .bind fun t => ?_
    dsimp only
    split
    · exact .fail _ _
    · repeat refine .bind fun _ => ?_
      exact .handle _

theorem lowerReshape_endsInHandle : EndsInHandle (lowerReshape q) := by
  unfold lowerReshape
  repeat refine .bind fun _ => ?_
  split
  · exact .bind fun _ => .handle _
  · exact .bind fun _ => .handle _

theorem lowerUnsqueeze_endsInHandle : EndsInHandle (lowerUnsqueeze q) := by
  unfold lowerUnsqueeze
  iterate 3 refine .bind fun _ => ?_
  dsimp only
  split
  · exact .fail _ _
  · repeat refine .bind fun _ => ?_
    exact .handle _

theorem lowerReduceMean_endsInHandle (axes : Option (List Int64)) (keepDims : Bool) :
    EndsInHandle (lowerReduceMean q axes keepDims) := by
  unfold lowerReduceMean
  refine .bind fun out => .bind fun committed => .bind fun x => .bind fun reduced => ?_
  refine .bind fun pooling => .bind fun pooled => ?_
  split
  · exact .bind fun _ => .handle _
  · exact .bind fun _ => .bind fun _ => .handle _

/-- **All other operators append a layer in the end.** -/
theorem Operator.lower_endsInHandle {op : Operator}
    (h : op.action.passesOn q.inputs.length = false) : EndsInHandle (op.lower q) := by
  unfold lower
  cases haction : op.action with
  | identity =>
    rw [haction] at h
    cases h
  | eltwise e mode =>
    rw [haction] at h
    exact lowerEltwise_endsInHandle e mode (of_decide_eq_false h)
  | concat axis =>
    rw [haction] at h
    exact lowerConcat_endsInHandle axis (of_decide_eq_false h)
  | activation function boundsAreInputs =>
    dsimp only
    unfold lowerActivation
    repeat refine .bind fun _ => ?_
    exact .handle _
  | conv group window =>
    dsimp only
    unfold lowerConv
    repeat refine .bind fun _ => ?_
    exact .handle _
  | pool kind window =>
    dsimp only
    unfold lowerPool
    repeat refine .bind fun _ => ?_
    exact .handle _
  | globalPool kind =>
    dsimp only
    unfold lowerGlobalPool
    repeat refine .bind fun _ => ?_
    exact .handle _
  | batchNorm epsilon => exact lowerBatchNorm_endsInHandle epsilon
  | gemm params =>
    dsimp only
    unfold lowerGemm
    repeat refine .bind fun _ => ?_
    exact .handle _
  | matMul => exact lowerMatMul_endsInHandle
  | softmax axis =>
    dsimp only
    unfold lowerSoftmax
    repeat refine .bind fun _ => ?_
    exact .handle _
  | lrn size alpha beta bias =>
    dsimp only
    unfold lowerInPlace
    repeat refine .bind fun _ => ?_
    exact .handle _
  | lstm hidden reverse =>
    dsimp only
    unfold lowerLstm
    repeat refine .bind fun _ => ?_
    exact .handle _
  | flatten | reshape => exact lowerReshape_endsInHandle
  | squeeze =>
    dsimp only
    unfold lowerSqueeze
    repeat refine .bind fun _ => ?_
    exact .handle _
  | unsqueeze => exact lowerUnsqueeze_endsInHandle
  | gather =>
    dsimp only
    repeat refine .bind fun _ => ?_
    exact .fail _ _
  | shapeOf | constantOfShape | constant => exact .fail _ _
  | slice bounds =>
    dsimp only
    unfold lowerSlice
    repeat refine .bind fun _ => ?_
    exact .handle _
  | reduceMean axes keepDims => exact lowerReduceMean_endsInHandle axes keepDims

/-! ### What the values of a vertex are bound to -/

/-- The tensor that a wire is bound to. -/
def tensorAt (bound : Array (List Tensor)) (w : Wire) : Option Tensor :=
  (bound[w.node]?).bind fun tensors => tensors[w.output]?

/-- A tensor is constant where inference has found a constant, and is that constant. -/
def Tensor.Agrees (op : Operand) (t : Tensor) : Prop := t.constant? = op.constant

/-- Whether a vertex is a node that passes on its first input. -/
def Vertex.passesOn (v : Vertex) : Bool :=
  match v.kind with
  | .operator op => v.state ≠ .folded ∧ op.action.passesOn v.inputs.length
  | _ => false

/-- How the tensors of the vertex at a position come about: the first input is passed on, or they
agree with inference. -/
inductive Plan.Lowered (plan : Plan) (bound : Array (List Tensor)) (i : Nat) (v : Vertex) :
    List Tensor → Prop
  | passed {w : Wire} {t : Tensor} (hpass : v.passesOn = true)
      (hw : v.inputs[0]? = some (some w)) (ht : tensorAt bound w = some t) :
      Lowered plan bound i v [t]
  | made {tensors : List Tensor} (hpass : v.passesOn = false)
      (h : List.Forall₂ Tensor.Agrees (plan.facts.values i) tensors) :
      Lowered plan bound i v tensors

variable {plan : Plan} {bound : Array (List Tensor)} {i : Nat} {v : Vertex} {p : Progress}

theorem tensorAt_push {w : Wire} {t : Tensor} (h : tensorAt bound w = some t)
    (tensors : List Tensor) : tensorAt (bound.push tensors) w = some t := by
  obtain ⟨produced, hproduced, ht⟩ := Option.bind_eq_some_iff.1 h
  have hlt := (Array.getElem?_eq_some_iff.1 hproduced).1
  refine Option.bind_eq_some_iff.2 ⟨produced, ?_, ht⟩
  rw [Array.getElem?_push, if_neg hlt.ne, hproduced]

theorem Plan.Lowered.push {tensors : List Tensor} (h : plan.Lowered bound i v tensors)
    (more : List Tensor) : plan.Lowered (bound.push more) i v tensors := by
  cases h with
  | passed hpass hw ht => exact .passed hpass hw (tensorAt_push ht more)
  | made hpass h => exact .made hpass h

/-! ### Lowering one vertex -/

/-- A node reads the tensors that its wires are bound to. -/
theorem Progress.tensors_runs (p : Progress) (inputs : List (Option Wire)) (header : Header) :
    Runs (fun _ _ => True) g
      (inputs.mapM fun i => i.mapM fun r => (p.tensor header r : Lowering Tensor))
      fun ts _ => List.Forall₂ (Option.Rel fun w t => tensorAt p.bound w = some t) inputs ts := by
  refine (Runs.mapM (I := fun _ => True) ?_ trivial).imp fun _ _ h => h.2
  intro i _ t _
  cases i with
  | none => exact Runs.pure ⟨trivial, .none⟩
  | some w =>
    refine Runs.lift_bind (Q := fun tensor => tensorAt p.bound w = some tensor) ?_ fun tensor ht =>
      Runs.pure ⟨trivial, .some ht⟩
    unfold tensor
    split
    · rename_i ht
      exact .ok ht
    · trivial

/-- A node that is not folded passes on its first input or appends a layer. -/
theorem Plan.lowerOperator_lowered {op : Operator} {s : Shape} (hkind : v.kind = .operator op)
    (hstate : v.state ≠ .folded) (hvalues : plan.facts.values i = [⟨s, none⟩])
    (scope : String) (shapes : List Shape) (layouts : List Layout) :
    Runs (fun _ _ => True) g (lowerOperator scope p v op shapes layouts) fun p' _ =>
      ∃ tensors, p'.bound = p.bound.push tensors ∧ plan.Lowered p.bound i v tensors := by
  unfold lowerOperator
  refine (p.tensors_runs v.inputs v.header).bind fun ts g hts => ?_
  have hlength : v.inputs.length = ts.length := hts.length_eq
  have hone : Runs (fun _ _ => True) g
      (op.lower ⟨v.header, ts, shapes, layouts, scope ++ v.header.layerName⟩)
      fun t _ => plan.Lowered p.bound i v [t] := by
    cases hpass : op.action.passesOn ts.length with
    | true =>
      rw [op.lower_of_passesOn hpass]
      refine Runs.lift ?_
      unfold Placement.input
      split
      · rename_i t ht
        have hpass' : v.passesOn = true := by simp [Vertex.passesOn, hkind, hstate, hlength, hpass]
        obtain ⟨slot, hslot, hrel⟩ := forall₂_getElem? hts.flip (Option.join_eq_some_iff.1 ht)
        cases hrel with
        | some hw => exact .passed hpass' hslot hw
      · trivial
    | false =>
      refine (op.lower_endsInHandle hpass g).imp fun t _ ht => .made ?_ ?_
      · simp [Vertex.passesOn, hkind, hlength, hpass]
      · rw [hvalues]
        exact .cons ht .nil
  -- what was lowered is checked once more, which changes nothing
  have houtputs : Runs (fun _ _ => True) g
      (op.lowerOutputs ⟨v.header, ts, shapes, layouts, scope ++ v.header.layerName⟩)
      fun tensors _ => plan.Lowered p.bound i v tensors :=
    hone.bind fun t _ ht => Runs.pure ht
  refine houtputs.bind fun tensors g htensors => ?_
  split
  · exact Runs.lift trivial
  · split
    · exact Runs.lift trivial
    · exact Runs.pure ⟨tensors, rfl, htensors⟩

/-- **One vertex.** -/
theorem Plan.lowerVertex_lowered {n : Network} {passed : List Vertex}
    (hv : v.Planned n plan passed.length) (scope : String) :
    Runs (fun _ _ => True) g (plan.lowerVertex scope p (v, passed.length)) fun p' _ =>
      ∃ tensors, p'.bound = p.bound.push tensors ∧
        plan.Lowered p.bound passed.length v tensors := by
  have hexplains := hv.explains
  show Runs _ g (if v.state = .folded then _ else _) _
  split
  · rename_i hfolded
    obtain ⟨-, -, s, c, -, hvalues⟩ := hexplains.folded hfolded
    refine Runs.pure ⟨[.constant c], ?_, .made ?_ ?_⟩
    · rw [hvalues]
      rfl
    · unfold Vertex.passesOn
      split <;> simp [hfolded]
    · rw [hvalues]
      exact .cons rfl .nil
  · rename_i hstate
    refine Runs.bind (Q := fun p' _ => ∃ tensors, p'.bound = p.bound.push tensors ∧
      plan.Lowered p.bound passed.length v tensors) ?_ fun p' g' hp' => ?_
    · unfold lowerPending
      unfold Vertex.Explains at hexplains
      cases hkind : v.kind with
      | input declared =>
        rw [hkind] at hexplains
        refine Runs.any.bind fun h g' _ => Runs.pure ⟨_, rfl, .made ?_ ?_⟩
        · simp [Vertex.passesOn, hkind]
        · rw [hexplains.2]
          exact .cons rfl .nil
      | constant c => exact Runs.lift trivial
      | output =>
        rw [hkind] at hexplains
        dsimp only
        split
        · unfold lowerOutput
          refine Runs.any.bind fun t g' _ => ?_
          split
          · exact Runs.lift trivial
          · refine Runs.any.bind fun _ g' _ => Runs.any.bind fun _ g' _ => ?_
            refine Runs.pure ⟨[], rfl, .made ?_ ?_⟩
            · simp [Vertex.passesOn, hkind]
            · rw [hexplains.2]
              exact .nil
        · exact Runs.lift trivial
      | operator op =>
        rw [hkind] at hexplains
        obtain ⟨-, s, -, -, ⟨-, hvalues⟩ | ⟨hfolded, -⟩⟩ := hexplains
        · exact lowerOperator_lowered hkind hstate hvalues scope _ _
        · exact absurd hfolded hstate
    · exact Runs.any.bind fun _ _ _ => Runs.pure hp'

/-! ### Lowering the first vertices -/

/-- A node that is not folded although it passes on a value that is known. -/
def Plan.Drifts (plan : Plan) (i : Nat) : Prop :=
  ∃ v op w known, plan.network.vertices[i]? = some v ∧ v.kind = .operator op ∧
    op.action = .identity ∧ v.state ≠ .folded ∧ v.inputs[0]? = some (some w) ∧
    plan.facts.find? w = some known ∧ known.constant.isSome

/-- What lowering has reached after some vertices. -/
structure Plan.Reached (plan : Plan) (front : List Vertex) (p : Progress) (g : LayerGraph) :
    Prop where
  sound : p.Sound plan.facts front g
  lowered : ∀ (i : Nat) (v : Vertex), front[i]? = some v →
    ∃ tensors, p.bound[i]? = some tensors ∧ plan.Lowered p.bound i v tensors

/-- One more vertex. -/
theorem Plan.Reached.push {front : List Vertex} {p' : Progress} {g' : LayerGraph}
    {tensors : List Tensor} (h : plan.Reached front p g)
    (hsound : p'.Sound plan.facts (front ++ [v]) g') (hbound : p'.bound = p.bound.push tensors)
    (hlowered : plan.Lowered p.bound front.length v tensors) :
    plan.Reached (front ++ [v]) p' g' := by
  refine ⟨hsound, fun i u hu => ?_⟩
  rw [hbound, Array.getElem?_push, h.sound.size]
  split
  · rename_i hi
    subst hi
    obtain rfl : v = u := by simpa using hu
    exact ⟨tensors, rfl, hlowered.push tensors⟩
  · rename_i hi
    have hlt : i < (front ++ [v]).length := (List.getElem?_eq_some_iff.1 hu).1
    rw [List.getElem?_append_left (by simp at hlt; omega)] at hu
    obtain ⟨tensors', htensors', hlowered'⟩ := h.lowered i u hu
    exact ⟨tensors', htensors', hlowered'.push tensors⟩

/-- **The first vertices.** -/
theorem Plan.front_runs {n : Network} {front : List Vertex} (h : plan.Sound n) (hn : n.Ordered)
    (hfront : front <+: plan.network.vertices.toList) (scope : String) :
    Runs (fun _ _ => True) .empty
      (front.zipIdx.foldlM (plan.lowerVertex scope) Progress.empty) (plan.Reached front) := by
  refine Runs.foldlM_passed (I := plan.Reached) ?_
    ⟨Progress.sound_empty _, fun i v hv => by simp at hv⟩
  intro passed v rest hsplit p g hp
  have hv : plan.network.vertices[passed.length]? = some v := by
    obtain ⟨back, hback⟩ := hfront
    rw [← Array.getElem?_toList, ← hback, hsplit]
    simp
  have hplanned := h.planned hn hv
  have hboth := (lowerVertex_runs hplanned hp.sound scope).and
    (lowerVertex_lowered (g := g) (p := p) hplanned scope)
  refine hboth.mono (fun _ _ _ => trivial) ?_
  rintro p' g' ⟨hsound, tensors, hbound, hlowered⟩
  exact hp.push hsound hbound hlowered

/-! ### Agreement -/

/-- A node that was not folded has an input that is not known. -/
def Plan.Unfolded (plan : Plan) : Prop :=
  ∀ (i : Nat) (v : Vertex) (op : Operator), plan.network.vertices[i]? = some v →
    v.kind = .operator op → v.state ≠ .folded →
    ∃ ops : List (Option Operand), plan.facts.Operands v.inputs ops ∧
      Operands.allConstant ops = false

theorem Network.plan_unfolded {n : Network} (hn : n.Ordered) (hplan : n.plan = .ok plan) :
    plan.Unfolded := by
  intro i v op hv hkind hstate
  unfold Network.plan at hplan
  obtain ⟨⟨marked, facts⟩, hinfer, hrest⟩ := bind_eq_ok.1 hplan
  obtain ⟨layouts, -, hlayouts⟩ := bind_eq_ok.1 hrest
  cases hlayouts
  obtain ⟨hsolves, hmarks⟩ := (infer_solves hn).value hinfer
  have hexplained := (infer_yields hn).value hinfer
  obtain ⟨u, state, hu, rfl, -⟩ := hexplained.of_marked hv
  obtain ⟨found, hfound, -⟩ := hsolves.vertex i u hu
  have hmarked := hmarks i u hu found hfound
  obtain rfl : found.state = state := by
    rw [hv] at hmarked
    cases hmarked
    rfl
  have hkind' : u.kind = .operator op := hkind
  unfold Vertex.infer at hfound
  rw [hkind'] at hfound
  obtain ⟨ops, hops, hrest⟩ := bind_eq_ok.1 hfound
  refine ⟨ops, Facts.operands_eq_ok.1 hops, ?_⟩
  obtain ⟨shapes, -, hrest⟩ := bind_eq_ok.1 hrest
  obtain ⟨-, -, hrest⟩ := bind_eq_ok.1 hrest
  by_contra hall
  rw [Bool.not_eq_false] at hall
  rw [hall, Bool.true_or, if_pos rfl] at hrest
  obtain ⟨constants, -, hrest⟩ := bind_eq_ok.1 hrest
  split at hrest
  · exact absurd hrest Site.fail_ne_ok
  · cases hrest
    exact hstate rfl

/-- A node that passes on a known value drifts: if it were its only input, the node would have been
folded. -/
theorem Plan.Unfolded.drifts (h : plan.Unfolded) (hv : plan.network.vertices[i]? = some v)
    (hpass : v.passesOn = true) {w : Wire} {known : Operand}
    (hw : v.inputs[0]? = some (some w)) (hknown : plan.facts.find? w = some known)
    (hconstant : known.constant.isSome) : plan.Drifts i := by
  unfold Vertex.passesOn at hpass
  split at hpass
  · rename_i op hkind
    obtain ⟨hstate, hpass⟩ := of_decide_eq_true hpass
    by_cases hidentity : op.action = .identity
    · exact ⟨v, op, w, known, hv, hkind, hidentity, hstate, hw, hknown, hconstant⟩
    · exfalso
      have hone : v.inputs.length = 1 := by
        unfold Action.passesOn at hpass
        split at hpass
        · rename_i haction
          exact absurd haction hidentity
        · exact of_decide_eq_true hpass
        · exact of_decide_eq_true hpass
        · cases hpass
      obtain ⟨slot, hinputs⟩ := List.length_eq_one_iff.1 hone
      rw [hinputs] at hw
      obtain rfl : slot = some w := by simpa using hw
      obtain ⟨ops, hops, hall⟩ := h i v op hv hkind hstate
      rw [hinputs] at hops
      cases hops with
      | cons hop hrest =>
        cases hrest
        cases hop with
        | some hop =>
          rw [hknown] at hop
          cases hop
          simp [Operands.allConstant, hconstant] at hall
  · cases hpass

namespace Plan.Reached

variable {n : Network} {front : List Vertex}

/-- What a wire is bound to agrees with what is known about it, if this is so for all values of its
vertex. -/
theorem agrees_at {bound : Array (List Tensor)} {w : Wire} {t : Tensor}
    (h : ∀ tensors, bound[w.node]? = some tensors →
      List.Forall₂ Tensor.Agrees (plan.facts.values w.node) tensors)
    (ht : tensorAt bound w = some t) :
    ∃ known, plan.facts.find? w = some known ∧ t.Agrees known := by
  obtain ⟨produced, hproduced, hindex⟩ := Option.bind_eq_some_iff.1 ht
  obtain ⟨known, hknown, hagrees⟩ := forall₂_getElem? (h produced hproduced).flip hindex
  exact ⟨known, by rw [Facts.find?_eq, hknown], hagrees⟩

/-- The values of a node that was lowered are not known. -/
theorem values_of_passesOn (hplanned : v.Planned n plan i) (hpass : v.passesOn = true) :
    ∃ s, plan.facts.values i = [⟨s, none⟩] := by
  have hexplains := hplanned.explains
  unfold Vertex.passesOn at hpass
  split at hpass
  · rename_i op hkind
    unfold Vertex.Explains at hexplains
    rw [hkind] at hexplains
    obtain ⟨-, s, -, -, ⟨-, hvalues⟩ | ⟨hfolded, -⟩⟩ := hexplains
    · exact ⟨s, hvalues⟩
    · exact absurd hfolded (of_decide_eq_true hpass).1
  · cases hpass

theorem vertex_of_front (hfront : front <+: plan.network.vertices.toList)
    (hv : front[i]? = some v) : plan.network.vertices[i]? = some v := by
  obtain ⟨back, hback⟩ := hfront
  rw [← Array.getElem?_toList, ← hback,
    List.getElem?_append_left (List.getElem?_eq_some_iff.1 hv).1, hv]

/-- Where nothing drifts, everything agrees. -/
theorem agrees_of_not_drifts (h : plan.Reached front p g)
    (hfront : front <+: plan.network.vertices.toList)
    (hplanned : ∀ (i : Nat) (v : Vertex), plan.network.vertices[i]? = some v → v.Planned n plan i)
    (hunfolded : plan.Unfolded) (hdrift : ∀ i < front.length, ¬ plan.Drifts i) (i : Nat)
    (tensors : List Tensor) (htensors : p.bound[i]? = some tensors) :
    List.Forall₂ Tensor.Agrees (plan.facts.values i) tensors := by
  -- by induction on the position, since a tensor is passed on from an earlier vertex
  induction i using Nat.strong_induction_on generalizing tensors with
  | _ i ih =>
    have hlt : i < front.length := h.sound.size ▸ (Array.getElem?_eq_some_iff.1 htensors).1
    have hv := List.getElem?_eq_getElem hlt
    have hvertex := vertex_of_front hfront hv
    obtain ⟨tensors', htensors', hlowered⟩ := h.lowered i _ hv
    obtain rfl := Option.some.inj (htensors.symm.trans htensors')
    cases hlowered with
    | made _ hagrees => exact hagrees
    | @passed w t hpass hw ht =>
      have hbefore := ((hplanned i _ hvertex).inputs w (List.mem_of_getElem? hw)).1
      obtain ⟨known, hknown, hagrees⟩ := agrees_at (fun ts hts => ih w.node hbefore ts hts) ht
      have hopen : known.constant = none := by
        by_contra hconstant
        exact hdrift i hlt (hunfolded.drifts hvertex hpass hw hknown
          (Option.isSome_iff_ne_none.2 hconstant))
      obtain ⟨s, hvalues⟩ := values_of_passesOn (hplanned i _ hvertex) hpass
      rw [hvalues]
      exact .cons (hagrees.trans hopen) .nil

/-- A node that drifts has a constant as its value. -/
theorem constant_of_drifts (h : plan.Reached front p g)
    (hfront : front <+: plan.network.vertices.toList) (hi : i < front.length)
    (hdrift : plan.Drifts i) :
    ∃ v c, front[i]? = some v ∧ v.passesOn = true ∧ v.state ≠ .folded ∧
      p.bound[i]? = some [.constant c] := by
  obtain ⟨v, op, w, known, hv, hkind, hidentity, hstate, hw, hknown, hconstant⟩ := hdrift
  have hv' := List.getElem?_eq_getElem hi
  obtain rfl := Option.some.inj (hv.symm.trans (vertex_of_front hfront hv'))
  obtain ⟨tensors, htensors, hlowered⟩ := h.lowered i _ hv'
  have hpass : front[i].passesOn = true := by
    simp [Vertex.passesOn, hkind, hstate, Action.passesOn, hidentity]
  cases hlowered with
  | made hmade _ =>
    rw [hpass] at hmade
    cases hmade
  | @passed w' t _ hw' ht =>
    obtain rfl : w = w' := by
      rw [hw] at hw'
      cases hw'
      rfl
    obtain ⟨c, hc⟩ := Option.isSome_iff_exists.1 hconstant
    obtain ⟨produced, hproduced, -⟩ := Option.bind_eq_some_iff.1 ht
    obtain ⟨t', ht', hstands⟩ :=
      h.sound.bound w known hknown (Array.getElem?_eq_some_iff.1 hproduced).1
    obtain rfl : t = t' := Option.some.inj (ht.symm.trans ht')
    refine ⟨_, c, hv', hpass, hstate, ?_⟩
    rw [htensors, hstands.constant c hc]

/-- What agrees with a value that is not known comes from a layer of the graph. -/
theorem handle_of_agrees {tensors : List Tensor} (h : plan.Reached front p g)
    (htensors : p.bound[i]? = some tensors)
    (hagrees : List.Forall₂ Tensor.Agrees (plan.facts.values i) tensors)
    (hopen : ∀ op ∈ plan.facts.values i, op.constant = none) {t : Tensor} (ht : t ∈ tensors) :
    ∃ handle, t = .handle handle ∧ g.HasOutlet handle.outlet := by
  obtain ⟨o, ho⟩ := List.mem_iff_getElem?.1 ht
  obtain ⟨op, hop, hagree⟩ := forall₂_getElem? hagrees.flip ho
  have hfind : plan.facts.find? ⟨i, o⟩ = some op := by rw [Facts.find?_eq, hop]
  obtain ⟨t', ht', hstands⟩ :=
    h.sound.bound ⟨i, o⟩ op hfind (Array.getElem?_eq_some_iff.1 htensors).1
  obtain rfl : t = t' := by
    rw [htensors] at ht'
    exact Option.some.inj (ho.symm.trans ht')
  have hnone : t.constant? = none := hagree.trans (hopen op (List.mem_of_getElem? hop))
  cases t with
  | constant c => cases hnone
  | handle handle => exact ⟨handle, rfl, hstands.valid.outlet⟩

end Plan.Reached

/-- The values of a vertex that was not folded are not known. -/
theorem Vertex.Explains.open_of_pending {facts : Facts} {values : List Operand}
    (h : v.Explains facts values) (hstate : v.state ≠ .folded) {op : Operand} (hop : op ∈ values) :
    op.constant = none := by
  unfold Vertex.Explains at h
  split at h
  · rw [h.2, List.mem_singleton] at hop
    rw [hop]
  · exact absurd h.1 hstate
  · rw [h.2] at hop
    cases hop
  · obtain ⟨-, s, -, -, ⟨-, hvalues⟩ | ⟨hfolded, -⟩⟩ := h
    · rw [hvalues, List.mem_singleton] at hop
      rw [hop]
    · exact absurd hfolded hstate

/-- **Where lowering and inference agree on what is constant.** Lower the first vertices of a plan.
Every value so far is bound to a constant iff inference has found one, which is then the same, iff
no vertex so far drifts: none is a node that passes on a known constant without having been folded.
All values of vertices that were not folded come from layers under the same condition. -/
theorem Model.constness_spec (m : Model) (registry : Registry) (options : CompileOptions)
    (plan : Plan) (hplan : m.plan registry options = .ok plan) (front : List Vertex)
    (hfront : front <+: plan.network.vertices.toList) (p : Progress) (g : LayerGraph)
    (hrun : (front.zipIdx.foldlM (plan.lowerVertex options.scope) Progress.empty).run.run .empty =
      (.ok p, g)) :
    p.bound.size = front.length ∧
    ((∀ (i : Nat) (tensors : List Tensor), p.bound[i]? = some tensors →
        List.Forall₂ (fun op t => t.constant? = op.constant) (plan.facts.values i) tensors) ↔
      ∀ i < front.length, ¬ plan.Drifts i) ∧
    ((∀ (i : Nat) (v : Vertex) (tensors : List Tensor), front[i]? = some v → v.state ≠ .folded →
        p.bound[i]? = some tensors → ∀ t ∈ tensors, ∃ h, t = .handle h ∧ g.HasOutlet h.outlet) ↔
      ∀ i < front.length, ¬ plan.Drifts i) := by
  obtain ⟨net, hnet⟩ := (m.plan_yields registry options).value hplan
  obtain ⟨order, hlinked⟩ := hnet.linked
  have hordered := hlinked.ordered
  have hplanned : ∀ (i : Nat) (v : Vertex), plan.network.vertices[i]? = some v →
      v.Planned net plan i := fun i v hv => hnet.sound.planned hordered hv
  have hreached := (Plan.front_runs hnet.sound hordered hfront options.scope).value hrun
  have hagrees := hreached.agrees_of_not_drifts hfront hplanned
    (Network.plan_unfolded hordered hnet.planned)
  refine ⟨hreached.sound.size, ⟨?_, hagrees⟩, ⟨?_, ?_⟩⟩
  · intro hall i hi hdrift
    obtain ⟨v, c, hv, hpass, -, hbound⟩ := hreached.constant_of_drifts hfront hi hdrift
    obtain ⟨s, hvalues⟩ := Plan.Reached.values_of_passesOn
      (hplanned i v (Plan.Reached.vertex_of_front hfront hv)) hpass
    have hboth := hall i _ hbound
    rw [hvalues] at hboth
    cases hboth with
    | cons hone _ => cases hone
  · intro hall i hi hdrift
    obtain ⟨v, c, hv, -, hstate, hbound⟩ := hreached.constant_of_drifts hfront hi hdrift
    obtain ⟨h, hh, -⟩ := hall i v _ hv hstate hbound _ (List.mem_singleton_self _)
    cases hh
  · intro hdrift i v tensors hv hstate htensors t ht
    have hexplains := (hplanned i v (Plan.Reached.vertex_of_front hfront hv)).explains
    exact hreached.handle_of_agrees htensors (hagrees hdrift i tensors htensors)
      (fun op hop => hexplains.open_of_pending hstate hop) ht

/-- A result that passes a test is a value. -/
theorem exists_ok_of_any {ε α : Type} {x : Except ε α} {test : α → Bool}
    (h : x.toOption.any test = true) : ∃ a, x = .ok a ∧ test a = true := by
  cases x with
  | error e => cases h
  | ok a => exact ⟨a, rfl, h⟩

/-- All vertices of a model without a dropout. -/
theorem Model.backwards_constness :
    ∃ plan p g, backwards.plan .builtins { reorder := true } = .ok plan ∧
      (plan.network.vertices.toList.zipIdx.foldlM (plan.lowerVertex "") Progress.empty).run.run
        .empty = (.ok p, g) ∧
      ((∀ (i : Nat) (tensors : List Tensor), p.bound[i]? = some tensors →
          List.Forall₂ (fun op t => t.constant? = op.constant) (plan.facts.values i) tensors) ↔
        ∀ i < plan.network.vertices.toList.length, ¬ plan.Drifts i) := by
  have hok : (backwards.plan .builtins { reorder := true }).toOption.any (fun plan =>
      ((plan.network.vertices.toList.zipIdx.foldlM (plan.lowerVertex "")
        Progress.empty).run.run .empty).1.isOk) = true := by cbv
  obtain ⟨plan, hplan, hrun⟩ := exists_ok_of_any hok
  generalize hresult : (plan.network.vertices.toList.zipIdx.foldlM (plan.lowerVertex "")
    Progress.empty).run.run .empty = result at hrun
  rcases result with ⟨f | p, g⟩
  · cases hrun
  · exact ⟨plan, p, g, hplan, hresult, (constness_spec backwards .builtins { reorder := true } plan
      hplan _ (List.prefix_refl _) p g hresult).2.1⟩

/-- A dropout of a constant whose ratio is supplied at run time. -/
def Model.unfoldedDropout : Model where
  opset := 12
  inputs := [⟨"r", ⟨[]⟩, .float⟩]
  initializers :=
    [⟨"c", ⟨⟨[2]⟩, .uncommitted, .floats #[⟨0x3f800000⟩, ⟨0x40000000⟩], rfl, rfl⟩⟩]
  nodes := [⟨"Dropout", "drop", ["c", "r"], ["y"], []⟩]
  outputs := ["y"]

/-- The dropout is not folded, since its ratio is not known, and then passes on the constant.
Inference has found no constant for its value, but lowering binds the value to one, and the model is
refused for putting it out. -/
theorem Model.unfoldedDropout_constant :
    ∃ plan p g c, unfoldedDropout.plan .builtins {} = .ok plan ∧
      ((plan.network.vertices.toList.take 3).zipIdx.foldlM (plan.lowerVertex "")
        Progress.empty).run.run .empty = (.ok p, g) ∧
      plan.facts.values 2 = [⟨⟨[2]⟩, none⟩] ∧ p.bound[2]? = some [.constant c] ∧
      (unfoldedDropout.compile .builtins {}).1 =
        .error ⟨⟨"GraphOutput", "y"⟩, .network .constantOutput⟩ := by
  have hok : (unfoldedDropout.plan .builtins {}).toOption.any (fun plan =>
      decide ((plan.facts.values 2).map (fun op => (op.shape, op.constant.isSome)) =
        [(⟨[2]⟩, false)]) &&
      (((plan.network.vertices.toList.take 3).zipIdx.foldlM (plan.lowerVertex "")
        Progress.empty).run.run .empty).1.toOption.any fun p =>
          decide ((p.bound.getD 2 []).map (fun t => t.constant?.isSome) = [true])) = true := by cbv
  have hcompile : (unfoldedDropout.compile .builtins {}).1 =
      .error ⟨⟨"GraphOutput", "y"⟩, .network .constantOutput⟩ := by cbv
  obtain ⟨plan, hplan, hrest⟩ := exists_ok_of_any hok
  rw [Bool.and_eq_true, decide_eq_true_eq] at hrest
  obtain ⟨hvalues, hrun⟩ := hrest
  obtain ⟨p, hp, hbound⟩ := exists_ok_of_any hrun
  have hvalues' : plan.facts.values 2 = [⟨⟨[2]⟩, none⟩] := by
    obtain ⟨op, hop, hfields⟩ := List.map_eq_singleton_iff.1 hvalues
    obtain ⟨shape, constant⟩ := op
    simp at hfields
    rw [hop, hfields.1, hfields.2]
  obtain ⟨t, ht, hconstant⟩ := List.map_eq_singleton_iff.1 (of_decide_eq_true hbound)
  obtain ⟨c, rfl⟩ : ∃ c, t = .constant c := by
    cases t with
    | constant c => exact ⟨c, rfl⟩
    | handle h => cases hconstant
  refine ⟨plan, p, _, c, hplan, Prod.ext hp rfl, hvalues', ?_, hcompile⟩
  rw [Array.getD_eq_getD_getElem?] at ht
  cases hget : p.bound[2]? with
  | none =>
    rw [hget] at ht
    cases ht
  | some tensors =>
    rw [hget] at ht
    exact congrArg some ht

end Lamina
