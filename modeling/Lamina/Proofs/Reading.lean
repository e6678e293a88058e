import Mathlib
import Lamina.Registry
import Lamina.Proofs.Folding

/-!
# Reading nodes

Whatever a node looks like, reading it fails with faults of that node only
(`Registry.create_checked`), and an operator that is read has the header of its node. The lemmas
below go through the attributes that the families ask for; nothing is said about the values that are
read, except where a later stage depends on them (`Action.Checked`).
-/

namespace Lamina

/-! ### Attributes -/

namespace Node

variable {α : Type} (n : Node) (reader : Reader α) (name : String)

theorem readAs_yields (a : Attribute) :
    Yields (Fault.Own n.site) (n.readAs reader name a) fun _ => True := by
  unfold readAs
  split
  · exact .ok trivial
  · exact .own rfl

theorem get_yields : Yields (Fault.Own n.site) (n.get reader name) fun _ => True := by
  unfold get
  split
  · exact n.readAs_yields reader name _
  · exact .own rfl

theorem get?_yields : Yields (Fault.Own n.site) (n.get? reader name) fun _ => True := by
  unfold get?
  split
  · exact (n.readAs_yields reader name _).map fun _ _ => trivial
  · exact .ok trivial

theorem getD_yields (default : α) :
    Yields (Fault.Own n.site) (n.getD reader name default) fun _ => True := by
  unfold getD
  split
  · exact n.readAs_yields reader name _
  · exact .ok trivial

/-- The numbers of inputs and outputs are checked against bounds. -/
theorem checkArity_yields (inputs outputs : Arity) :
    Yields (Fault.Own n.site) (n.checkArity inputs outputs) fun _ => True := by
  refine (Yields.ensure_own rfl).bind fun _ _ => ?_
  exact (Yields.ensure_own rfl).imp fun _ _ => trivial

theorem sizes?_yields : Yields (Fault.Own n.site) (n.sizes? name) fun _ => True := by
  unfold sizes?
  refine (n.get?_yields _ _).bind fun values _ => ?_
  cases values with
  | none => exact .pure trivial
  | some values =>
    refine (Yields.mapM (R := fun _ _ => True) fun v _ => ?_).bind fun _ _ => .pure trivial
    split
    · exact .own rfl
    · exact .ok trivial

end Node

/-- The attributes of a window, in the order in which they are read. -/
theorem Window.ofNode_yields (n : Node) :
    Yields (Fault.Own n.site) (Window.ofNode n) fun _ => True := by
  unfold Window.ofNode
  refine (n.getD_yields _ _ _).bind fun mode _ => ?_
  have hsizes : ∀ padding, Yields (Fault.Own n.site) (do
      let kernel ← n.sizes? "kernel_shape"
      let strides ← n.sizes? "strides"
      let dilations ← n.sizes? "dilations"
      let pads ← n.sizes? "pads"
      return { kernel, strides, dilations, pads, padding : Window }) fun _ => True := by
    intro padding
    refine (n.sizes?_yields _).bind fun kernel _ => ?_
    refine (n.sizes?_yields _).bind fun strides _ => ?_
    refine (n.sizes?_yields _).bind fun dilations _ => ?_
    refine (n.sizes?_yields _).bind fun pads _ => ?_
    exact .pure trivial
  dsimp only
  split
  · exact hsizes _
  · exact .own_bind rfl

/-! ### Families -/

/-- What reading a node makes sure of: that a single value is filled in, and that the points of a
pooling lie next to each other. -/
def Action.Checked : Action → Prop
  | .constantOfShape value => value.shape.count = 1
  | .pool _ window => ∀ d ∈ window.dilations.getD [], d = 1
  | _ => True

theorem Action.Checked.fillsOne {action : Action} (h : action.Checked) : action.FillsOne := by
  cases action with
  | constantOfShape value => exact h
  | _ => trivial


namespace Family

variable (n : Node) (opset : Int64)

theorem readIdentity_yields :
    Yields (Fault.Own n.site) (readIdentity n) Action.Checked := by
  unfold readIdentity
  dsimp only
  split
  · refine (n.checkArity_yields _ _).bind fun _ _ => ?_
    exact .refuse rfl fun _ => .pure trivial
  · exact (n.checkArity_yields _ _).bind fun _ _ => .pure trivial

theorem readMode_yields : Yields (Fault.Own n.site) (readMode n opset) fun _ => True := by
  unfold readMode
  split
  · refine (n.getD_yields _ _ _).bind fun broadcast _ => ?_
    split
    · exact (n.get?_yields _ _).bind fun axis _ => .pure trivial
    · exact .pure trivial
  · exact .pure trivial

/-- Elementwise operators with their way of broadcasting. -/
theorem readEltwise_yields :
    Yields (Fault.Own n.site) (readEltwise n opset) Action.Checked := by
  unfold readEltwise
  split
  · exact .own rfl
  · exact (n.checkArity_yields _ _).bind fun _ _ => .pure trivial
  · refine (n.checkArity_yields _ _).bind fun _ _ => ?_
    exact (readMode_yields n opset).bind fun mode _ => .pure trivial

/-- Activations with their parameters. -/
theorem readFunction_yields : Yields (Fault.Own n.site) (readFunction n opset) fun _ => True := by
  unfold readFunction
  split
  iterate 4 exact .pure trivial
  · exact (n.getD_yields _ _ _).bind fun alpha _ => .pure trivial
  · exact (n.getD_yields _ _ _).bind fun alpha _ => .pure trivial
  · split
    · refine (n.getD_yields _ _ _).bind fun low _ => ?_
      exact (n.getD_yields _ _ _).bind fun high _ => .pure trivial
    · exact .pure trivial
  · exact .own rfl

theorem readBatchNorm_yields :
    Yields (Fault.Own n.site) (readBatchNorm n opset) Action.Checked := by
  unfold readBatchNorm
  refine (n.checkArity_yields _ _).bind fun _ _ => .refuse rfl fun _ => ?_
  have hrest : Yields (Fault.Own n.site)
      (do return Action.batchNorm (← n.getD .float "epsilon" (.constant 1 (-5))))
      Action.Checked :=
    (n.getD_yields _ _ _).bind fun epsilon _ => .pure trivial
  dsimp only
  split
  · exact (n.getD_yields _ _ _).bind fun isTest _ => .refuse rfl fun _ => hrest
  · exact hrest

theorem readLrn_yields : Yields (Fault.Own n.site) (readLrn n) Action.Checked := by
  unfold readLrn
  refine (n.checkArity_yields _ _).bind fun _ _ => ?_
  refine (n.get_yields _ _).bind fun size _ => .refuse rfl fun _ => ?_
  refine (n.getD_yields _ _ _).bind fun alpha _ => ?_
  refine (n.getD_yields _ _ _).bind fun beta _ => ?_
  exact (n.getD_yields _ _ _).bind fun bias _ => .pure trivial

theorem readConv_yields : Yields (Fault.Own n.site) (readConv n) Action.Checked := by
  unfold readConv
  refine (n.checkArity_yields _ _).bind fun _ _ => ?_
  refine (n.getD_yields _ _ _).bind fun group _ => .refuse rfl fun _ => ?_
  exact (Window.ofNode_yields n).bind fun window _ => .pure trivial

theorem readPoolKind_yields : Yields (Fault.Own n.site) (readPoolKind n) fun _ => True := by
  unfold readPoolKind
  split
  iterate 4 exact .ok trivial
  exact .own rfl

theorem readPool_yields : Yields (Fault.Own n.site) (readPool n) Action.Checked := by
  unfold readPool
  refine (n.checkArity_yields _ _).bind fun _ _ => ?_
  refine (readPoolKind_yields n).bind fun kind _ => ?_
  refine (Window.ofNode_yields n).bind fun window _ => .refuse rfl fun _ => ?_
  refine (n.getD_yields _ _ _).bind fun rounding _ => .refuse rfl fun _ => ?_
  refine .refuse rfl fun hdilations => .refuse rfl fun _ => ?_
  have hchecked : (Action.pool kind window).Checked := by
    intro d hd
    simpa using fun hne => hdilations (List.any_eq_true.2 ⟨d, hd, decide_eq_true hne⟩)
  dsimp only
  split
  · exact (n.getD_yields _ _ _).bind fun counted _ => .refuse rfl fun _ => .pure hchecked
  · exact .pure hchecked

theorem readGemm_yields : Yields (Fault.Own n.site) (readGemm n) Action.Checked := by
  unfold readGemm
  refine (n.checkArity_yields _ _).bind fun _ _ => ?_
  refine (n.getD_yields _ _ _).bind fun alpha _ => ?_
  refine (n.getD_yields _ _ _).bind fun beta _ => ?_
  refine (n.getD_yields _ _ _).bind fun transA _ => ?_
  exact (n.getD_yields _ _ _).bind fun transB _ => .pure trivial

theorem readDirection_yields : Yields (Fault.Own n.site) (readDirection n) fun _ => True := by
  unfold readDirection
  refine (n.getD_yields _ _ _).bind fun direction _ => ?_
  split
  · exact .pure trivial
  · exact .pure trivial
  · exact .own rfl
  · exact .own rfl

theorem readLstm_yields : Yields (Fault.Own n.site) (readLstm n) Action.Checked := by
  unfold readLstm
  refine (n.checkArity_yields _ _).bind fun _ _ => .refuse rfl fun _ => ?_
  refine (n.get_yields _ _).bind fun hidden _ => .refuse rfl fun _ => ?_
  refine (readDirection_yields n).bind fun reverse _ => ?_
  refine (n.getD_yields _ _ _).bind fun activations _ => .refuse rfl fun _ => ?_
  refine .refuse rfl fun _ => ?_
  refine (n.getD_yields _ _ _).bind fun coupled _ => .refuse rfl fun _ => ?_
  exact (n.getD_yields _ _ _).bind fun layout _ => .refuse rfl fun _ => .pure trivial

/-- An attribute in older opsets is an input in newer ones. -/
theorem readReshape_yields :
    Yields (Fault.Own n.site) (readReshape n opset) Action.Checked := by
  unfold readReshape
  split
  · refine (n.checkArity_yields _ _).bind fun _ _ => ?_
    exact (n.get_yields _ _).bind fun shape _ => .pure trivial
  · exact (n.checkArity_yields _ _).bind fun _ _ => .pure trivial

theorem readSqueeze_yields :
    Yields (Fault.Own n.site) (readSqueeze n opset) Action.Checked := by
  unfold readSqueeze
  split
  · refine (n.checkArity_yields _ _).bind fun _ _ => ?_
    exact (n.get?_yields _ _).bind fun axes _ => .pure trivial
  · exact (n.checkArity_yields _ _).bind fun _ _ => .pure trivial

theorem readUnsqueeze_yields :
    Yields (Fault.Own n.site) (readUnsqueeze n opset) Action.Checked := by
  unfold readUnsqueeze
  split
  · refine (n.checkArity_yields _ _).bind fun _ _ => ?_
    exact (n.get_yields _ _).bind fun axes _ => .pure trivial
  · exact (n.checkArity_yields _ _).bind fun _ _ => .pure trivial

theorem readConcat_yields : Yields (Fault.Own n.site) (readConcat n opset) Action.Checked := by
  unfold readConcat
  refine (n.checkArity_yields _ _).bind fun _ _ => ?_
  dsimp only
  split
  · exact (n.getD_yields _ _ _).bind fun axis _ => .pure trivial
  · exact (n.get_yields _ _).bind fun axis _ => .pure trivial

theorem readConstantOfShape_yields :
    Yields (Fault.Own n.site) (readConstantOfShape n opset) Action.Checked := by
  unfold readConstantOfShape
  refine .refuse rfl fun _ => ?_
  refine (n.checkArity_yields _ _).bind fun _ _ => ?_
  refine (n.getD_yields _ _ _).bind fun value _ => .refuse rfl fun hcount => ?_
  exact .pure (not_not.1 hcount)

/-- The values of the attributes fill the shapes they are given. -/
theorem readConstant_yields : Yields (Fault.Own n.site) (readConstant n) Action.Checked := by
  unfold readConstant
  refine (n.checkArity_yields _ _).bind fun _ _ => ?_
  have hforms : Yields (Fault.Own n.site)
      (refuseForms n ["sparse_value", "value_string", "value_strings"]) fun _ => True := by
    unfold refuseForms
    split
    · exact .own rfl
    · exact .ok trivial
  refine hforms.bind fun _ _ => ?_
  refine (n.get?_yields _ _).bind fun tensor _ => ?_
  refine (n.get?_yields _ _).bind fun float _ => ?_
  refine (n.get?_yields _ _).bind fun floats _ => ?_
  have hlisted : Yields (Fault.Own n.site)
      (floats.mapM fun v => Constant.ofBuffer ⟨[v.length]⟩ (.floats v.toArray)) fun _ => True := by
    cases floats with
    | none => exact .pure trivial
    | some v =>
      refine (Constant.ofBuffer_yields ?_).map fun _ _ => trivial
      simp [Buffer.size, Shape.count, positions]
  refine hlisted.bind fun listed _ => ?_
  refine (n.get?_yields _ _).bind fun int _ => ?_
  have hsingle : Yields (Fault.Own n.site)
      (int.mapM fun v => Constant.ofBuffer .scalar (.ints #[v])) fun _ => True := by
    cases int with
    | none => exact .pure trivial
    | some v => exact (Constant.ofBuffer_yields rfl).map fun _ _ => trivial
  refine hsingle.bind fun single _ => ?_
  refine (n.get?_yields _ _).bind fun ints _ => ?_
  dsimp only
  split
  · exact .pure trivial
  · exact .own rfl

theorem readSlice_yields : Yields (Fault.Own n.site) (readSlice n opset) Action.Checked := by
  unfold readSlice
  split
  · refine (n.checkArity_yields _ _).bind fun _ _ => ?_
    refine (n.get_yields _ _).bind fun starts _ => ?_
    refine (n.get_yields _ _).bind fun ends _ => ?_
    exact (n.get?_yields _ _).bind fun axes _ => .pure trivial
  · exact (n.checkArity_yields _ _).bind fun _ _ => .pure trivial

/-- One case for each family. -/
theorem action_yields (family : Family) :
    Yields (Fault.Own n.site) (family.action n opset) Action.Checked := by
  cases family with
  | identity => exact readIdentity_yields n
  | eltwise => exact readEltwise_yields n opset
  | activation =>
    refine (readFunction_yields n opset).bind fun _ _ => ?_
    exact (n.checkArity_yields _ _).bind fun _ _ => .pure trivial
  | conv => exact readConv_yields n
  | pool => exact readPool_yields n
  | globalPool =>
    refine (n.checkArity_yields _ _).bind fun _ _ => ?_
    exact (readPoolKind_yields n).bind fun _ _ => .pure trivial
  | batchNorm => exact readBatchNorm_yields n opset
  | gemm => exact readGemm_yields n
  | matMul | shape => exact (n.checkArity_yields _ _).bind fun _ _ => .pure trivial
  | softmax | flatten | gather =>
    refine (n.checkArity_yields _ _).bind fun _ _ => ?_
    exact (n.getD_yields _ _ _).bind fun _ _ => .pure trivial
  | lrn => exact readLrn_yields n
  | lstm => exact readLstm_yields n
  | reshape => exact readReshape_yields n opset
  | squeeze => exact readSqueeze_yields n opset
  | unsqueeze => exact readUnsqueeze_yields n opset
  | concat => exact readConcat_yields n opset
  | constantOfShape => exact readConstantOfShape_yields n opset
  | constant => exact readConstant_yields n
  | slice => exact readSlice_yields n opset
  | reduceMean =>
    refine (n.checkArity_yields _ _).bind fun _ _ => ?_
    refine (n.get?_yields _ _).bind fun _ _ => ?_
    exact (n.getD_yields _ _ _).bind fun _ _ => .pure trivial

theorem read_yields (family : Family) :
    Yields (Fault.Own n.site) (family.read n opset) fun op =>
      op.header = .ofNode n opset ∧ op.action.Checked :=
  (action_yields n opset family).bind fun _ h => .pure ⟨rfl, h⟩

end Family

/-- **What a registry reads**: the faults are those of the node, and the operator has its header. -/
theorem Registry.create_checked (r : Registry) (n : Node) (opset : Int64) :
    Yields (Fault.Own n.site) (r.create n opset) fun op =>
      op.header = .ofNode n opset ∧ op.action.Checked := by
  unfold create
  split
  · exact Family.read_yields n opset _
  · exact .own rfl

theorem Registry.create_yields (r : Registry) (n : Node) (opset : Int64) :
    Yields (Fault.Own n.site) (r.create n opset) fun op =>
      op.header = .ofNode n opset ∧ op.action.FillsOne :=
  (r.create_checked n opset).imp fun _ h => ⟨h.1, h.2.fillsOne⟩

end Lamina
