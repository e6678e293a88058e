import Mathlib
import Lamina.Proofs.Appending
import Lamina.Proofs.Compilation

/-!
# The scope of a compilation is a prefix of names

**Theorem** (`Model.compile_scope`): a compilation under a scope is the compilation without one,
with the scope put in front of the name of every layer. The endpoints are the same, and so is the
fault if it fails; the layers made before a fault differ by their names only as well.

Lowering one vertex is put together from what its operator does, for which there are certificates
(`Operator.lower_renames`), and from sources and sinks. A certificate leaves open what happens if
the layer graph refuses a layer. This is the one fault that would show a name, and no compilation
has it (`Model.Refused.isLayer`).
-/

namespace Lamina

variable {s : String}

/-! ### Lowering a plan -/

namespace Plan

variable (scope : String) (p : Progress)

theorem lowerInput_renames (i : ModelInput) (layout : Layout) :
    Renames s LayerKind.Windowless (lowerInput (s ++ scope) p i layout)
      (lowerInput scope p i layout) := by
  unfold lowerInput
  rw [String.append_assoc]
  exact .bind (.add _ (by rfl) _ _ _) fun h => .pure _

theorem lowerOutput_renames (header : Header) (v : Wire) :
    Renames s LayerKind.Windowless (lowerOutput (s ++ scope) p header v)
      (lowerOutput scope p header v) := by
  unfold lowerOutput
  rw [String.append_assoc]
  refine .lift_bind fun t => ?_
  cases t with
  | constant c => exact .lift _
  | handle h => exact .append_bind (by rfl) _ fun layer => .pure _

theorem lowerOperator_renames (v : Vertex) (op : Operator) (shapes : List Shape)
    (layouts : List Layout) :
    Renames s (fun _ => True) (lowerOperator (s ++ scope) p v op shapes layouts)
      (lowerOperator scope p v op shapes layouts) := by
  unfold lowerOperator
  rw [String.append_assoc]
  refine .bind (.mapM (fun i => .optionMapM (fun _ => .lift _) i) _) fun inputs => ?_
  have hlower := op.lower_renames (s := s)
    ⟨v.header, inputs, shapes, layouts, scope ++ v.header.layerName⟩
  refine .bind (.bind hlower fun _ => .pure _) fun tensors => .ite (.lift _) ?_
  split
  · exact .lift _
  · exact .pure _

variable (plan : Plan)

theorem lowerPending_renames (v : Vertex) (i : Nat) :
    Renames s (fun _ => True) (plan.lowerPending (s ++ scope) p v i)
      (plan.lowerPending scope p v i) := by
  unfold lowerPending
  dsimp only
  split
  · exact (lowerInput_renames scope p _ _).mono fun _ _ => trivial
  · split
    · exact (lowerOutput_renames scope p _ _).mono fun _ _ => trivial
    · exact .lift _
  · exact lowerOperator_renames scope p _ _ _ _
  · exact .lift _

theorem lowerVertex_renames (vertex : Vertex × Nat) :
    Renames s (fun _ => True) (plan.lowerVertex (s ++ scope) p vertex)
      (plan.lowerVertex scope p vertex) := by
  obtain ⟨v, i⟩ := vertex
  refine .ite (.pure _) ?_
  exact .bind (lowerPending_renames scope p plan v i) fun p =>
    .bind (.map (.lift _) _) fun _ => .pure _

/-- **Lowering a plan under a longer scope.** -/
theorem lower_renames :
    Renames s (fun _ => True) (plan.lower (s ++ scope)) (plan.lower scope) :=
  .bind (.foldlM (fun p vertex => lowerVertex_renames scope p plan vertex) _ _) fun _ => .pure _

end Plan

/-! ### Compiling -/

namespace Model

variable {m : Model} {registry : Registry} {f : Fault}

/-- The layer graph refuses no layer of a compilation. -/
theorem Refused.isLayer (h : m.Refused registry f) : f.cause.isLayer = false := by
  cases h with
  | described hkind =>
    unfold Cause.isLayer
    split
    · rename_i cause hcause
      exact absurd (congrArg Cause.kind hcause) hkind
    · rfl
  | unread _ hcreate => exact ((registry.create_yields _ m.opset).fault hcreate).toAt.2.1
  | blamed _ hblames =>
    obtain ⟨v, -, hat⟩ := hblames
    exact hat.2.1

/-- A fresh layer graph is empty, so that a plan is lowered to it. -/
theorem compile_eq (m : Model) (registry : Registry) (options : CompileOptions) :
    m.compile registry options =
      (do (← m.plan registry options).lower options.scope : Lowering Endpoints).run.run .empty :=
  rfl

/-- **A scope is put in front of all names and changes nothing else.** Compiling under a scope ends
as compiling without one, in the same endpoints or in the same fault, and leaves the same layers
behind, with the scope in front of their names. -/
theorem compile_scope (m : Model) (registry : Registry) (options : CompileOptions) :
    m.compile registry options =
      ((m.compile registry { options with scope := "" }).1,
        (m.compile registry { options with scope := "" }).2.inScope options.scope) := by
  have hrenames : Renames options.scope (fun _ => True)
      (do (← m.plan registry options).lower options.scope)
      (do (← m.plan registry { options with scope := "" }).lower "") := by
    refine .lift_bind fun plan => ?_
    have hplan := plan.lower_renames (s := options.scope) ""
    rwa [String.append_empty] at hplan
  have hruns := hrenames.runs .empty
  rw [LayerGraph.inScope_empty, ← compile_eq] at hruns
  rcases hrun : m.compile registry { options with scope := "" } with ⟨f | e, g⟩
  · exact hruns.fault hrun ((m.compileOnto_runs registry _).fault hrun).isLayer
  · exact hruns.value hrun

end Model

end Lamina
