import Mathlib
import Lamina.Proofs.Layers

/-!
# Layer graphs are append-only

Two things can be asked of a layer graph: to take one more layer under a given name, and to give a
handle on an output of a layer that it has (`LayerCall`). Either may be refused. The calls come in
any order and with any names, kinds, inputs, shapes and layouts.

**Theorem** (`LayerGraph.after_appendOnly`): after every sequence of calls the graph is in order
(`LayerGraph.Sound`), and the layers that it has at some point are the first layers that it has ever
after. A call that is refused changes nothing at all, and a call is refused only if what it needs is
not there.

A call leaves a graph as it is or puts one layer behind the others (`LayerCall.on_spec`). All that
is said about sequences follows from this by induction.
-/

namespace Lamina

variable {g : LayerGraph}

/-- What can be asked of a layer graph. -/
inductive LayerCall where
  /-- One more layer, under exactly this name. -/
  | append (s : LayerSpec)
  /-- A handle on an output. -/
  | handle (o : Outlet) (shape : Shape) (layout : Layout)

namespace LayerCall

/-- The call as a computation that gives nothing back. -/
def lowering : LayerCall → Lowering Unit
  | append s => Functor.discard (Lowering.append s.name s.kind s.inputs)
  | handle o shape layout => Functor.discard (Lowering.handle o shape layout)

/-- How a call on a graph ends, and the graph that it leaves behind. -/
def on (call : LayerCall) (g : LayerGraph) : Except Fault Unit × LayerGraph :=
  call.lowering.run.run g

/-- What a call needs: a name that is not in use and inputs that are there, or an output that is
there and a layout that fits the shape. -/
def Allowed (g : LayerGraph) : LayerCall → Prop
  | append s => g.Admits s
  | handle o shape layout => g.HasOutlet o ∧ layout.fits shape.rank = true

/-- The graph after a call that is not refused. -/
def extended (g : LayerGraph) : LayerCall → LayerGraph
  | append s => g.push s
  | handle .. => g

/-- **One call.** It does what it is to do if it is allowed, and otherwise nothing. -/
theorem on_spec (call : LayerCall) (g : LayerGraph) :
    Runs (fun _ g' => ¬ call.Allowed g ∧ g' = g) g call.lowering fun _ g' =>
      call.Allowed g ∧ g' = call.extended g := by
  cases call with
  | append s =>
    exact ((Lowering.append_spec g s).mono (fun _ _ h => h.2) fun _ _ h => h).map
      fun _ _ h => ⟨h.1, h.2.2⟩
  | handle o shape layout =>
    exact (Lowering.handle_spec g o shape layout).map fun _ _ h => ⟨h.1, h.2.2⟩

/-- The graph is as before, or the call was allowed and has extended it. -/
theorem on_cases (call : LayerCall) (g : LayerGraph) :
    (call.on g).2 = g ∨ call.Allowed g ∧ (call.on g).2 = call.extended g := by
  have hspec := call.on_spec g
  rcases hon : call.on g with ⟨f | u, g'⟩
  · exact .inl (hspec.fault hon).2
  · exact .inr (hspec.value hon)

theorem Allowed.sound_extended {call : LayerCall} (h : call.Allowed g) (hg : g.Sound) :
    (call.extended g).Sound := by
  cases call with
  | append s => exact hg.push h.1 h.2
  | handle => exact hg

theorem layers_extended (call : LayerCall) (g : LayerGraph) :
    g.layers.toList <+: (call.extended g).layers.toList := by
  cases call with
  | append s => simp [extended, LayerGraph.push]
  | handle => exact List.prefix_rfl

theorem sound_on (call : LayerCall) (hg : g.Sound) : (call.on g).2.Sound := by
  rcases call.on_cases g with heq | ⟨hallowed, heq⟩
  · rw [heq]
    exact hg
  · rw [heq]
    exact hallowed.sound_extended hg

theorem layers_on (call : LayerCall) (g : LayerGraph) :
    g.layers.toList <+: (call.on g).2.layers.toList := by
  rcases call.on_cases g with heq | ⟨-, heq⟩
  · rw [heq]
  · rw [heq]
    exact call.layers_extended g

end LayerCall

namespace LayerGraph

/-- The graph that a sequence of calls makes of another. -/
def calledOn (g : LayerGraph) (calls : List LayerCall) : LayerGraph :=
  calls.foldl (fun g call => (call.on g).2) g

/-- The graph after a sequence of calls on the empty one. -/
def after (calls : List LayerCall) : LayerGraph := empty.calledOn calls

theorem after_append (calls later : List LayerCall) :
    after (calls ++ later) = (after calls).calledOn later :=
  List.foldl_append

theorem sound_calledOn (calls : List LayerCall) (hg : g.Sound) : (g.calledOn calls).Sound := by
  induction calls generalizing g with
  | nil => exact hg
  | cons call calls ih => exact ih (call.sound_on hg)

theorem layers_calledOn (g : LayerGraph) (calls : List LayerCall) :
    g.layers.toList <+: (g.calledOn calls).layers.toList := by
  induction calls generalizing g with
  | nil => exact List.prefix_rfl
  | cons call calls ih => exact (call.layers_on g).trans (ih (call.on g).2)

/-- **Layers are appended and never touched again.** After every sequence of calls, refused ones
included, the names of the layers differ and are the names in use, every layer has the outputs of
its kind, and it reads outputs that layers before it have. Whatever is called later, the layers stay
where they are. A call is refused only if it is not allowed, and then the graph is as it was; one
that is not refused appends the layer it is about, or changes nothing if it asks for a handle. -/
theorem after_appendOnly (calls : List LayerCall) :
    (after calls).Sound ∧
    (∀ later : List LayerCall,
      (after calls).layers.toList <+: (after (calls ++ later)).layers.toList) ∧
    ∀ (call : LayerCall) (g : LayerGraph),
      (∀ f, call.on (after calls) = (.error f, g) →
        ¬ call.Allowed (after calls) ∧ g = after calls) ∧
      (call.on (after calls) = (.ok (), g) →
        call.Allowed (after calls) ∧ g = call.extended (after calls)) := by
  refine ⟨sound_calledOn calls sound_empty, ?_, ?_⟩
  · intro later
    rw [after_append]
    exact layers_calledOn (after calls) later
  · intro call g
    have hspec := call.on_spec (after calls)
    exact ⟨fun f hon => hspec.fault hon, fun hon => hspec.value hon⟩

/-- A source and a sink that reads it. Another layer may read the source too, but not under the name
of the sink. -/
theorem after_source_and_sink :
    let calls : List LayerCall := [.append ⟨"x", .source, []⟩, .append ⟨"y", .sink, [⟨0, 0⟩]⟩]
    (∃ f, (LayerCall.append ⟨"y", .softmax, [⟨0, 0⟩]⟩).on (after calls) =
      (.error f, after calls)) ∧
    (LayerCall.append ⟨"z", .softmax, [⟨0, 0⟩]⟩).on (after calls) =
      (.ok (), (after calls).push ⟨"z", .softmax, [⟨0, 0⟩]⟩) := by
  intro calls
  constructor
  · set call : LayerCall := .append ⟨"y", .softmax, [⟨0, 0⟩]⟩
    have hrefused : (call.on (after calls)).1.toOption = none := by decide
    rcases hon : call.on (after calls) with ⟨f | u, g⟩
    · obtain ⟨-, rfl⟩ := ((after_appendOnly calls).2.2 call g).1 f hon
      exact ⟨f, rfl⟩
    · rw [hon] at hrefused
      cases hrefused
  · set call : LayerCall := .append ⟨"z", .softmax, [⟨0, 0⟩]⟩
    have hdone : (call.on (after calls)).1.toOption = some () := by decide
    rcases hon : call.on (after calls) with ⟨f | u, g⟩
    · rw [hon] at hdone
      cases hdone
    · obtain ⟨-, rfl⟩ := ((after_appendOnly calls).2.2 call g).2 hon
      rfl

end LayerGraph

end Lamina
