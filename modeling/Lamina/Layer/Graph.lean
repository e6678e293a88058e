import Lamina.Layer

/-!
# Layer graphs

A layer graph only grows: a layer is appended, and from then on its outputs can be read. A layer
reads outputs of layers that come before it, and no two layers have the same name.

Lowering is a computation in `Lowering`: it extends a graph and may fail. What was appended before a
failure stays, so that a caller can see how far it came.
-/

namespace Lamina

/-- Layers in the order in which they were appended. -/
structure LayerGraph where
  /-- The layers. -/
  layers : Array Layer
  /-- The names in use, the latest first. -/
  taken : List String

/-- A computation that extends a layer graph, keeping what it appended when it fails. -/
abbrev Lowering := ExceptT Fault (StateM LayerGraph)

namespace LayerGraph

/-- The graph without layers. -/
def empty : LayerGraph := ⟨#[], []⟩

/-- Number of layers. -/
def size (g : LayerGraph) : Nat := g.layers.size

/-- The names of the layers. -/
def names (g : LayerGraph) : List String := g.layers.toList.map Layer.name

/-- Whether a name is in use. -/
def hasName (g : LayerGraph) (name : String) : Bool := g.taken.contains name

/-- The layer at a position. -/
def layer? (g : LayerGraph) (i : Nat) : Option Layer := g.layers[i]?

/-! ### Names -/

/-- A name with a number behind it. -/
def numbered (base : String) (n : Nat) : String := s!"{base}_{n}"

/-- The base itself if it is not in use, and otherwise the base with the least number, from one on,
that makes a name not in use. One more candidate than there are names in use always suffices. -/
def freshName (g : LayerGraph) (base : String) : String :=
  if g.hasName base then
    let candidates := (List.range (g.taken.length + 1)).map fun i => numbered base (i + 1)
    (candidates.find? fun n => !g.hasName n).getD base
  else base

/-! ### Outlets -/

/-- Checks that an outlet exists. -/
def checkOutlet (g : LayerGraph) (outlet : Outlet) (node : String) : Except Fault Unit :=
  let site : Site := ⟨"LayerGraph", node⟩
  match g.layer? outlet.layer with
  | none => site.fail (.layer (.forwardReference outlet.layer))
  | some l =>
    if outlet.index < l.outputCount then .ok ()
    else site.fail (.layer (.noOutput l.name outlet.index l.outputCount))

/-- The graph with one more layer, whose name is then in use. -/
def push (g : LayerGraph) (s : LayerSpec) : LayerGraph :=
  ⟨g.layers.push s.layer, s.name :: g.taken⟩

/-- The graph with one more layer, and the position of that layer. -/
def append (g : LayerGraph) (name : String) (kind : LayerKind) (inputs : List Outlet) :
    Except Fault (Nat × LayerGraph) := do
  inputs.forM fun outlet => g.checkOutlet outlet name
  if g.hasName name then Site.fail ⟨"LayerGraph", name⟩ (.layer .nameTaken)
  else return (g.size, g.push ⟨name, kind, inputs⟩)

/-- A handle on an outlet. -/
def handle (g : LayerGraph) (outlet : Outlet) (shape : Shape) (layout : Layout) :
    Except Fault Handle := do
  g.checkOutlet outlet "output_of"
  if layout.fits shape.rank then return ⟨shape, layout, outlet⟩
  else Site.fail ⟨"LayerGraph", "output_of"⟩ (.tensor (.layoutMismatch layout shape))

/-! ### Queries -/

/-- Number of layers of a kind. -/
def countKind (g : LayerGraph) (name : String) : Nat := g.layers.countP fun l => l.kind.name == name

/-- The layers that read an output of a layer. -/
def consumers (g : LayerGraph) (layer : Nat) : List Nat :=
  (g.layers.toList.zipIdx.filter fun (l, _) => l.inputs.any fun p => p.layer == layer).map Prod.snd

/-- The text of each layer: its name and, on a second line, its kind. -/
def labels (g : LayerGraph) : List String :=
  g.layers.toList.map fun l => l.name ++ "\n" ++ l.kind.text

/-- The connections: the layer read, the layer that reads, and the output read. -/
def edges (g : LayerGraph) : List (Nat × Nat × Nat) :=
  g.layers.toList.zipIdx.flatMap fun (l, i) => l.inputs.map fun p => (p.layer, i, p.index)

/-- A text inside a quoted label: quotes and backslashes get a backslash in front, and a line break
becomes a left-aligned one. -/
def labelText (s : String) : String :=
  String.join (s.toList.map fun c =>
    if c == '"' || c == '\\' then "\\" ++ c.toString else if c == '\n' then "\\l" else c.toString)

/-- The graph in the notation of graph drawing tools. -/
def digraph (g : LayerGraph) : String :=
  let nodes := g.labels.zipIdx.map fun (label, i) =>
    "    " ++ toString i ++ " [ label = \"" ++ labelText (Text.quoted label) ++ "\" ]\n"
  let arrows := g.edges.map fun (a, b, _) => s!"    {a} -> {b} [ ]\n"
  "digraph \x7b\n" ++ String.join nodes ++ String.join arrows ++ "\x7d\n"

end LayerGraph

/-! ### Lowering steps -/

namespace Lowering

/-- Appends a layer of exactly this name. -/
def append (name : String) (kind : LayerKind) (inputs : List Outlet) : Lowering Nat := do
  let (i, g) ← (← get).append name kind inputs
  set g
  return i

/-- A handle on an existing outlet. -/
def handle (outlet : Outlet) (shape : Shape) (layout : Layout) : Lowering Handle := do
  (← get).handle outlet shape layout

/-- Appends a layer under the unique name made from a base, and gives a handle on its output. -/
def add (base : String) (kind : LayerKind) (inputs : List Outlet) (shape : Shape)
    (layout : Layout) : Lowering Handle := do
  let i ← append ((← get).freshName base) kind inputs
  handle ⟨i, 0⟩ shape layout

end Lowering

end Lamina
