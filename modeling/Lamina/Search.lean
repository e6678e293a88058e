/-!
# Depth-first search

Two searches over a finite graph given by the neighbours of each vertex. Both end because every step
either takes a vertex from the finite list of those not seen yet, or shortens the stack.

`explore` lists the vertices that can be reached, in the order in which they are found. `postorder`
lists vertices in the order in which they are left for good, the order that a topological sort
reverses.
-/

namespace Lamina.Search

variable {α : Type} [DecidableEq α]

/-- The vertices of a list that are not among some others. -/
def without (vertices removed : List α) : List α := vertices.filter fun v => !removed.contains v

/-- The vertices of a list that are among some others. -/
def among (vertices others : List α) : List α := vertices.filter fun v => others.contains v

theorem mem_among {v : α} {vertices others : List α} :
    v ∈ among vertices others ↔ v ∈ vertices ∧ v ∈ others := by
  simp [among]

theorem length_without_lt {v : α} {vertices removed : List α} (hv : v ∈ vertices)
    (hr : v ∈ removed) : (without vertices removed).length < vertices.length :=
  List.length_filter_lt_length_iff_exists.2 ⟨v, hv, by simpa using hr⟩

@[simp] theorem without_nil (vertices : List α) : without vertices [] = vertices := by
  simp [without]

/-- The unseen vertices of a list, each at its first occurrence. -/
def fresh (unseen vertices : List α) : List α := (among vertices unseen).eraseDups

theorem mem_fresh {v : α} {unseen vertices : List α} :
    v ∈ fresh unseen vertices ↔ v ∈ vertices ∧ v ∈ unseen := by
  rw [fresh, List.mem_eraseDups, mem_among]

/-- The unseen vertices that can be reached from the stack. The neighbours of the top of the stack
are found together; the last of them is searched next. -/
def explore (next : α → List α) (unseen : List α) : List α → List α
  | [] => []
  | v :: stack =>
    let found := fresh unseen (next v)
    found ++ explore next (without unseen found) (found.reverse ++ stack)
termination_by stack => (unseen.length, stack.length)
decreasing_by
  cases h : fresh unseen (next v) with
  | nil => simpa using Prod.Lex.right _ (Nat.lt_succ_self _)
  | cons w ws =>
    have hw : w ∈ fresh unseen (next v) := h ▸ List.mem_cons_self
    exact Prod.Lex.left _ _ (length_without_lt (mem_fresh.1 hw).2 List.mem_cons_self)

/-- Searches from the stack until it is empty. A vertex is seen when it first comes to the top, and
is finished when it is at the top again. The search stops at a vertex that is its own neighbour. -/
def postorder (next : α → List α) (unseen finished : List α) :
    List α → Except α (List α × List α)
  | [] => .ok (unseen, finished)
  | v :: stack =>
    if v ∈ unseen then
      if v ∈ next v then .error v
      else
        let rest := without unseen [v]
        postorder next rest finished ((among (next v) rest).reverse ++ v :: stack)
    else postorder next unseen (if v ∈ finished then finished else finished ++ [v]) stack
termination_by stack => (unseen.length, stack.length)
decreasing_by
  · exact Prod.Lex.left _ _ (length_without_lt (by assumption) List.mem_cons_self)
  · exact Prod.Lex.right _ (Nat.lt_succ_self _)

end Lamina.Search
