import Mathlib
import Lamina.Search

/-!
# Depth-first search: what is found, and what the finish order says

`Search.explore` finds exactly the vertices that can be reached from the stack through unseen ones
(`mem_explore`).

`Search.postorder` keeps a stack on which a vertex can lie several times. Call a vertex *open* while
it has been seen and is not finished. The invariant `Search.Tracked` says that an open vertex lies
on the stack, that everything above it can be reached from it, and that each of its neighbours is
finished, reaches it, or lies above it.

**Theorem** (`postorder_spec`): a search that starts with every vertex on the stack either stops at
a vertex that is its own neighbour, or finishes every vertex once, and then for every edge from `u`
to `v` either `v` is finished before `u` or `u` can be reached from `v`.

The second alternative closes a cycle. So the reverse of the finish order is a topological order as
soon as there is no cycle, and an edge that points against it lies on one.
-/

set_option linter.unusedSectionVars false

namespace Lamina.Search

open Relation

variable {α : Type} [DecidableEq α]

/-- There is an edge from one vertex to another. -/
def Edge (next : α → List α) (u v : α) : Prop := v ∈ next u

theorem mem_without {v : α} {vertices removed : List α} :
    v ∈ without vertices removed ↔ v ∈ vertices ∧ v ∉ removed := by
  simp [without]

/-- An open vertex is on the stack: it reaches everything above it, and each of its neighbours is
finished, reaches it, or lies above it. -/
def OpenOn (next : α → List α) (finished stack : List α) (u : α) : Prop :=
  ∃ above below, stack = above ++ u :: below ∧ u ∉ above ∧
    (∀ w ∈ above, ReflTransGen (Edge next) u w) ∧
    ∀ v ∈ next u, v ∈ finished ∨ ReflTransGen (Edge next) v u ∨ v ∈ above

/-- One vertex comes before another in a list. -/
def Before (order : List α) (v u : α) : Prop := [v, u].Sublist order

/-- What a search over `vertices` keeps true of the unseen vertices, the finished ones and the
stack. -/
structure Tracked (next : α → List α) (vertices unseen finished stack : List α) : Prop where
  /-- Neighbours are vertices. -/
  closed : ∀ u ∈ vertices, ∀ v ∈ next u, v ∈ vertices
  /-- Only vertices are on the stack. -/
  stack_sub : ∀ v ∈ stack, v ∈ vertices
  /-- Unseen vertices are on the stack. -/
  unseen_sub : ∀ v ∈ unseen, v ∈ stack
  /-- A finished vertex has been seen. -/
  disjoint : ∀ v ∈ finished, v ∈ vertices ∧ v ∉ unseen
  /-- A vertex is finished once. -/
  nodup : finished.Nodup
  /-- A vertex that has been seen and is not finished is open. -/
  opened : ∀ u ∈ vertices, u ∉ unseen → u ∉ finished → OpenOn next finished stack u
  /-- A vertex that has been seen is not its own neighbour. -/
  loopless : ∀ u ∈ vertices, u ∉ unseen → u ∉ next u
  /-- The edges of finished vertices. -/
  edges : ∀ u ∈ finished, ∀ v ∈ next u, Before finished v u ∨ ReflTransGen (Edge next) v u

variable {next : α → List α} {vertices unseen finished stack : List α}

/-- Neighbours of vertices being vertices, the invariant holds when nothing is seen yet. -/
theorem Tracked.start (closed : ∀ u ∈ vertices, ∀ v ∈ next u, v ∈ vertices) :
    Tracked next vertices vertices [] vertices where
  closed := closed
  stack_sub _ hv := hv
  unseen_sub _ hv := hv
  disjoint _ hv := absurd hv List.not_mem_nil
  nodup := List.nodup_nil
  opened _ hu hn _ := absurd hu hn
  loopless _ hu hn := absurd hu hn
  edges _ hu := absurd hu List.not_mem_nil

/-! ### Which of two vertices comes first -/

theorem Before.append {order more : List α} {u v : α} (h : Before order v u) :
    Before (order ++ more) v u :=
  h.trans (List.sublist_append_left order more)

theorem before_of_mem_left {front back : List α} {u v : α} (hv : v ∈ front) :
    Before (front ++ u :: back) v u :=
  (List.singleton_sublist.2 hv).append (List.singleton_sublist.2 List.mem_cons_self)

theorem before_of_mem_right {front back : List α} {u v : α} (hv : v ∈ back) :
    Before (front ++ u :: back) u v :=
  ((List.singleton_sublist.2 hv).cons_cons u).trans (List.sublist_append_right front _)

theorem before_reverse {order : List α} {u v : α} :
    Before order.reverse v u ↔ Before order u v := by
  unfold Before
  rw [← List.reverse_sublist]
  simp

/-- In a list without repetitions, what comes before has the smaller position. -/
theorem Before.idxOf_lt {order : List α} {u v : α} (hnodup : order.Nodup) (h : Before order v u) :
    order.idxOf v < order.idxOf u := by
  induction order with
  | nil => cases h
  | cons x order ih =>
    obtain ⟨hx, hnodup⟩ := List.nodup_cons.1 hnodup
    cases h with
    | cons _ h =>
      have hv : x ≠ v := fun hxv => hx (hxv ▸ h.mem (by simp))
      have hu : x ≠ u := fun hxu => hx (hxu ▸ h.mem (by simp))
      rw [List.idxOf_cons_ne _ hv, List.idxOf_cons_ne _ hu]
      exact Nat.succ_lt_succ (ih hnodup h)
    | cons_cons _ h =>
      have hu : v ≠ u := fun hvu => hx (hvu ▸ List.singleton_sublist.1 h)
      rw [List.idxOf_cons_self, List.idxOf_cons_ne _ hu]
      exact Nat.succ_pos _

/-! ### An open vertex below the top of the stack -/

/-- The top of the stack lies above every other vertex on it. -/
theorem above_eq_cons {u v : α} {above below : List α} (h : v :: stack = above ++ u :: below)
    (hne : u ≠ v) : ∃ rest, above = v :: rest ∧ stack = rest ++ u :: below := by
  rcases above with _ | ⟨x, rest⟩
  · simp only [List.nil_append, List.cons.injEq] at h
    exact absurd h.1.symm hne
  · simp only [List.cons_append, List.cons.injEq] at h
    obtain ⟨rfl, hstack⟩ := h
    exact ⟨rest, rfl, hstack⟩

/-- An open vertex reaches the top of the stack. -/
theorem OpenOn.reaches_top {u v : α} (h : OpenOn next finished (v :: stack) u) (hne : u ≠ v) :
    ReflTransGen (Edge next) u v := by
  obtain ⟨above, below, hstack, -, hreach, -⟩ := h
  obtain ⟨rest, rfl, -⟩ := above_eq_cons hstack hne
  exact hreach v List.mem_cons_self

/-- A vertex below the top stays open when the top is taken off and counts as finished. -/
theorem OpenOn.pop {u v : α} {finished' : List α} (h : OpenOn next finished (v :: stack) u)
    (hne : u ≠ v) (hsub : ∀ w ∈ finished, w ∈ finished') (hv : v ∈ finished') :
    OpenOn next finished' stack u := by
  obtain ⟨above, below, hstack, hnot, hreach, hnext⟩ := h
  obtain ⟨rest, rfl, hrest⟩ := above_eq_cons hstack hne
  refine ⟨rest, below, hrest, fun hmem => hnot (List.mem_cons_of_mem v hmem),
    fun w hw => hreach w (List.mem_cons_of_mem v hw), fun w hw => ?_⟩
  rcases hnext w hw with hw' | hw' | hw'
  · exact .inl (hsub w hw')
  · exact .inr (.inl hw')
  · rcases List.mem_cons.1 hw' with rfl | hw'
    · exact .inl hv
    · exact .inr (.inr hw')

/-- A vertex below the top stays open when neighbours of the top are put onto the stack. -/
theorem OpenOn.push {u v : α} {found : List α} (h : OpenOn next finished (v :: stack) u)
    (hne : u ≠ v) (hfound : ∀ w ∈ found, w ∈ next v) (hu : u ∉ found) :
    OpenOn next finished (found ++ v :: stack) u := by
  have htop := h.reaches_top hne
  obtain ⟨above, below, hstack, hnot, hreach, hnext⟩ := h
  refine ⟨found ++ above, below, by rw [hstack, List.append_assoc], ?_, ?_, fun w hw => ?_⟩
  · intro hmem
    exact (List.mem_append.1 hmem).elim hu hnot
  · intro w hw
    rcases List.mem_append.1 hw with hw | hw
    · exact htop.tail (hfound w hw)
    · exact hreach w hw
  · exact (hnext w hw).imp_right (Or.imp_right (List.mem_append_right found))

/-! ### The three steps of the search -/

/-- An unseen vertex at the top is opened: its unseen neighbours come to lie above it. -/
theorem Tracked.see {v : α} (h : Tracked next vertices unseen finished (v :: stack))
    (hself : v ∉ next v) :
    Tracked next vertices (without unseen [v]) finished
      ((among (next v) (without unseen [v])).reverse ++ v :: stack) where
  closed := h.closed
  stack_sub := by
    intro w hw
    rcases List.mem_append.1 hw with hw | hw
    · rw [List.mem_reverse, mem_among] at hw
      exact h.closed v (h.stack_sub v List.mem_cons_self) w hw.1
    · exact h.stack_sub w hw
  unseen_sub w hw := List.mem_append_right _ (h.unseen_sub w (mem_without.1 hw).1)
  disjoint w hw := ⟨(h.disjoint w hw).1, fun hu => (h.disjoint w hw).2 (mem_without.1 hu).1⟩
  nodup := h.nodup
  opened := by
    intro u hu hseen hfin
    have hfound : ∀ w ∈ (among (next v) (without unseen [v])).reverse,
        w ∈ next v ∧ w ∈ without unseen [v] := by
      intro w hw
      rwa [List.mem_reverse, mem_among] at hw
    by_cases huv : u = v
    · -- the vertex just opened: its unseen neighbours are above, an open one reaches it
      subst huv
      refine ⟨_, stack, rfl, fun hmem => hseen (hfound u hmem).2,
        fun w hw => ReflTransGen.single (hfound w hw).1, fun w hw => ?_⟩
      by_cases hwu : w ∈ without unseen [u]
      · exact .inr (.inr (List.mem_reverse.2 (mem_among.2 ⟨hw, hwu⟩)))
      · by_cases hwf : w ∈ finished
        · exact .inl hwf
        · by_cases hwe : w = u
          · exact .inr (.inl (hwe ▸ ReflTransGen.refl))
          · have hw' : w ∉ unseen := fun hin => hwu (mem_without.2 ⟨hin, by simpa using hwe⟩)
            exact .inr (.inl ((h.opened w (h.closed u hu w hw) hw' hwf).reaches_top hwe))
    · have hu' : u ∉ unseen := fun hin => hseen (mem_without.2 ⟨hin, by simpa using huv⟩)
      exact (h.opened u hu hu' hfin).push huv (fun w hw => (hfound w hw).1)
        fun hmem => hseen (hfound u hmem).2
  loopless := by
    intro u hu hseen
    by_cases huv : u = v
    · exact huv ▸ hself
    · exact h.loopless u hu fun hin => hseen (mem_without.2 ⟨hin, by simpa using huv⟩)
  edges := h.edges

/-- What a step that takes a seen vertex off the stack keeps, whether it is finished by that or was
so before. -/
theorem Tracked.take {v : α} {finished' : List α}
    (h : Tracked next vertices unseen finished (v :: stack)) (hv : v ∉ unseen)
    (hmem : ∀ w, w ∈ finished' ↔ w ∈ finished ∨ w = v) (hnodup : finished'.Nodup)
    (hedges : ∀ u ∈ finished', ∀ w ∈ next u,
      Before finished' w u ∨ ReflTransGen (Edge next) w u) :
    Tracked next vertices unseen finished' stack where
  closed := h.closed
  stack_sub w hw := h.stack_sub w (List.mem_cons_of_mem v hw)
  unseen_sub := by
    intro w hw
    rcases List.mem_cons.1 (h.unseen_sub w hw) with rfl | hw'
    · exact absurd hw hv
    · exact hw'
  disjoint := by
    intro w hw
    rcases (hmem w).1 hw with hw | rfl
    · exact h.disjoint w hw
    · exact ⟨h.stack_sub w List.mem_cons_self, hv⟩
  nodup := hnodup
  opened := by
    intro u hu hseen hfin
    have hne : u ≠ v := fun huv => hfin ((hmem u).2 (.inr huv))
    have hfin' : u ∉ finished := fun hin => hfin ((hmem u).2 (.inl hin))
    exact (h.opened u hu hseen hfin').pop hne (fun w hw => (hmem w).2 (.inl hw))
      ((hmem v).2 (.inr rfl))
  loopless := h.loopless
  edges := hedges

/-- An open vertex at the top is finished: nothing lies above it, so each of its neighbours is
finished or reaches it. -/
theorem Tracked.finish {v : α} (h : Tracked next vertices unseen finished (v :: stack))
    (hv : v ∉ unseen) (hf : v ∉ finished) :
    Tracked next vertices unseen (finished ++ [v]) stack := by
  refine h.take hv (by simp) ?_ ?_
  · rw [List.nodup_append]
    refine ⟨h.nodup, List.nodup_singleton v, ?_⟩
    intro a ha b hb hab
    obtain rfl := List.mem_singleton.1 hb
    exact hf (hab ▸ ha)
  · intro u hu w hw
    rcases List.mem_append.1 hu with hu | hu
    · exact (h.edges u hu w hw).imp_left Before.append
    · obtain rfl := List.mem_singleton.1 hu
      obtain ⟨above, below, hstack, hnot, -, hnext⟩ :=
        h.opened u (h.stack_sub u List.mem_cons_self) hv hf
      have habove : above = [] := by
        rcases above with _ | ⟨x, above⟩
        · rfl
        · simp only [List.cons_append, List.cons.injEq] at hstack
          exact absurd (hstack.1 ▸ List.mem_cons_self) hnot
      rcases hnext w hw with hw' | hw' | hw'
      · exact .inl (before_of_mem_left hw')
      · exact .inr hw'
      · exact absurd (habove ▸ hw') List.not_mem_nil

/-! ### The whole search -/

/-- The search keeps its invariant until the stack is empty, or stops at a vertex that is its own
neighbour. -/
theorem postorder_tracked (h : Tracked next vertices unseen finished stack) :
    match postorder next unseen finished stack with
    | .ok (unseen', finished') => Tracked next vertices unseen' finished' []
    | .error v => v ∈ vertices ∧ v ∈ next v := by
  fun_induction postorder next unseen finished stack with
  | case1 unseen finished => exact h
  | case2 unseen finished v stack _ hself =>
    exact ⟨h.stack_sub v List.mem_cons_self, hself⟩
  | case3 unseen finished v stack _ hself rest ih => exact ih (h.see hself)
  | case4 unseen finished v stack hmem ih =>
    refine ih ?_
    split
    · rename_i hf
      exact h.take hmem (fun w => ⟨.inl, fun hw => hw.elim id (· ▸ hf)⟩) h.nodup h.edges
    · exact h.finish hmem ‹_›

/-- A search with every vertex on the stack finishes every vertex once, in an order that only edges
on a cycle point against, unless it stops at a vertex that is its own neighbour. -/
theorem postorder_spec (hnodup : vertices.Nodup)
    (closed : ∀ u ∈ vertices, ∀ v ∈ next u, v ∈ vertices) :
    match postorder next vertices [] vertices with
    | .ok (_, order) => order.Perm vertices ∧ (∀ u ∈ vertices, u ∉ next u) ∧
        ∀ u ∈ vertices, ∀ v ∈ next u, Before order v u ∨ ReflTransGen (Edge next) v u
    | .error v => v ∈ vertices ∧ v ∈ next v := by
  have h := postorder_tracked (Tracked.start closed)
  split
  · rename_i unseen order heq
    rw [heq] at h
    have hseen : ∀ v, v ∉ unseen := fun v hu => absurd (h.unseen_sub v hu) List.not_mem_nil
    have hmem : ∀ v, v ∈ order ↔ v ∈ vertices := by
      intro v
      refine ⟨fun hv => (h.disjoint v hv).1, fun hv => ?_⟩
      by_contra hfin
      obtain ⟨above, below, hstack, -⟩ := h.opened v hv (hseen v) hfin
      simp at hstack
    refine ⟨(List.perm_ext_iff_of_nodup h.nodup hnodup).2 hmem,
      fun u hu => h.loopless u hu (hseen u), fun u hu v hv => ?_⟩
    exact h.edges u ((hmem u).2 hu) v hv
  · rename_i v heq
    rw [heq] at h
    exact h

/-! ### What is found -/

/-- There is an edge from one vertex to another that has not been seen. -/
def EdgeInto (next : α → List α) (unseen : List α) (u v : α) : Prop := v ∈ next u ∧ v ∈ unseen

variable {unseen stack : List α} {v : α}

/-- A way from the stack ends at a neighbour of its top, or can be taken from what is on the stack
next through the vertices that are unseen then. -/
theorem way_past_fresh {s w : α} (hs : s ∈ v :: stack)
    (hway : TransGen (EdgeInto next unseen) s w) :
    w ∈ fresh unseen (next v) ∨ ∃ s' ∈ (fresh unseen (next v)).reverse ++ stack,
      TransGen (EdgeInto next (without unseen (fresh unseen (next v)))) s' w := by
  induction hway with
  | @single w hedge =>
    by_cases hw : w ∈ fresh unseen (next v)
    · exact .inl hw
    · rcases List.mem_cons.1 hs with rfl | hs
      · exact absurd (mem_fresh.2 hedge) hw
      · exact .inr ⟨s, List.mem_append_right _ hs,
          .single ⟨hedge.1, mem_without.2 ⟨hedge.2, hw⟩⟩⟩
  | @tail u w _ hedge ih =>
    by_cases hw : w ∈ fresh unseen (next v)
    · exact .inl hw
    · have hlast : EdgeInto next (without unseen (fresh unseen (next v))) u w :=
        ⟨hedge.1, mem_without.2 ⟨hedge.2, hw⟩⟩
      right
      rcases ih with hu | ⟨s', hs', hway⟩
      · exact ⟨u, List.mem_append_left _ (List.mem_reverse.2 hu), .single hlast⟩
      · exact ⟨s', hs', hway.tail hlast⟩

/-- **The search finds what can be reached.** -/
theorem mem_explore :
    v ∈ explore next unseen stack ↔ ∃ s ∈ stack, TransGen (EdgeInto next unseen) s v := by
  fun_induction explore next unseen stack with
  | case1 unseen => simp
  | case2 unseen u stack found ih =>
    rw [List.mem_append, ih]
    constructor
    · have hwiden : TransGen (EdgeInto next (without unseen found)) ≤
          TransGen (EdgeInto next unseen) := by
        apply TransGen.mono
        intro a b hedge
        exact ⟨hedge.1, (mem_without.1 hedge.2).1⟩
      rintro (hv | ⟨s, hs, hway⟩)
      · exact ⟨u, List.mem_cons_self, .single (mem_fresh.1 hv)⟩
      · rcases List.mem_append.1 hs with hs | hs
        · have hfirst : EdgeInto next unseen u s := mem_fresh.1 (List.mem_reverse.1 hs)
          exact ⟨u, List.mem_cons_self, .head hfirst (hwiden _ _ hway)⟩
        · exact ⟨s, List.mem_cons_of_mem u hs, hwiden _ _ hway⟩
    · rintro ⟨s, hs, hway⟩
      exact way_past_fresh hs hway

end Lamina.Search
