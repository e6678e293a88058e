import Mathlib
import Lamina.Proofs.Committing

/-!
# The search through links

The slots that a free axis may take are found by a search through the links: a queue of axes whose
links are still to be followed, and the axes that have been seen. One step takes an axis from the
queue, and puts onto it those at the end of its links that have not been seen (`Search.Loop.step?`).

`Search.explore` says the same with the unseen vertices instead of the seen ones, which shows that
it ends. Here the steps are counted: everything found comes onto the queue once and is taken from it
once (`Search.steps?_explore`).

**Theorem** (`Roles.slotsReached_spec`): in every table, whatever its links, the search ends after
one step for the axis it starts from and one for each axis it finds. It finds the other axes that a
chain of links leads to, each once, and every one of them that has a slot counts once.
-/

namespace Lamina

namespace Search

variable {α : Type} [DecidableEq α] {next : α → List α} {unseen stack seen found : List α}

/-! ### What is found, once each -/

theorem fresh_cons (unseen : List α) (w : α) (vertices : List α) :
    fresh unseen (w :: vertices) =
      if w ∈ unseen then w :: fresh (without unseen [w]) vertices else fresh unseen vertices := by
  unfold fresh among
  split
  · rename_i hw
    rw [List.filter_cons_of_pos (by simpa using hw), List.eraseDups_cons, List.filter_filter]
    congr 2
    apply List.filter_congr
    intro v _
    by_cases hv : v = w <;> simp [without, hv]
  · rename_i hw
    rw [List.filter_cons_of_neg (by simpa using hw)]

theorem nodup_fresh (unseen vertices : List α) : (fresh unseen vertices).Nodup := by
  induction vertices generalizing unseen with
  | nil => simp [fresh, among]
  | cons w vertices ih =>
    rw [fresh_cons]
    split
    · refine List.nodup_cons.2 ⟨fun hw => ?_, ih _⟩
      simpa [mem_without] using (mem_fresh.1 hw).2
    · exact ih _

theorem mem_unseen_of_mem_explore {v : α} (hv : v ∈ explore next unseen stack) : v ∈ unseen := by
  obtain ⟨s, -, hway⟩ := mem_explore.1 hv
  obtain ⟨u, -, hedge⟩ := Relation.TransGen.tail'_iff.1 hway
  exact hedge.2

/-- **Nothing is found twice.** -/
theorem nodup_explore (next : α → List α) (unseen stack : List α) :
    (explore next unseen stack).Nodup := by
  fun_induction explore next unseen stack with
  | case1 unseen => exact List.nodup_nil
  | case2 unseen v stack found ih =>
    refine List.nodup_append.2 ⟨nodup_fresh unseen (next v), ih, ?_⟩
    rintro w hw _ hw' rfl
    exact (mem_without.1 (mem_unseen_of_mem_explore hw')).2 hw

/-! ### Step by step -/

/-- Where a search stands. -/
structure Loop (α : Type) where
  /-- What has been seen. -/
  seen : List α
  /-- What is still to be searched from, the last addition first. -/
  queue : List α
  /-- What has been found, in order. -/
  found : List α

namespace Loop

/-- A vertex at the end of an edge: it is found if it has not been seen. -/
def meet (l : Loop α) (w : α) : Loop α :=
  if w ∈ l.seen then l else ⟨w :: l.seen, w :: l.queue, l.found ++ [w]⟩

/-- Takes a vertex from the queue and meets its neighbours. Without one the search is over. -/
def step? (next : α → List α) (l : Loop α) : Option (Loop α) :=
  match l.queue with
  | [] => none
  | v :: queue => some ((next v).foldl meet { l with queue := queue })

/-- Takes a number of steps. -/
def steps? (next : α → List α) : Nat → Loop α → Option (Loop α)
  | 0, l => some l
  | n + 1, l => l.step? next >>= steps? next n

end Loop

/-- The vertices found among neighbours are those that are fresh. -/
theorem foldl_meet {vertices : List α} (h : ∀ w ∈ vertices, w ∈ unseen ↔ w ∉ seen) :
    vertices.foldl Loop.meet ⟨seen, stack, found⟩ =
      ⟨(fresh unseen vertices).reverse ++ seen, (fresh unseen vertices).reverse ++ stack,
        found ++ fresh unseen vertices⟩ := by
  induction vertices generalizing unseen seen stack found with
  | nil => simp [fresh, among]
  | cons w vertices ih =>
    obtain ⟨hw, hrest⟩ := List.forall_mem_cons.1 h
    rw [List.foldl_cons, fresh_cons]
    by_cases hseen : w ∈ seen
    · have hmeet : Loop.meet ⟨seen, stack, found⟩ w = ⟨seen, stack, found⟩ := if_pos hseen
      rw [hmeet, if_neg fun hunseen => hw.1 hunseen hseen]
      exact ih hrest
    · have hmeet : Loop.meet ⟨seen, stack, found⟩ w = ⟨w :: seen, w :: stack, found ++ [w]⟩ :=
        if_neg hseen
      have hwithout : ∀ v ∈ vertices, v ∈ without unseen [w] ↔ v ∉ w :: seen := by
        intro v hv
        rw [mem_without, hrest v hv]
        simp [and_comm]
      rw [hmeet, if_pos (hw.2 hseen), ih hwithout]
      simp

/-- **The search ends**, after one step for everything on the stack and everything it finds. -/
theorem steps?_explore (next : α → List α) (unseen stack : List α) :
    ∀ seen found, (∀ v, ∀ w ∈ next v, w ∈ unseen ↔ w ∉ seen) →
      ∃ seen', Loop.steps? next (stack.length + (explore next unseen stack).length)
        ⟨seen, stack, found⟩ = some ⟨seen', [], found ++ explore next unseen stack⟩ := by
  fun_induction explore next unseen stack with
  | case1 unseen =>
    intro seen found _
    exact ⟨seen, by simp [Loop.steps?]⟩
  | case2 unseen v stack new ih =>
    intro seen found h
    have hstep : Loop.step? next ⟨seen, v :: stack, found⟩ =
        some ⟨new.reverse ++ seen, new.reverse ++ stack, found ++ new⟩ :=
      congrArg some (foldl_meet (h v))
    -- what is new has been seen from now on
    have hseen : ∀ u, ∀ w ∈ next u, w ∈ without unseen new ↔ w ∉ new.reverse ++ seen := by
      intro u w hw
      rw [mem_without, h u w hw]
      simp [and_comm]
    obtain ⟨seen', hrest⟩ := ih (new.reverse ++ seen) (found ++ new) hseen
    have hcount : (v :: stack).length +
        (new ++ explore next (without unseen new) (new.reverse ++ stack)).length =
        (new.reverse ++ stack).length +
          (explore next (without unseen new) (new.reverse ++ stack)).length + 1 := by
      simp only [List.length_cons, List.length_append, List.length_reverse]
      omega
    refine ⟨seen', ?_⟩
    rw [hcount, Loop.steps?, hstep, Option.bind_eq_bind, Option.bind_some, hrest, List.append_assoc]

end Search

/-! ### Links -/

namespace Roles

open Relation

variable {t : Roles}

/-- The axes with a slot, other than the start, that a chain of links leads to. -/
def holders (t : Roles) (start : Axis) (d : Slot) : Set Axis :=
  {b | b ≠ start ∧ TransGen t.Linked start b ∧ t.role? b.value b.axis = some d}

theorem nodup_linkedAxes (t : Roles) (start : Axis) : (t.linkedAxes start).Nodup :=
  Search.nodup_explore ..

theorem holders_eq (t : Roles) (start : Axis) (d : Slot) :
    t.holders start d =
      ((t.linkedAxes start).filter fun b => t.role? b.value b.axis == some d).toFinset := by
  ext b
  simp [holders, mem_linkedAxes, and_assoc]

/-- **A slot is found once for every axis that has it.** -/
theorem count_slotsReached (t : Roles) (start : Axis) (d : Slot) :
    (t.slotsReached start).count d = (t.holders start d).ncard := by
  rw [holders_eq, Set.ncard_coe_finset,
    List.toFinset_card_of_nodup ((t.nodup_linkedAxes start).filter _), slotsReached,
    List.count_filterMap, List.countP_eq_length_filter]

/-- What is at the end of a link is unseen when the search starts, unless it is the start. -/
theorem mem_unseen_iff {start v w : Axis} (hw : w ∈ t.peers v) :
    w ∈ Search.without (t.links.map Prod.snd) [start] ↔ w ∉ [start] := by
  have hlink : w ∈ t.links.map Prod.snd := List.mem_map_of_mem (mem_peers.1 hw)
  simp [Search.mem_without, hlink]

/-- **The slots behind the links of an axis.** The search for them ends after one step for the start
and one for each axis it finds. It finds the other axes that a chain of links leads to, each once,
and its slots are those of the axes found, a slot as often as there are axes that have it. -/
theorem slotsReached_spec (t : Roles) (start : Axis) :
    (∃ seen, Search.Loop.steps? t.peers ((t.linkedAxes start).length + 1) ⟨[start], [start], []⟩ =
      some ⟨seen, [], t.linkedAxes start⟩) ∧
    (t.linkedAxes start).Nodup ∧
    (∀ b, b ∈ t.linkedAxes start ↔ b ≠ start ∧ TransGen t.Linked start b) ∧
    ∀ d, (d ∈ t.slotsReached start ↔ (t.holders start d).Nonempty) ∧
      (t.holders start d).Finite ∧ (t.slotsReached start).count d = (t.holders start d).ncard := by
  refine ⟨?_, t.nodup_linkedAxes start, fun b => mem_linkedAxes, fun d =>
    ⟨mem_slotsReached, ?_, t.count_slotsReached start d⟩⟩
  · have hends := Search.steps?_explore t.peers _ [start] [start] [] fun _ _ => mem_unseen_iff
    rwa [List.length_singleton, Nat.add_comm] at hends
  · rw [holders_eq]
    exact Finset.finite_toSet _

end Roles

end Lamina
