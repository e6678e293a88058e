import Mathlib
import Lamina.Proofs.AppendOnly

/-!
# Fresh names

A layer that is made while a network is lowered gets a name made from a base: the base itself, or
the base with a number behind it. Names of layers are also chosen by whoever wrote the network, so a
name that looks like a numbered one may be in use already, and numbers may be in use with gaps.

The numbers are tried one after another from one on, without a bound (`LayerGraph.Tries`).

**Theorem** (`LayerGraph.freshName_least`): in every layer graph that can come about the search
ends, with the least number that makes a new name, and that number is not greater than the number of
layers. So a layer is never refused because of a name that was found in this way.

The search ends because numbers are written differently: the base and the names before the one that
is found are different names of layers (`LayerGraph.lt_length_of_numbered`).
-/

namespace Lamina.LayerGraph

variable {g : LayerGraph} {base : String}

/-! ### Trying one number after another -/

/-- The numbers are tried from `i` on, and the search ends at `n`. -/
inductive Tries (g : LayerGraph) (base : String) : Nat → Nat → Prop
  | found {n : Nat} : g.hasName (numbered base n) = false → Tries g base n n
  | next {i n : Nat} : g.hasName (numbered base i) = true → Tries g base (i + 1) n →
      Tries g base i n

/-- A search ends at the least number that makes a new name, if there is one. -/
theorem tries_iff {i n : Nat} :
    g.Tries base i n ↔ IsLeast {m | i ≤ m ∧ numbered base m ∉ g.taken} n := by
  constructor
  · intro h
    induction h with
    | found hfree => exact ⟨⟨le_rfl, by simpa [← hasName_iff] using hfree⟩, fun m hm => hm.1⟩
    | next htaken _ ih =>
      refine ⟨⟨Nat.le_of_succ_le ih.1.1, ih.1.2⟩, fun m hm => ih.2 ⟨?_, hm.2⟩⟩
      refine Nat.lt_of_le_of_ne hm.1 ?_
      rintro rfl
      exact hm.2 (hasName_iff.1 htaken)
  · intro h
    -- induction on the numbers that are left to try
    obtain ⟨k, rfl⟩ := Nat.exists_eq_add_of_le h.1.1
    induction k generalizing i with
    | zero => exact .found (by simpa [← hasName_iff] using h.1.2)
    | succ k ih =>
      have htaken : numbered base i ∈ g.taken := by
        by_contra hnew
        have := h.2 ⟨le_rfl, hnew⟩
        omega
      have hshift : i + 1 + k = i + (k + 1) := by omega
      refine .next (hasName_iff.2 htaken) ?_
      rw [← hshift] at h ⊢
      exact ih ⟨⟨Nat.le_add_right _ _, h.1.2⟩, fun m hm => h.2 ⟨Nat.le_of_succ_le hm.1, hm.2⟩⟩

/-! ### Appending under a fresh name -/

/-- A name is complained about only if it is in use. -/
theorem append_nameTaken (g : LayerGraph) (s : LayerSpec) :
    Yields (fun f => f.cause = .layer .nameTaken → s.name ∈ g.taken)
      (g.append s.name s.kind s.inputs) fun _ => True := by
  have houtlet : ∀ o, Yields (fun f => f.cause = .layer .nameTaken → s.name ∈ g.taken)
      (g.checkOutlet o s.name) fun _ => True := by
    intro o
    unfold checkOutlet
    dsimp only
    split
    · exact .fail fun h => by cases h
    · split
      · exact .ok trivial
      · exact .fail fun h => by cases h
  refine (Yields.forM fun o _ => houtlet o).bind fun _ _ => ?_
  split
  · rename_i htaken
    exact .fail fun _ => hasName_iff.1 htaken
  · exact .pure trivial

/-- A layer with a fresh name is refused only if something that it reads is not there. -/
theorem append_freshName (g : LayerGraph) (base : String) (kind : LayerKind)
    (inputs : List Outlet) :
    Yields (fun f => f.cause ≠ .layer .nameTaken ∧ ∃ o ∈ inputs, ¬ g.HasOutlet o)
      (g.append (g.freshName base) kind inputs)
      fun r => r = (g.size, g.push ⟨g.freshName base, kind, inputs⟩) := by
  set s : LayerSpec := ⟨g.freshName base, kind, inputs⟩
  have hnew : s.name ∉ g.taken := g.freshName_notMem base
  have hadmits := g.append_yields s
  have hname := g.append_nameTaken s
  cases happend : g.append s.name s.kind s.inputs with
  | ok r => exact (hadmits.value happend).2
  | error f =>
    refine ⟨fun hcause => hnew (hname.fault happend hcause), ?_⟩
    by_contra hthere
    push Not at hthere
    exact (hadmits.fault happend).2 ⟨hnew, hthere⟩

/-! ### Graphs that can come about -/

theorem Sound.freshName_of_mem (hg : g.Sound) (h : base ∈ g.names) :
    ∃ n, g.freshName base = numbered base n ∧
      IsLeast {m | 1 ≤ m ∧ numbered base m ∉ g.names} n ∧ g.Tries base 1 n ∧ n ≤ g.size := by
  obtain ⟨n, hname, hleast⟩ := LayerGraph.freshName_of_mem ((hg.taken base).2 h)
  refine ⟨n, hname, by simpa only [hg.taken] using hleast, tries_iff.2 hleast, ?_⟩
  -- all numbers before the one that is found are in use
  have hbefore : ∀ i < n - 1, numbered base (i + 1) ∈ g.names := by
    intro i hi
    by_contra hnew
    have := hleast.2 ⟨Nat.le_add_left 1 i, fun htaken => hnew ((hg.taken _).1 htaken)⟩
    omega
  have hlength := lt_length_of_numbered h hbefore
  have hsize : g.names.length = g.size := by simp [LayerGraph.names, size]
  omega

/-- **A fresh name is always found, and it is the first that is free.** Whatever layers have been
appended, and under whatever names, no layer has the name that is made from a base. It is the base
if no layer has that, and otherwise the base with the least number, from one on, that no layer has;
trying the numbers one after another ends there, after at most as many tries as there are layers.
Under that name a layer is appended, unless something that it reads is not there. -/
theorem freshName_least (calls : List LayerCall) (base : String) :
    let g := after calls
    g.freshName base ∉ g.names ∧
    (base ∉ g.names → g.freshName base = base) ∧
    (base ∈ g.names → ∃ n, g.freshName base = numbered base n ∧
      IsLeast {m | 1 ≤ m ∧ numbered base m ∉ g.names} n ∧ g.Tries base 1 n ∧ n ≤ g.size) ∧
    ∀ (kind : LayerKind) (inputs : List Outlet),
      Yields (fun f => f.cause ≠ .layer .nameTaken ∧ ∃ o ∈ inputs, ¬ g.HasOutlet o)
        (g.append (g.freshName base) kind inputs)
        fun r => r = (g.size, g.push ⟨g.freshName base, kind, inputs⟩) := by
  intro g
  have hg : g.Sound := sound_calledOn calls sound_empty
  refine ⟨?_, ?_, hg.freshName_of_mem, g.append_freshName base⟩
  · rw [← hg.taken]
    exact g.freshName_notMem base
  · intro hbase
    exact freshName_of_notMem fun htaken => hbase ((hg.taken base).1 htaken)

/-- Sources whose names look like numbered ones: the gap between them is found, and a base that
looks like a numbered name is numbered once more. -/
theorem freshName_least_gap :
    let g := after [.append ⟨"x", .source, []⟩, .append ⟨"x_1", .source, []⟩,
      .append ⟨"x_3", .source, []⟩]
    g.names = ["x", "x_1", "x_3"] ∧ g.freshName "x" = "x_2" ∧ g.freshName "x_1" = "x_1_1" ∧
      g.Tries "x" 1 2 ∧ g.append "x_2" .source [] = .ok (3, g.push ⟨"x_2", .source, []⟩) := by
  intro g
  have hnames : g.names = ["x", "x_1", "x_3"] := by decide
  have hname : g.freshName "x" = "x_2" := by decide
  obtain ⟨-, -, hnumber, happend⟩ := freshName_least [.append ⟨"x", .source, []⟩,
    .append ⟨"x_1", .source, []⟩, .append ⟨"x_3", .source, []⟩] "x"
  obtain ⟨n, hn, -, htries, -⟩ := hnumber (by decide)
  obtain rfl : n = 2 := numbered_injective "x" (hn.symm.trans hname)
  refine ⟨hnames, hname, by decide, htries, ?_⟩
  have hreads : ∀ f : Fault, f.cause ≠ .layer .nameTaken ∧ (∃ o ∈ [], ¬ g.HasOutlet o) → False := by
    simp
  have hlayer := happend .source []
  rw [hname] at hlayer
  obtain ⟨_, hlayer, rfl⟩ := (hlayer.mono hreads fun _ h => h).exists_ok
  exact hlayer

end Lamina.LayerGraph
