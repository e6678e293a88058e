import Mathlib
import Lamina.Proofs.Planning

/-!
# What inference finds is the solution of a network

Inference goes through a network once, and what it knows at a vertex is only what it has found so
far. In the end this makes no difference: what is known about the values of a vertex is what the
vertex makes of everything that is known. Such facts solve the network (`Facts.Solves`).

**Theorem** (`Network.infer_eq_ok_iff`): inference of a network in order succeeds with facts iff
they solve the network.

So two networks can be compared by comparing their vertices (`Vertex.Alike`), without going through
them in step.
-/

namespace Lamina

variable {facts facts' : Facts} {vertices : List Vertex} {found : Inferred} {v v' : Vertex}

/-! ### What a vertex depends on -/

theorem Facts.operand_eq_ok {h : Header} {i : Option Wire} {op : Option Operand} :
    facts.operand h i = .ok op ↔ Option.Rel (fun w op => facts.find? w = some op) i op := by
  cases i with
  | none =>
    constructor
    · intro h
      cases h
      exact .none
    · intro h
      cases h
      rfl
  | some w =>
    unfold operand
    dsimp only
    cases hw : facts.find? w with
    | none =>
      refine ⟨fun h => absurd h Site.fail_ne_ok, fun h => ?_⟩
      cases h with
      | some h =>
        rw [hw] at h
        cases h
    | some found =>
      constructor
      · intro h
        cases h
        exact .some hw
      · intro h
        cases h with
        | some h =>
          rw [hw] at h
          cases h
          rfl

theorem Facts.operands_eq_ok {h : Header} {inputs : List (Option Wire)}
    {ops : List (Option Operand)} :
    inputs.mapM (facts.operand h) = .ok ops ↔ facts.Operands inputs ops := by
  rw [mapM_eq_ok]
  simp only [operand_eq_ok]
  rfl

/-- Two vertices that do the same with inputs that correspond. -/
structure Vertex.Alike (Same : Wire → Wire → Prop) (v v' : Vertex) : Prop where
  header : v.header = v'.header
  kind : v.kind = v'.kind
  outputs : v.outputs = v'.outputs
  inputs : List.Forall₂ (Option.Rel Same) v.inputs v'.inputs

/-- What is known about inputs that correspond is known about both. -/
theorem Facts.Operands.transfer {Same : Wire → Wire → Prop} {inputs inputs' : List (Option Wire)}
    {ops : List (Option Operand)} (hinputs : List.Forall₂ (Option.Rel Same) inputs inputs')
    (hfind : ∀ w w', Same w w' → ∀ op, facts.find? w = some op → facts'.find? w' = some op)
    (hops : facts.Operands inputs ops) : facts'.Operands inputs' ops := by
  refine forall₂_comp ?_ hinputs.flip hops
  intro i' i op hi hop
  cases hi with
  | none =>
    cases hop
    exact .none
  | some hsame =>
    cases hop with
    | some hop => exact .some (hfind _ _ hsame _ hop)

/-- **A vertex depends on what is known about its inputs only.** -/
theorem Vertex.Alike.infer {Same : Wire → Wire → Prop} (h : v.Alike Same v')
    (hfind : ∀ w w', Same w w' → ∀ op, facts.find? w = some op → facts'.find? w' = some op)
    (hv : v.infer facts = .ok found) : v'.infer facts' = .ok found := by
  unfold Vertex.infer at hv ⊢
  rw [← h.kind]
  cases hkind : v.kind with
  | input declared =>
    rw [hkind] at hv
    exact hv
  | constant c =>
    rw [hkind] at hv
    exact hv
  | output =>
    rw [hkind] at hv
    exact hv
  | operator op =>
    rw [hkind] at hv
    dsimp only at hv ⊢
    unfold inferOperator at hv ⊢
    obtain ⟨ops, hops, hrest⟩ := bind_eq_ok.1 hv
    refine bind_eq_ok.2 ⟨ops, ?_, ?_⟩
    · exact Facts.operands_eq_ok.2 ((Facts.operands_eq_ok.1 hops).transfer h.inputs hfind)
    · rw [← h.header]
      unfold checkOutputs at hrest ⊢
      rw [← h.outputs, ← h.header]
      exact hrest

/-- What a vertex makes of what is known stays when more becomes known about its inputs. -/
theorem Vertex.infer_mono
    (hfind : ∀ w, some w ∈ v.inputs → ∀ op, facts.find? w = some op → facts'.find? w = some op)
    (hv : v.infer facts = .ok found) : v.infer facts' = .ok found := by
  have hsame : v.Alike (fun w w' => w = w' ∧ some w ∈ v.inputs) v := by
    refine ⟨rfl, rfl, rfl, List.forall₂_same.2 fun i hi => ?_⟩
    cases i with
    | none => exact .none
    | some w => exact .some ⟨rfl, hi⟩
  refine hsame.infer ?_ hv
  rintro w w' ⟨rfl, hw⟩
  exact hfind w hw

/-! ### Solutions -/

/-- Every vertex makes of the facts what they say about its values. -/
structure Facts.Solves (facts : Facts) (vertices : List Vertex) : Prop where
  size : facts.size = vertices.length
  vertex : ∀ (i : Nat) (v : Vertex), vertices[i]? = some v →
    ∃ found, v.infer facts = .ok found ∧ facts[i]? = some found.values

/-- The vertices that were computed are marked. -/
def Marks (facts : Facts) (vertices : List Vertex) (marked : Array Vertex) : Prop :=
  ∀ (i : Nat) (v : Vertex), vertices[i]? = some v → ∀ found, v.infer facts = .ok found →
    marked[i]? = some { v with state := found.state }

/-- What inference adds for one vertex, which depends on the vertex only. -/
theorem Network.inferVertex_of_infer {marked : Array Vertex} (hv : v.state = .pending)
    (hfound : v.infer facts = .ok found) :
    inferVertex (marked, facts) v =
      .ok (marked.push { v with state := found.state }, facts.push found.values) := by
  unfold inferVertex
  refine bind_eq_ok.2 ⟨found, hfound, ?_⟩
  dsimp only
  split
  · rename_i hfolded
    refine bind_eq_ok.2 ⟨{ v with state := .folded }, by simp [Vertex.transition, hv], ?_⟩
    rw [Inferred.state, if_pos hfolded]
    rfl
  · rename_i hpending
    refine bind_eq_ok.2 ⟨v, rfl, ?_⟩
    have hsame : { v with state := found.state } = v := by
      rw [Inferred.state, if_neg hpending, ← hv]
    rw [hsame]
    rfl

/-- One more vertex, which makes something of what is known. -/
theorem Facts.Solves.push (h : facts.Solves vertices) (hv : v.infer facts = .ok found) :
    Facts.Solves (facts.push found.values) (vertices ++ [v]) where
  size := by simp [h.size]
  vertex i u hu := by
    have hkept : ∀ {u : Vertex} {found' : Inferred}, u.infer facts = .ok found' →
        u.infer (facts.push found.values) = .ok found' :=
      Vertex.infer_mono fun w _ op hop => Facts.find?_push hop _
    rw [Array.getElem?_push, h.size]
    split
    · rename_i hi
      obtain rfl : v = u := by simpa [hi] using hu
      exact ⟨found, hkept hv, rfl⟩
    · rename_i hi
      have hlt : i < (vertices ++ [v]).length := (List.getElem?_eq_some_iff.1 hu).1
      rw [List.getElem?_append_left (by simp at hlt; omega)] at hu
      obtain ⟨found', hfound', hvalues⟩ := h.vertex i u hu
      exact ⟨found', hkept hfound', hvalues⟩

theorem Marks.push {marked : Array Vertex} (h : Marks facts vertices marked)
    (hsolves : facts.Solves vertices) (hsize : marked.size = vertices.length)
    (hv : v.infer facts = .ok found) :
    Marks (facts.push found.values) (vertices ++ [v])
      (marked.push { v with state := found.state }) := by
  intro i u hu found' hfound'
  have hkept : ∀ {u : Vertex} {found' : Inferred}, u.infer facts = .ok found' →
      u.infer (facts.push found.values) = .ok found' :=
    Vertex.infer_mono fun w _ op hop => Facts.find?_push hop _
  rw [Array.getElem?_push, hsize]
  split
  · rename_i hi
    obtain rfl : v = u := by simpa [hi] using hu
    rw [hkept hv] at hfound'
    cases hfound'
    rfl
  · rename_i hi
    have hlt : i < (vertices ++ [v]).length := (List.getElem?_eq_some_iff.1 hu).1
    rw [List.getElem?_append_left (by simp at hlt; omega)] at hu
    obtain ⟨found'', hbefore, -⟩ := hsolves.vertex i u hu
    rw [hkept hbefore] at hfound'
    cases hfound'
    exact h i u hu _ hbefore

namespace Network

variable {n : Network}

/-- **What inference finds solves the network**, and the vertices that it computes are marked. -/
theorem infer_solves (hn : n.Ordered) :
    Yields (fun _ => True) n.infer fun r => r.2.Solves n.vertices.toList ∧
      Marks r.2 n.vertices.toList r.1.vertices := by
  unfold infer
  rw [← Array.foldlM_toList]
  refine (Yields.foldlM_passed (I := fun passed r => r.2.Solves passed ∧
    r.1.size = passed.length ∧ Marks r.2 passed r.1) ?_ ?_).bind ?_
  · rintro passed v rest hsplit ⟨marked, facts⟩ ⟨hsolves, hsize, hmarks⟩
    have hv : n.vertices.toList[passed.length]? = some v := by simp [hsplit]
    cases hfound : v.infer facts with
    | error f =>
      unfold inferVertex
      dsimp only
      rw [hfound]
      trivial
    | ok found =>
      rw [inferVertex_of_infer (hn _ v hv).pending hfound]
      exact ⟨hsolves.push hfound, by simpa using hsize, hmarks.push hsolves hsize hfound⟩
  · refine ⟨⟨rfl, ?_⟩, rfl, ?_⟩
    · intro i v hv
      simp at hv
    · intro i v hv
      simp at hv
  · rintro ⟨marked, facts⟩ ⟨hsolves, -, hmarks⟩
    exact .pure ⟨hsolves, hmarks⟩

/-- What is known after some vertices is the front part of the whole. -/
theorem find?_of_take {k : Nat} (hfront : facts'.toList = facts.toList.take k) {w : Wire}
    (hw : w.node < k) : facts'.find? w = facts.find? w := by
  have hvalues : facts'[w.node]? = facts[w.node]? := by
    rw [← Array.getElem?_toList, hfront, List.getElem?_take_of_lt hw, Array.getElem?_toList]
  unfold Facts.find?
  rw [hvalues]

/-- **Inference finds every solution.** -/
theorem infer_of_solves (hn : n.Ordered) (h : facts.Solves n.vertices.toList) :
    Yields (fun _ => False) n.infer fun r => r.2 = facts := by
  unfold infer
  rw [← Array.foldlM_toList]
  -- after some vertices, as much of the solution has been found
  refine (Yields.foldlM_passed (I := fun passed r =>
    r.2.toList = facts.toList.take passed.length) ?_ rfl).bind ?_
  · rintro passed v rest hsplit ⟨marked, known⟩ hknown
    have hv : n.vertices.toList[passed.length]? = some v := by simp [hsplit]
    obtain ⟨found, hfound, hvalues⟩ := h.vertex _ v hv
    have hplace := hn _ v hv
    have hsofar : v.infer known = .ok found := by
      refine Vertex.infer_mono (fun w hw op hop => ?_) hfound
      obtain ⟨name, hname⟩ := hplace.inputs w hw
      have hlt : w.node < passed.length := hname.lt.trans_le (List.length_take_le _ _)
      rw [find?_of_take hknown hlt, hop]
    rw [inferVertex_of_infer hplace.pending hsofar]
    show (known.push found.values).toList = facts.toList.take (passed ++ [v]).length
    rw [Array.toList_push, hknown, List.length_append, List.length_singleton, List.take_add_one,
      Array.getElem?_toList, hvalues]
    rfl
  · intro r hr
    refine .pure ?_
    rw [← h.size, ← Array.length_toList, List.take_length] at hr
    exact Array.toList_inj.1 hr

/-- **Inference of a network in order succeeds with facts iff they solve the network.** -/
theorem infer_eq_ok_iff (hn : n.Ordered) :
    (∃ marked, n.infer = .ok (marked, facts)) ↔ facts.Solves n.vertices.toList := by
  constructor
  · rintro ⟨marked, hinfer⟩
    exact ((infer_solves hn).value hinfer).1
  · intro h
    have hyields := infer_of_solves hn h
    cases hinfer : n.infer with
    | error f => exact (hyields.fault hinfer).elim
    | ok r =>
      have hfacts := hyields.value hinfer
      exact ⟨r.1, by rw [← hfacts]⟩

end Network

end Lamina
