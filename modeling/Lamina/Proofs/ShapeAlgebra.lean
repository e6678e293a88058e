import Mathlib
import Lamina.Network.Plan
import Lamina.Registry
import Lamina.Proofs.Adapting
import Lamina.Proofs.Broadcasting

/-!
# Shapes aligned at their last axes form a semilattice

Two shapes aligned at their last axes are compared axis by axis from the end (`Shape.fromEnd`), a
shape having one position along the axes in front of its own. Along an axis the extents broadcast if
they are equal or one of them is one, and the extent of the result is the other one
(`Broadcast.extent?`). This operation on extents is commutative, associative and idempotent, one
being its neutral element.

A result has the larger rank, and its extents are those of the axes (`Broadcast.trailing_eq_ok`).
Whether there is a result is decided axis by axis as well (`Broadcast.trailing_succeeds`). With
these two the laws of extents become laws of shapes (`Broadcast.join`), where a failure is passed
on, and the common shape of several operands does not depend on their order (`commonShape_perm`).

**Theorem** (`Broadcast.trailing_laws`): the laws, the rule for the extents, and two consequences:
the inputs of a sum can be exchanged, and an operand anchored at the end of another is accepted if
and only if the two broadcast to the shape of the latter.
-/

namespace Lamina

/-! ### Extents -/

namespace Broadcast

variable {x y z d : Nat}

theorem extent?_eq_some : extent? x y = some d ↔ (x = y ∨ x = 1 ∨ y = 1) ∧
    d = if x = 1 then y else x := by
  unfold extent?
  split_ifs <;> grind

/-- An extent is kept by those it is equal to and by one. -/
theorem extent?_eq_left : extent? x y = some x ↔ x = y ∨ y = 1 := by
  rw [extent?_eq_some]
  grind

theorem extent?_comm (x y : Nat) : extent? x y = extent? y x := by
  unfold extent?
  split_ifs <;> grind

theorem extent?_self (x : Nat) : extent? x x = some x := if_pos rfl

theorem extent?_one (x : Nat) : extent? 1 x = some x := by
  rw [extent?_eq_some, if_pos rfl]
  exact ⟨.inr (.inl rfl), rfl⟩

/-- Three extents broadcast to the same, whichever two are taken first. -/
theorem extent?_assoc {xy xyz : Nat} (hxy : extent? x y = some xy) (h : extent? xy z = some xyz) :
    ∃ yz, extent? y z = some yz ∧ extent? x yz = some xyz := by
  simp only [extent?_eq_some] at hxy h ⊢
  refine ⟨if y = 1 then z else y, ?_⟩
  grind

end Broadcast

/-! ### Axes counted from the end -/

namespace Shape

variable {a : Shape}

/-- The extent of the axis that has `k` others behind it. In front of its axes a shape has one
position. -/
def fromEnd (s : Shape) (k : Nat) : Nat := if k < s.rank then s.extent (s.rank - 1 - k) else 1

theorem fromEnd_of_rank_le {k : Nat} (h : a.rank ≤ k) : a.fromEnd k = 1 := if_neg (not_lt.2 h)

end Shape

namespace Broadcast

variable {site : Site} {a b c out : Shape}

/-- A shape that ends with another has its extents, and one position in front of them. -/
theorem getD_embedShape {s : Shape} {rank i : Nat} (hrank : s.rank ≤ rank) (hi : i < rank) :
    (embedShape s (rank - s.rank) rank).dims.getD i 1 = s.fromEnd (rank - 1 - i) := by
  have hsum : rank - s.rank + s.rank = rank := Nat.sub_add_cancel hrank
  rw [embedShape_dims hsum.le, ← pad, getD_pad, Shape.fromEnd, Shape.extent]
  by_cases hfront : rank - s.rank ≤ i
  · have hlt : rank - 1 - i < s.rank := by omega
    have haxis : s.rank - 1 - (rank - 1 - i) = i - (rank - s.rank) := by omega
    rw [if_pos hfront, if_pos hlt, haxis]
  · have hge : ¬ rank - 1 - i < s.rank := by omega
    rw [if_neg hfront, if_neg hge]

/-- Lists of one length broadcast entry by entry. -/
theorem extents?_eq_some {xs ys zs : List Nat} (hlength : xs.length = ys.length) :
    extents? xs ys = some zs ↔ zs.length = xs.length ∧
      ∀ i < xs.length, extent? (xs.getD i 1) (ys.getD i 1) = some (zs.getD i 1) := by
  induction xs generalizing ys zs with
  | nil =>
    obtain rfl : ys = [] := List.eq_nil_of_length_eq_zero hlength.symm
    simp [extents?, eq_comm]
  | cons x xs ih =>
    cases ys with
    | nil => simp at hlength
    | cons y ys =>
      have hlength : xs.length = ys.length := by simpa using hlength
      constructor
      · intro h
        obtain ⟨d, hd, h⟩ := Option.bind_eq_some_iff.1 h
        obtain ⟨ds, hds, h⟩ := Option.bind_eq_some_iff.1 h
        obtain rfl := Option.some.inj h
        obtain ⟨hlen, hall⟩ := (ih hlength).1 hds
        refine ⟨by simp [hlen], ?_⟩
        rintro (_ | i) hi
        · exact hd
        · exact hall i (by simpa using hi)
      · rintro ⟨hlen, hall⟩
        cases zs with
        | nil => simp at hlen
        | cons z zs =>
          have htail : extents? xs ys = some zs :=
            (ih hlength).2 ⟨by simpa using hlen, fun i hi => hall (i + 1) (by simpa using hi)⟩
          have hhead : extent? x y = some z := hall 0 (by simp)
          rw [extents?, hhead, htail]
          rfl

theorem isSome_extents? {xs ys : List Nat} (hlength : xs.length = ys.length)
    (h : ∀ i < xs.length, ∃ z, extent? (xs.getD i 1) (ys.getD i 1) = some z) :
    ∃ zs, extents? xs ys = some zs := by
  choose! extentAt hextent using h
  refine ⟨(List.range xs.length).map extentAt, (extents?_eq_some hlength).2 ⟨by simp, ?_⟩⟩
  intro i hi
  rw [hextent i hi]
  simp [hi]

/-- Two shapes brought to the larger rank broadcast entry by entry. -/
theorem trailing_eq_ok_extents : shapes site .trailing a b = .ok out ↔
    extents? (embedShape a (max a.rank b.rank - a.rank) (max a.rank b.rank)).dims
      (embedShape b (max a.rank b.rank - b.rank) (max a.rank b.rank)).dims = some out.dims := by
  unfold shapes
  dsimp only
  split
  · rename_i dims hdims
    rw [hdims, Except.ok.injEq, Option.some.injEq]
    exact ⟨fun h => h ▸ rfl, fun h => h ▸ rfl⟩
  · rename_i hnone
    rw [hnone]
    simp

theorem length_embedded {s : Shape} {rank : Nat} (hrank : s.rank ≤ rank) :
    (embedShape s (rank - s.rank) rank).dims.length = rank :=
  rank_embedShape (Nat.sub_add_cancel hrank).le

/-- **The result of two shapes aligned at their last axes** has the larger rank, and its extents
counted from the end are those that the extents of the two broadcast to. -/
theorem trailing_eq_ok : shapes site .trailing a b = .ok out ↔ out.rank = max a.rank b.rank ∧
    ∀ k, extent? (a.fromEnd k) (b.fromEnd k) = some (out.fromEnd k) := by
  have ha : a.rank ≤ max a.rank b.rank := le_max_left _ _
  have hb : b.rank ≤ max a.rank b.rank := le_max_right _ _
  rw [trailing_eq_ok_extents,
    extents?_eq_some ((length_embedded ha).trans (length_embedded hb).symm), length_embedded ha]
  refine and_congr_right fun hrank => ?_
  have hrank : out.rank = max a.rank b.rank := hrank
  constructor
  · intro h k
    by_cases hk : k < max a.rank b.rank
    · have haxis := h (max a.rank b.rank - 1 - k) (by omega)
      have hback : max a.rank b.rank - 1 - (max a.rank b.rank - 1 - k) = k := by omega
      rw [getD_embedShape ha (by omega), getD_embedShape hb (by omega), hback] at haxis
      rw [haxis, Shape.fromEnd, if_pos (hrank ▸ hk), hrank]
      rfl
    -- in front of both shapes there are unit axes only
    · rw [Shape.fromEnd_of_rank_le (by omega), Shape.fromEnd_of_rank_le (by omega),
        Shape.fromEnd_of_rank_le (by omega)]
      exact extent?_self 1
  · intro h i hi
    have hback : out.rank - 1 - (max a.rank b.rank - 1 - i) = i := by omega
    rw [getD_embedShape ha hi, getD_embedShape hb hi, h, Shape.fromEnd, if_pos (by omega), hback]
    rfl

/-- **Two shapes broadcast if they do so along each axis.** -/
theorem trailing_succeeds : (∃ out, shapes site .trailing a b = .ok out) ↔
    ∀ k, ∃ d, extent? (a.fromEnd k) (b.fromEnd k) = some d := by
  have ha : a.rank ≤ max a.rank b.rank := le_max_left _ _
  have hb : b.rank ≤ max a.rank b.rank := le_max_right _ _
  constructor
  · rintro ⟨out, hout⟩ k
    exact ⟨_, (trailing_eq_ok.1 hout).2 k⟩
  · intro h
    obtain ⟨dims, hdims⟩ :=
      isSome_extents? ((length_embedded ha).trans (length_embedded hb).symm) fun i hi => by
        rw [length_embedded ha] at hi
        rw [getD_embedShape ha hi, getD_embedShape hb hi]
        exact h _
    exact ⟨⟨dims⟩, trailing_eq_ok_extents.2 hdims⟩

/-! ### The laws -/

/-- Two shapes aligned at their last axes, where a failure is passed on. -/
def join (site : Site) (a b : Option Shape) : Option Shape :=
  a.bind fun x => b.bind fun y => (shapes site .trailing x y).toOption

theorem toOption_eq_some {α : Type} {x : Except Fault α} {v : α} :
    x.toOption = some v ↔ x = .ok v := by
  cases x with
  | ok a => exact ⟨fun h => congrArg _ (Option.some.inj h), fun h => congrArg _ (Except.ok.inj h)⟩
  | error f =>
    constructor
    · intro h
      cases h
    · intro h
      cases h

theorem join_some_some : join site (some a) (some b) = some out ↔
    shapes site .trailing a b = .ok out := toOption_eq_some

theorem join_comm (a b : Option Shape) : join site a b = join site b a := by
  rcases a with _ | a
  · cases b <;> rfl
  rcases b with _ | b
  · rfl
  ext out
  rw [join_some_some, join_some_some, trailing_eq_ok, trailing_eq_ok, max_comm]
  simp only [extent?_comm]

/-- Whichever two of three shapes are taken first, there is the same result. -/
theorem shapes_assoc {ab out : Shape} (hab : shapes site .trailing a b = .ok ab)
    (h : shapes site .trailing ab c = .ok out) :
    ∃ bc, shapes site .trailing b c = .ok bc ∧ shapes site .trailing a bc = .ok out := by
  obtain ⟨hrank, hextents⟩ := trailing_eq_ok.1 hab
  obtain ⟨hrank', hextents'⟩ := trailing_eq_ok.1 h
  have hassoc := fun k => extent?_assoc (hextents k) (hextents' k)
  obtain ⟨bc, hbc⟩ : ∃ bc, shapes site .trailing b c = .ok bc := by
    rw [trailing_succeeds]
    intro k
    obtain ⟨d, hd, -⟩ := hassoc k
    exact ⟨d, hd⟩
  obtain ⟨hrank'', hextents''⟩ := trailing_eq_ok.1 hbc
  refine ⟨bc, hbc, trailing_eq_ok.2 ⟨?_, fun k => ?_⟩⟩
  · rw [hrank', hrank, hrank'', max_assoc]
  · obtain ⟨d, hd, hout⟩ := hassoc k
    obtain rfl := Option.some.inj (hd.symm.trans (hextents'' k))
    exact hout

theorem join_eq_some {x y : Option Shape} : join site x y = some out ↔
    ∃ a b, x = some a ∧ y = some b ∧ shapes site .trailing a b = .ok out := by
  unfold join
  simp only [Option.bind_eq_some_iff, toOption_eq_some]
  constructor
  · rintro ⟨a, rfl, b, rfl, h⟩
    exact ⟨a, b, rfl, rfl, h⟩
  · rintro ⟨a, b, rfl, rfl, h⟩
    exact ⟨a, rfl, b, rfl, h⟩

theorem join_assoc (x y z : Option Shape) :
    join site (join site x y) z = join site x (join site y z) := by
  have hone : ∀ {x y z out}, join site (join site x y) z = some out →
      join site x (join site y z) = some out := by
    intro x y z out h
    obtain ⟨ab, c, hab, rfl, hout⟩ := join_eq_some.1 h
    obtain ⟨a, b, rfl, rfl, hjoined⟩ := join_eq_some.1 hab
    obtain ⟨bc, hbc, hout⟩ := shapes_assoc hjoined hout
    exact join_eq_some.2 ⟨a, bc, rfl, join_some_some.2 hbc, hout⟩
  ext out
  refine ⟨hone, fun h => ?_⟩
  -- the other direction is the same read from the right
  rw [join_comm x, join_comm y] at h
  have h := hone h
  rwa [join_comm z, join_comm y] at h

theorem join_self (x : Option Shape) : join site x x = x := by
  rcases x with _ | a
  · rfl
  · rw [join_some_some, trailing_eq_ok, max_self]
    exact ⟨rfl, fun k => extent?_self _⟩

theorem scalar_join (x : Option Shape) : join site (some .scalar) x = x := by
  rcases x with _ | a
  · rfl
  · rw [join_some_some, trailing_eq_ok]
    refine ⟨(Nat.zero_max _).symm, fun k => ?_⟩
    rw [Shape.fromEnd_of_rank_le (a := .scalar) (Nat.zero_le k)]
    exact extent?_one _

end Broadcast

/-! ### Several operands -/

open Broadcast

/-- The common shape is the join of all shapes. -/
theorem toOption_commonShape {h : Header} {shapes : List Shape} (hne : shapes ≠ []) :
    (commonShape h .trailing shapes).toOption =
      shapes.foldl (fun acc s => join h.site acc (some s)) (some .scalar) := by
  have hfold : ∀ (rest : List Shape) (acc : Except Fault Shape),
      (acc >>= fun first =>
          rest.foldlM (fun acc s => Broadcast.shapes h.site .trailing acc s) first).toOption =
        rest.foldl (fun acc s => join h.site acc (some s)) acc.toOption := by
    intro rest
    induction rest with
    | nil =>
      rintro (f | a)
      · rfl
      · rfl
    | cons s rest ih =>
      intro acc
      rw [List.foldl_cons]
      have hstep := ih (acc >>= fun a => Broadcast.shapes h.site .trailing a s)
      rcases acc with f | a
      · exact hstep
      · exact hstep
  obtain ⟨first, rest, rfl⟩ := List.exists_cons_of_ne_nil hne
  rw [List.foldl_cons, scalar_join]
  exact hfold rest (.ok first)

/-- **The order of the operands does not matter.** -/
theorem commonShape_perm {h : Header} {shapes shapes' : List Shape} (hperm : shapes.Perm shapes') :
    (commonShape h .trailing shapes).toOption = (commonShape h .trailing shapes').toOption := by
  by_cases hne : shapes = []
  · subst hne
    rw [hperm.nil_eq]
  · have hne' : shapes' ≠ [] := fun heq => hne (heq ▸ hperm).eq_nil
    rw [toOption_commonShape hne, toOption_commonShape hne']
    refine hperm.foldl_eq' (fun a _ b _ acc => ?_) _
    rw [join_assoc, join_comm (some a), ← join_assoc]

/-- From opset 8 on, a sum aligns its inputs at their last axes. -/
theorem Registry.action_of_sum {n : Node} {opset : Int64} {op : Operator}
    (hop : Registry.builtins.create n opset = .ok op) (hn : n.opType = "Sum")
    (hopset : 8 ≤ opset) : op.action = .eltwise .sum .trailing := by
  have hfamily : Registry.builtins.find? n.opType = some .eltwise := by
    rw [hn]
    rfl
  have hsum : Family.eltwiseOp? n.opType = some .sum := by
    rw [hn]
    rfl
  rw [Registry.create, hfamily] at hop
  obtain ⟨action, haction, hop⟩ := bind_eq_ok.1 hop
  obtain rfl := pure_eq_ok.1 hop
  rw [Family.action, Family.readEltwise, hsum] at haction
  obtain ⟨_, -, haction⟩ := bind_eq_ok.1 haction
  rw [if_neg (Int64.not_lt.2 hopset)] at haction
  exact (pure_eq_ok.1 haction).symm

namespace Broadcast

variable {site : Site} {a b out : Shape}

/-- The shape that an operand stretches to is the result of the two. -/
theorem all_zip_embedShape (hrank : b.rank ≤ a.rank) :
    ((a.dims.zip (embedShape b (a.rank - b.rank) a.rank).dims).all
      fun (x, y) => x == y || y == 1) = true ↔ shapes site .trailing a b = .ok a := by
  rw [trailing_eq_ok, max_eq_left hrank, List.all_eq_true, List.forall_mem_iff_forall_getElem]
  simp only [List.length_zip, length_embedded hrank, List.getElem_zip, Bool.or_eq_true, beq_iff_eq,
    extent?_eq_left, true_and]
  have hlength : a.dims.length = a.rank := rfl
  constructor
  · intro h k
    by_cases hk : k < a.rank
    · have hi : a.rank - 1 - k < a.dims.length := by omega
      have hback : a.rank - 1 - (a.rank - 1 - k) = k := by omega
      have haxis := h (a.rank - 1 - k) (by omega)
      rw [← List.getD_eq_getElem _ 1, ← List.getD_eq_getElem _ 1, getD_embedShape hrank (by omega),
        hback] at haxis
      rw [Shape.fromEnd, if_pos hk]
      exact haxis
    · rw [Shape.fromEnd_of_rank_le (by omega), Shape.fromEnd_of_rank_le (by omega)]
      exact .inl rfl
  · intro h i hi
    have hi : i < a.rank := by omega
    have hback : a.rank - 1 - (a.rank - 1 - i) = i := by omega
    have haxis := h (a.rank - 1 - i)
    rw [Shape.fromEnd, if_pos (by omega), hback] at haxis
    rw [← List.getD_eq_getElem _ 1, ← List.getD_eq_getElem _ 1, getD_embedShape hrank hi]
    exact haxis

/-- **An operand anchored at the end of another** is accepted if and only if the two broadcast to
the shape of the latter. -/
theorem anchored_eq_ok : shapes site (.anchored none) a b = .ok out ↔
    shapes site .trailing a b = .ok a ∧ out = a := by
  by_cases hrank : b.rank ≤ a.rank
  · have hoffset : offset site (.anchored none) b.rank a.rank = .ok (a.rank - b.rank) :=
      offset_trailing hrank
    rw [← all_zip_embedShape hrank, shapes, hoffset]
    dsimp only
    split
    · rename_i hall
      rw [Except.ok.injEq, and_iff_right hall, eq_comm]
    · rename_i hall
      refine ⟨fun h => ?_, fun h => absurd h.1 hall⟩
      cases h
  -- an operand of larger rank has no place in the other, and the result has its rank
  · have hoffset : offset site (.anchored none) b.rank a.rank =
        site.fail (.broadcast (.rank b.rank a.rank)) := if_pos (not_le.1 hrank)
    constructor
    · intro h
      rw [shapes, hoffset] at h
      cases h
    · rintro ⟨h, -⟩
      have hmax := (trailing_eq_ok.1 h).1
      omega

/-- From opset 8 on, **the inputs of a sum can be exchanged.** -/
theorem outputShapes_sum_perm {n : Node} {opset : Int64} {op : Operator} {ops ops' : Operands}
    (hop : Registry.builtins.create n opset = .ok op) (hn : n.opType = "Sum") (hopset : 8 ≤ opset)
    (hperm : ops.Perm ops') :
    (op.outputShapes ops).toOption = (op.outputShapes ops').toOption := by
  have haction := Registry.action_of_sum hop hn hopset
  have hshapes : ops.shapes.Perm ops'.shapes := (hperm.filterMap id).map Operand.shape
  have hcommon := commonShape_perm (h := op.header) hshapes
  have hlist : ∀ ops : Operands, (op.outputShapes ops).toOption =
      (commonShape op.header .trailing ops.shapes).toOption.map ([·]) := by
    intro ops
    rw [Operator.outputShapes, Operator.outputShape, haction]
    dsimp only
    rcases commonShape op.header .trailing ops.shapes with f | out
    · rfl
    · rfl
  rw [hlist, hlist, hcommon]

/-- **The laws of shapes aligned at their last axes.** -/
theorem trailing_laws (site : Site) :
    (∀ x y, join site x y = join site y x) ∧
    (∀ x y z, join site (join site x y) z = join site x (join site y z)) ∧
    (∀ x, join site x x = x) ∧
    (∀ x, join site (some .scalar) x = x ∧ join site x (some .scalar) = x) ∧
    (∀ a b, (∃ out, shapes site .trailing a b = .ok out) ↔
      ∀ k, a.fromEnd k = b.fromEnd k ∨ a.fromEnd k = 1 ∨ b.fromEnd k = 1) ∧
    (∀ a b out, shapes site .trailing a b = .ok out → out.rank = max a.rank b.rank ∧
      ∀ k, out.fromEnd k = if a.fromEnd k = 1 then b.fromEnd k else a.fromEnd k) ∧
    (∀ n opset op (ops ops' : Operands), Registry.builtins.create n opset = .ok op →
      n.opType = "Sum" → 8 ≤ opset → ops.Perm ops' →
        (op.outputShapes ops).toOption = (op.outputShapes ops').toOption) ∧
    (∀ a b out, shapes site (.anchored none) a b = .ok out ↔
      shapes site .trailing a b = .ok a ∧ out = a) := by
  refine ⟨join_comm, join_assoc, join_self, fun x => ⟨scalar_join x, ?_⟩, ?_, ?_, ?_, ?_⟩
  · rw [join_comm, scalar_join]
  · intro a b
    rw [trailing_succeeds]
    refine forall_congr' fun k => ?_
    simp only [extent?_eq_some, exists_and_left, exists_eq, and_true]
  · intro a b out hout
    obtain ⟨hrank, hextents⟩ := trailing_eq_ok.1 hout
    exact ⟨hrank, fun k => (extent?_eq_some.1 (hextents k)).2⟩
  · intro n opset op ops ops' hop hn hopset hperm
    exact outputShapes_sum_perm hop hn hopset hperm
  · intro a b out
    exact anchored_eq_ok

/-- Three inputs of different ranks, one of them empty, and an input left out. -/
theorem trailing_laws_exchanged :
    Registry.builtins.create ⟨"Sum", "total", ["x", "", "y", "z"], ["t"], []⟩ 8 =
      .ok ⟨⟨"Sum", "total", 8⟩, .eltwise .sum .trailing⟩ ∧
    (Operator.mk ⟨"Sum", "total", 8⟩ (.eltwise .sum .trailing)).outputShapes
        [some ⟨⟨[0, 1]⟩, none⟩, none, some ⟨⟨[7]⟩, none⟩, some ⟨⟨[2, 1, 1]⟩, none⟩] =
      .ok [⟨[2, 0, 7]⟩] ∧
    ((Operator.mk ⟨"Sum", "total", 8⟩ (.eltwise .sum .trailing)).outputShapes
        [some ⟨⟨[7]⟩, none⟩, some ⟨⟨[2, 1, 1]⟩, none⟩, some ⟨⟨[0, 1]⟩, none⟩, none]).toOption =
      some [⟨[2, 0, 7]⟩] := by
  have hop : Registry.builtins.create ⟨"Sum", "total", ["x", "", "y", "z"], ["t"], []⟩ 8 =
      .ok ⟨⟨"Sum", "total", 8⟩, .eltwise .sum .trailing⟩ := by rfl
  have hshape : (Operator.mk ⟨"Sum", "total", 8⟩ (.eltwise .sum .trailing)).outputShapes
        [some ⟨⟨[0, 1]⟩, none⟩, none, some ⟨⟨[7]⟩, none⟩, some ⟨⟨[2, 1, 1]⟩, none⟩] =
      .ok [⟨[2, 0, 7]⟩] := by rfl
  obtain ⟨-, -, -, -, -, -, hsum, -⟩ := trailing_laws ⟨"Sum", "total"⟩
  refine ⟨hop, hshape, ?_⟩
  exact (hsum _ _ _ _ _ hop rfl (by decide) (@List.perm_append_comm _ [_, _] [_, _])).symm.trans
    (congrArg Except.toOption hshape)

end Broadcast

end Lamina
