import Mathlib
import Lamina.Operator.Infer
import Lamina.Proofs.Constants

/-!
# Broadcasting: operands fit the shape they are combined in

The common shape of several operands is found from the left, two at a time. An operand is *aligned*
in a shape if it stretches to that shape from the axis at which its mode places it
(`Broadcast.Aligned`).

**Theorem** (`commonShape_yields`): every operand is aligned in the common shape. One step aligns
the new operand and keeps those before it aligned (`Broadcast.shapes_yields`); when the rank grows,
that is because stretching is transitive.

The layout of an operand is padded along with its shape: its slots are completed by slots for the
new axes (`Broadcast.embedLayout_eq`).
-/

namespace Lamina

/-! ### Stretching -/

theorem Stretches.refl (dims : List Nat) : Stretches dims dims :=
  List.forall₂_same.2 fun _ _ => .inl rfl

theorem Stretches.trans {a b c : List Nat} (h : Stretches a b) (h' : Stretches b c) :
    Stretches a c := by
  unfold Stretches at h h' ⊢
  induction h generalizing c with
  | nil =>
    cases h'
    exact .nil
  | cons hd _ ih =>
    cases h' with
    | cons hd' htail =>
      refine .cons ?_ (ih htail)
      rcases hd with rfl | rfl
      · exact hd'
      · exact .inr rfl

theorem Stretches.append {a b c d : List Nat} (h : Stretches a b) (h' : Stretches c d) :
    Stretches (a ++ c) (b ++ d) :=
  List.rel_append h h'

namespace Broadcast

theorem extent?_spec {x y z : Nat} (h : extent? x y = some z) :
    (x = z ∨ x = 1) ∧ (y = z ∨ y = 1) := by
  unfold extent? at h
  split_ifs at h with h₁ h₂ h₃ <;> simp_all

theorem extents?_spec {xs ys zs : List Nat} (hlength : xs.length = ys.length)
    (h : extents? xs ys = some zs) : Stretches xs zs ∧ Stretches ys zs := by
  induction xs generalizing ys zs with
  | nil =>
    obtain rfl : ys = [] := List.eq_nil_of_length_eq_zero hlength.symm
    obtain rfl : [] = zs := by simpa [extents?] using h
    exact ⟨.nil, .nil⟩
  | cons x xs ih =>
    cases ys with
    | nil => simp at hlength
    | cons y ys =>
      rw [extents?] at h
      obtain ⟨z, hz, h⟩ := Option.bind_eq_some_iff.1 h
      obtain ⟨zs', hzs, h⟩ := Option.bind_eq_some_iff.1 h
      obtain rfl := Option.some.inj h
      obtain ⟨hx, hy⟩ := ih (by simpa using hlength) hzs
      exact ⟨.cons (extent?_spec hz).1 hx, .cons (extent?_spec hz).2 hy⟩

/-! ### Where an operand begins -/

theorem offset_yields (site : Site) (mode : Alignment) (rank outRank : Nat) :
    Yields (Fault.Own site) (offset site mode rank outRank) fun k => k + rank ≤ outRank := by
  unfold offset
  split
  · exact .own rfl
  · rename_i hrank
    have hlast : outRank - rank + rank ≤ outRank := by omega
    split
    · split
      · rename_i axis _
        dsimp only
        generalize (if axis.toInt < 0 then axis.toInt + outRank else axis.toInt) = resolved
        split
        · exact .own rfl
        · rename_i hbounds
          refine .ok ?_
          omega
      · exact .ok hlast
    · exact .ok hlast

/-- The offset does not depend on who asks for it. -/
theorem offset_site {site : Site} {mode : Alignment} {rank outRank k : Nat}
    (h : offset site mode rank outRank = .ok k) (site' : Site) :
    offset site' mode rank outRank = .ok k := by
  unfold offset at h ⊢
  by_cases hrank : outRank < rank
  · rw [if_pos hrank] at h
    cases h
  · rw [if_neg hrank] at h ⊢
    cases mode with
    | exact => exact h
    | trailing => exact h
    | anchored axis =>
      cases axis with
      | none => exact h
      | some axis =>
        dsimp only at h ⊢
        generalize (if axis.toInt < 0 then axis.toInt + outRank else axis.toInt) = resolved at h ⊢
        by_cases hlt : rank < outRank
        · rw [if_pos hlt] at h ⊢
          by_cases hout : resolved < 0 ∨ outRank < resolved.toNat + rank
          · rw [if_pos hout] at h
            cases h
          · rw [if_neg hout] at h ⊢
            exact h
        · rw [if_neg hlt] at h ⊢
          exact h

theorem offset_self (site : Site) (mode : Alignment) (rank : Nat) :
    offset site mode rank rank = .ok 0 := by
  unfold offset
  rw [if_neg (lt_irrefl rank)]
  split
  · rw [if_neg (lt_irrefl rank), Nat.sub_self]
  · rw [Nat.sub_self]

theorem offset_trailing {site : Site} {rank outRank : Nat} (h : rank ≤ outRank) :
    offset site .trailing rank outRank = .ok (outRank - rank) := by
  unfold offset
  rw [if_neg (Nat.not_lt.2 h)]

/-- An operand is aligned in a shape if it stretches to it from wherever its mode places it. -/
def Aligned (mode : Alignment) (shape out : Shape) : Prop :=
  shape.rank ≤ out.rank ∧
    ∀ site k, offset site mode shape.rank out.rank = .ok k → Embeds shape k out

theorem embedShape_self (shape : Shape) : embedShape shape 0 shape.rank = shape := by
  have hrank : 0 + shape.rank ≤ shape.rank := (Nat.zero_add shape.rank).le
  have hdims : (embedShape shape 0 shape.rank).dims = shape.dims := by
    rw [embedShape_dims hrank]
    simp
  exact congrArg Shape.mk hdims

theorem aligned_self (mode : Alignment) (shape : Shape) : Aligned mode shape shape := by
  refine ⟨Nat.le_refl _, fun site k hk => ?_⟩
  obtain rfl : 0 = k := by simpa [offset_self] using hk
  refine ⟨(Nat.zero_add _).le, ?_⟩
  rw [embedShape_self]
  exact Stretches.refl _

/-- An operand that ends where the result does. -/
theorem embeds_trailing {shape out : Shape} (h : shape.rank ≤ out.rank) :
    Embeds shape (out.rank - shape.rank) out ↔
      Stretches (List.replicate (out.rank - shape.rank) 1 ++ shape.dims) out.dims := by
  have hsum : out.rank - shape.rank + shape.rank = out.rank := Nat.sub_add_cancel h
  unfold Embeds
  rw [embedShape_dims hsum.le, hsum, Nat.sub_self, List.replicate_zero, List.append_nil]
  exact and_iff_right (Nat.le_refl _)

theorem aligned_trailing {shape out : Shape} :
    Aligned .trailing shape out ↔ shape.rank ≤ out.rank ∧
      Stretches (List.replicate (out.rank - shape.rank) 1 ++ shape.dims) out.dims := by
  refine and_congr_right fun h => ?_
  rw [← embeds_trailing h]
  refine ⟨fun hall => hall ⟨"", ""⟩ _ (offset_trailing h), fun hembeds site k hk => ?_⟩
  rw [offset_trailing h] at hk
  cases hk
  exact hembeds

/-- What is aligned at the end of a shape is aligned at the end of what that shape stretches to. -/
theorem Aligned.trans_trailing {a b c : Shape} (h : Aligned .trailing a b)
    (h' : Aligned .trailing b c) : Aligned .trailing a c := by
  rw [aligned_trailing] at h h' ⊢
  obtain ⟨hab, hstretch⟩ := h
  obtain ⟨hbc, hstretch'⟩ := h'
  refine ⟨hab.trans hbc, ?_⟩
  have hsplit : List.replicate (c.rank - a.rank) 1 =
      List.replicate (c.rank - b.rank) 1 ++ List.replicate (b.rank - a.rank) 1 := by
    rw [← List.replicate_add]
    congr 1
    omega
  rw [hsplit, List.append_assoc]
  exact ((Stretches.refl _).append hstretch).trans hstretch'

/-! ### Shapes of results -/

/-- Two shapes aligned at their last axes. -/
theorem shapes_trailing_yields (site : Site) (a b : Shape) :
    Yields (Fault.Own site) (shapes site .trailing a b) fun out =>
      out.rank = max a.rank b.rank ∧ Aligned .trailing a out ∧ Aligned .trailing b out := by
  have hembed : ∀ s : Shape, s.rank ≤ max a.rank b.rank →
      (embedShape s (max a.rank b.rank - s.rank) (max a.rank b.rank)).dims =
        List.replicate (max a.rank b.rank - s.rank) 1 ++ s.dims := by
    intro s hs
    have hsum : max a.rank b.rank - s.rank + s.rank = max a.rank b.rank := Nat.sub_add_cancel hs
    rw [embedShape_dims hsum.le, hsum, Nat.sub_self, List.replicate_zero, List.append_nil]
  have ha : a.rank ≤ max a.rank b.rank := le_max_left _ _
  have hb : b.rank ≤ max a.rank b.rank := le_max_right _ _
  unfold shapes
  dsimp only
  rw [hembed a ha, hembed b hb]
  split
  · rename_i dims hdims
    have hlength : ∀ s : Shape, s.rank ≤ max a.rank b.rank →
        (List.replicate (max a.rank b.rank - s.rank) 1 ++ s.dims).length = max a.rank b.rank := by
      intro s hs
      rw [List.length_append, List.length_replicate]
      exact Nat.sub_add_cancel hs
    obtain ⟨hleft, hright⟩ := extents?_spec ((hlength a ha).trans (hlength b hb).symm) hdims
    have hrank : Shape.rank ⟨dims⟩ = max a.rank b.rank :=
      hleft.length_eq.symm.trans (hlength a ha)
    refine .ok ⟨hrank, ?_, ?_⟩
    · rw [aligned_trailing, hrank]
      exact ⟨ha, hleft⟩
    · rw [aligned_trailing, hrank]
      exact ⟨hb, hright⟩
  · exact .own rfl

/-- One more operand is aligned in the new shape, and what was aligned before still is. -/
theorem shapes_yields (site : Site) (mode : Alignment) (a b : Shape) :
    Yields (Fault.Own site) (shapes site mode a b) fun out =>
      Aligned mode b out ∧ ∀ s, Aligned mode s a → Aligned mode s out := by
  cases mode with
  | exact =>
    unfold shapes
    dsimp only
    split
    · rename_i heq
      exact .ok ⟨heq ▸ aligned_self _ _, fun _ h => h⟩
    · exact .own rfl
  | trailing =>
    refine (shapes_trailing_yields site a b).imp fun out h => ?_
    exact ⟨h.2.2, fun s hs => hs.trans_trailing h.2.1⟩
  | anchored axis =>
    unfold shapes
    dsimp only
    split
    · exact .own rfl
    · rename_i start hstart
      have hfits := (offset_yields site (.anchored axis) b.rank a.rank).value hstart
      split
      · rename_i hall
        refine .ok ⟨⟨by omega, fun site' k hk => ⟨?_, ?_⟩⟩, fun _ h => h⟩
        · exact (offset_yields site' (.anchored axis) b.rank a.rank).value hk
        · obtain rfl : start = k := Except.ok.inj (hstart.symm.trans (offset_site hk site))
          refine List.forall₂_iff_zip.2 ⟨rank_embedShape hfits, fun {x y} hxy => ?_⟩
          have hmem : (y, x) ∈ a.dims.zip (embedShape b start a.rank).dims := by
            rw [← List.zip_swap]
            exact List.mem_map.2 ⟨(x, y), hxy, rfl⟩
          have hxy := List.all_eq_true.1 hall _ hmem
          rw [Bool.or_eq_true, beq_iff_eq, beq_iff_eq] at hxy
          exact hxy.imp_left Eq.symm
      · exact .own rfl

/-! ### Layouts of padded operands -/

section Padding

variable {layout preferred l : Layout} {offset outRank : Nat}

/-- The slots of a layout at the axes from `offset` on, with free axes around them. -/
def paddedRoles (layout : Layout) (offset outRank : Nat) : List (Option Slot) :=
  List.replicate offset none ++ layout.slots.map some ++
    List.replicate (outRank - (offset + layout.rank)) none

theorem length_paddedRoles (h : offset + layout.rank ≤ outRank) :
    (paddedRoles layout offset outRank).length = outRank := by
  simp only [paddedRoles, List.length_append, List.length_replicate, List.length_map]
  unfold Layout.rank at h ⊢
  omega

@[simp] theorem usedSlots_paddedRoles (layout : Layout) (offset outRank : Nat) :
    usedSlots (paddedRoles layout offset outRank) = layout.slots := by
  simp [paddedRoles]

theorem paddedRoles_self (layout : Layout) :
    paddedRoles layout 0 layout.rank = layout.slots.map some := by
  simp [paddedRoles]

/-- The axes of the layout have their slots. -/
theorem getElem?_paddedRoles_add {a : Nat} {d : Slot} (h : layout.slots[a]? = some d) :
    (paddedRoles layout offset outRank)[offset + a]? = some (some d) := by
  have ha : a < (layout.slots.map some).length := by
    simpa using (List.getElem?_eq_some_iff.1 h).1
  rw [paddedRoles, List.append_assoc, List.getElem?_append_right (by simp),
    List.length_replicate, Nat.add_sub_cancel_left, List.getElem?_append_left ha,
    List.getElem?_map, h, Option.map_some]

/-- The other axes are free. -/
theorem getElem?_paddedRoles_new {axis : Nat} (h : axis < outRank)
    (hnew : axis < offset ∨ offset + layout.rank ≤ axis) :
    (paddedRoles layout offset outRank)[axis]? = some none := by
  unfold paddedRoles Layout.rank at *
  rcases hnew with hfront | hback
  · rw [List.append_assoc, List.getElem?_append_left (by simpa using hfront),
      List.getElem?_replicate_of_lt hfront]
  · rw [List.getElem?_append_right (by simpa using hback), List.getElem?_replicate_of_lt]
    simp only [List.length_append, List.length_replicate, List.length_map]
    omega

/-- A layout is padded by completing its slots. -/
theorem embedLayout_eq (site : Site) (preferred : Layout) (h : offset + layout.rank ≤ outRank) :
    embedLayout site layout offset outRank preferred =
      (completeSlots preferred.slots (paddedRoles layout offset outRank)).elim
        (site.fail (.broadcast (.slots outRank))) Layout.ofSlots := by
  unfold embedLayout
  split
  · rename_i hsame
    obtain ⟨rfl, rfl⟩ := hsame
    rw [paddedRoles_self, completeSlots_map_some, Option.elim_some,
      Layout.ofSlots_eq_ok layout.nodup]
  · have hroles := List.take_of_length_le (length_paddedRoles h).le
    unfold paddedRoles at hroles ⊢
    dsimp only
    rw [hroles]
    split
    · rename_i slots hslots
      rw [hslots, Option.elim_some]
    · rename_i hnone
      rw [hnone, Option.elim_none]

/-- A layout is the padded one if its slots are the completed ones. -/
theorem embedLayout_eq_ok_iff {site : Site} (h : offset + layout.rank ≤ outRank) :
    embedLayout site layout offset outRank preferred = .ok l ↔
      completeSlots preferred.slots (paddedRoles layout offset outRank) = some l.slots := by
  rw [embedLayout_eq site preferred h]
  cases hslots : completeSlots preferred.slots (paddedRoles layout offset outRank) with
  | none => simp
  | some slots =>
    obtain ⟨hnodup, -⟩ := completeSlots_spec (by simpa using layout.nodup) hslots
    rw [Option.elim_some, Layout.ofSlots_eq_ok hnodup, Except.ok.injEq, Option.some.injEq]
    exact ⟨fun heq => heq ▸ rfl, fun heq => Layout.ext_slots heq⟩

/-- Padding fails in one way only: there are too few slots. -/
theorem embedLayout_eq_error {site : Site} {f : Fault} (h : offset + layout.rank ≤ outRank)
    (hf : embedLayout site layout offset outRank preferred = .error f) :
    f = ⟨site, .broadcast (.slots outRank)⟩ := by
  rw [embedLayout_eq site preferred h] at hf
  cases hslots : completeSlots preferred.slots (paddedRoles layout offset outRank) with
  | none =>
    rw [hslots] at hf
    exact (Except.error.inj hf).symm
  | some slots =>
    obtain ⟨hnodup, -⟩ := completeSlots_spec (by simpa using layout.nodup) hslots
    rw [hslots, Option.elim_some, Layout.ofSlots_eq_ok hnodup] at hf
    cases hf

theorem rank_of_embedLayout {site : Site} (h : offset + layout.rank ≤ outRank)
    (hl : embedLayout site layout offset outRank preferred = .ok l) : l.rank = outRank := by
  have hslots := (embedLayout_eq_ok_iff h).1 hl
  obtain ⟨-, hlength⟩ := completeSlots_spec (by simpa using layout.nodup) hslots
  exact hlength.trans (length_paddedRoles h)

/-- The axes of the layout keep their slots. -/
theorem embedLayout_keeps {site : Site} (h : offset + layout.rank ≤ outRank)
    (hl : embedLayout site layout offset outRank preferred = .ok l) {a : Nat}
    (ha : a < layout.rank) : l.slots[offset + a]? = layout.slots[a]? := by
  have hd : layout.slots[a]? = some (layout.slots.get ⟨a, ha⟩) := List.getElem?_eq_getElem ha
  rw [hd]
  exact completeSlots_keeps ((embedLayout_eq_ok_iff h).1 hl) (getElem?_paddedRoles_add hd)

/-- A layout can be padded to every rank that has room for it. -/
theorem embedLayout_yields (site : Site) {layout : Layout} {offset outRank : Nat}
    (preferred : Layout) (h : offset + layout.rank ≤ outRank) :
    Yields (Fault.Own site) (embedLayout site layout offset outRank preferred)
      fun l => l.rank = outRank := by
  cases hl : embedLayout site layout offset outRank preferred with
  | ok l => exact .ok (rank_of_embedLayout h hl)
  | error f =>
    rw [embedLayout_eq_error h hl]
    exact .own rfl

end Padding

end Broadcast

/-- **Every operand is aligned in the common shape.** -/
theorem commonShape_yields (h : Header) (mode : Alignment) (shapes : List Shape) :
    Yields (Fault.Own h.site) (commonShape h mode shapes) fun out =>
      ∀ s ∈ shapes, Broadcast.Aligned mode s out := by
  cases shapes with
  | nil => exact .own rfl
  | cons first rest =>
    -- the shapes combined so far are aligned in what has been found for them
    refine Yields.foldlM_passed
      (I := fun passed acc => ∀ s ∈ first :: passed, Broadcast.Aligned mode s acc) ?_
      (by simpa using Broadcast.aligned_self mode first)
    intro passed b _ _ acc hacc
    refine (Broadcast.shapes_yields h.site mode acc b).imp fun out hout s hs => ?_
    rw [← List.cons_append] at hs
    rcases List.mem_append.1 hs with hs | hs
    · exact hout.2 s (hacc s hs)
    · exact List.mem_singleton.1 hs ▸ hout.1

end Lamina
