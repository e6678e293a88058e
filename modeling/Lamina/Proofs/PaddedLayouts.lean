import Mathlib
import Lamina.Proofs.Adapting

/-!
# Layouts of padded tensors

A tensor that is seen with unit axes around it needs slots for these axes. They are chosen from the
left: a new axis gets the slot that a preferred layout has for it, and if an axis has that slot
already, the first slot that no axis has. What is taken in this way may be just the slot that an
axis further right would have preferred, which then has to do with another one.

`Broadcast.Pads` says which layout this is, without regard to how it is found.

**Theorem** (`Broadcast.embedLayout_pads`): a layout is padded if and only if there are as many
slots as axes, and the fault otherwise is that there are not. If the preferred layout has the axes
of the tensor where they belong, it is the one that is found, and a tensor that is brought to it
gets no conversion layer.

The last part follows from the rule alone (`Broadcast.Pads.eq_preferred`). Going from the left, the
preferred slot of a new axis can belong neither to the tensor nor to an axis that has been passed,
since these have their own preferred slots, and no layout gives a slot to two axes.
-/

namespace Lamina

/-- The layout has the axes of another one, in the same slots, from an axis on. -/
def Layout.HasAt (l : Layout) (offset : Nat) (layout : Layout) : Prop :=
  ∀ a < layout.rank, l.slots[offset + a]? = layout.slots[a]?

namespace Broadcast

variable {site : Site} {layout preferred l : Layout} {offset outRank : Nat}

/-! ### The padded layout -/

/-- The layout `l` has `outRank` axes, among them those of another layout from `offset` on. The slot
of a new axis is the preferred one, unless the other layout or an axis further left has this, and
then the first slot that these do not have. -/
structure Pads (layout : Layout) (offset outRank : Nat) (preferred l : Layout) : Prop where
  distinct : l.slots.Nodup
  rank : l.rank = outRank
  kept : l.HasAt offset layout
  new : ∀ axis d, axis < offset ∨ offset + layout.rank ≤ axis → l.slots[axis]? = some d →
    preferred.slots[axis]? = some d ∨
      ∀ e, preferred.slots[axis]? = some e ∨ e.index < d.index →
        e ∈ layout.slots ∨ ∃ other < axis, l.slots[other]? = some e

theorem pads_of_embedLayout (h : offset + layout.rank ≤ outRank)
    (hl : embedLayout site layout offset outRank preferred = .ok l) :
    Pads layout offset outRank preferred l where
  distinct := l.nodup
  rank := rank_of_embedLayout h hl
  kept := fun _ ha => embedLayout_keeps h hl ha
  new := by
    intro axis d hnew hd
    have haxis : axis < outRank := by
      rw [← rank_of_embedLayout h hl]
      exact (List.getElem?_eq_some_iff.1 hd).1
    have hfree := getElem?_paddedRoles_new haxis hnew
    refine (completeSlots_choice ((embedLayout_eq_ok_iff h).1 hl) hfree hd).imp_right ?_
    intro hused e he
    rcases hused e he with hleft | hrole
    · exact .inr hleft
    · left
      rwa [← mem_usedSlots, usedSlots_paddedRoles] at hrole

/-- **A preferred layout that has the axes where they belong is found.** -/
theorem Pads.eq_preferred (hl : Pads layout offset outRank preferred l)
    (hrank : preferred.rank = outRank) (hagrees : preferred.HasAt offset layout) :
    l = preferred := by
  have hslots : ∀ axis < outRank, l.slots[axis]? = preferred.slots[axis]? := by
    intro axis
    induction axis using Nat.strong_induction_on with
    | _ axis ih =>
      intro haxis
      by_cases hnew : axis < offset ∨ offset + layout.rank ≤ axis
      · obtain ⟨d, hd⟩ : ∃ d, l.slots[axis]? = some d :=
          ⟨_, List.getElem?_eq_getElem (haxis.trans_eq hl.rank.symm)⟩
        obtain ⟨w, hw⟩ : ∃ w, preferred.slots[axis]? = some w :=
          ⟨_, List.getElem?_eq_getElem (haxis.trans_eq hrank.symm)⟩
        rcases hl.new axis d hnew hd with hwanted | hused
        · rw [hd, hwanted]
        -- nothing else has the preferred slot, since the preferred layout gives it once
        · exfalso
          rcases hused w (.inl hw) with hmem | ⟨other, hlt, hother⟩
          · obtain ⟨a, ha⟩ := List.mem_iff_getElem?.1 hmem
            have hlt : a < layout.rank := (List.getElem?_eq_some_iff.1 ha).1
            have := Layout.axis_unique ((hagrees a hlt).trans ha) hw
            omega
          · rw [ih other hlt (hlt.trans haxis)] at hother
            exact hlt.ne (Layout.axis_unique hother hw)
      · obtain ⟨a, rfl⟩ : ∃ a, axis = offset + a := ⟨axis - offset, by omega⟩
        rw [hl.kept a (by omega), hagrees a (by omega)]
  refine Layout.ext_slots (List.ext_getElem?' fun axis haxis => hslots axis ?_)
  rwa [← Layout.rank, ← Layout.rank, hl.rank, hrank, max_self] at haxis

/-! ### Tensors that are brought to the padded layout -/

/-- A tensor that has been padded to the layout wanted is not laid out anew. -/
theorem stretch_without_conversion {g : LayerGraph} {x : Handle} {out : Shape}
    (hx : g.HasOutlet x.outlet)
    (hpadded : embedLayout site x.layout offset out.rank preferred = .ok preferred)
    (hrank : preferred.rank = out.rank) (name : String) :
    Runs (fun _ _ => False) g (Lowering.stretch site name x offset out preferred) fun y g' =>
      y.shape = out ∧ y.layout = preferred ∧
        g.Chain x.outlet (LayerKind.broadcasts (embedShape x.shape offset out.rank) out) g'
          y.outlet := by
  have hsame : LayerKind.conversions preferred preferred out = [] := by
    simp [LayerKind.conversions, Layout.reordersMemory]
  have hchain := Lowering.stretch_chain hx hpadded hrank hrank name
  rwa [hsame, List.append_nil] at hchain

/-- What padding a layout comes to, for every number of axes that has room for it. -/
structure PadsExactly (site : Site) (layout : Layout) (offset outRank : Nat) (preferred : Layout) :
    Prop where
  /-- There is a padded layout exactly if there are enough slots. -/
  found_iff : (∃ l, embedLayout site layout offset outRank preferred = .ok l) ↔
    outRank ≤ Slot.total
  /-- More axes than slots are refused, with their number. -/
  refused : Slot.total < outRank →
    ∃ f, embedLayout site layout offset outRank preferred = .error f ∧ f.kind = .unsupported ∧
      f = ⟨site, .broadcast (.slots outRank)⟩
  /-- Axes keep their slots, and new ones get their preferred slot or the first one left. -/
  pads : ∀ l, embedLayout site layout offset outRank preferred = .ok l →
    Pads layout offset outRank preferred l
  /-- A preferred layout that has the axes where they belong is found itself. -/
  agreeing : preferred.rank = outRank → preferred.HasAt offset layout →
    embedLayout site layout offset outRank preferred = .ok preferred
  /-- What is brought to such a layout is broadcast at most, and not laid out anew. -/
  unconverted : preferred.rank = outRank → preferred.HasAt offset layout →
    ∀ (g : LayerGraph) (name : String) (x : Handle) (out : Shape), g.HasOutlet x.outlet →
      x.layout = layout → out.rank = outRank →
      Runs (fun _ _ => False) g (Lowering.stretch site name x offset out preferred) fun y g' =>
        y.shape = out ∧ y.layout = preferred ∧
          g.Chain x.outlet (LayerKind.broadcasts (embedShape x.shape offset out.rank) out) g'
            y.outlet

/-- A preferred layout that has the axes where they belong is found. -/
theorem embedLayout_agreeing (site : Site) (h : offset + layout.rank ≤ outRank)
    (hrank : preferred.rank = outRank) (hagrees : preferred.HasAt offset layout) :
    embedLayout site layout offset outRank preferred = .ok preferred := by
  have htotal : outRank ≤ Slot.total := hrank ▸ preferred.rank_le_total
  obtain ⟨l, hl, -⟩ := embedLayout_eq_ok site preferred h htotal
  obtain rfl := (pads_of_embedLayout h hl).eq_preferred hrank hagrees
  exact hl

/-- **A layout is padded exactly if there are enough slots.** Then its axes keep their slots, and
each new axis gets its preferred slot or the first one that is left. A preferred layout that has
the axes where they belong is found itself, and a run-time tensor that is brought to it gets a
broadcast layer or none, but no conversion. -/
theorem embedLayout_pads (site : Site) {layout : Layout} {offset outRank : Nat}
    (preferred : Layout) (h : offset + layout.rank ≤ outRank) :
    PadsExactly site layout offset outRank preferred := by
  have hrank : ∀ l, embedLayout site layout offset outRank preferred = .ok l →
      outRank ≤ Slot.total := by
    intro l hl
    rw [← rank_of_embedLayout h hl]
    exact l.rank_le_total
  constructor
  case found_iff =>
    constructor
    · rintro ⟨l, hl⟩
      exact hrank l hl
    · intro htotal
      obtain ⟨l, hl, -⟩ := embedLayout_eq_ok site preferred h htotal
      exact ⟨l, hl⟩
  case refused =>
    intro htotal
    cases hl : embedLayout site layout offset outRank preferred with
    | ok l => exact absurd (hrank l hl) (not_le.2 htotal)
    | error f =>
      obtain rfl := embedLayout_eq_error h hl
      exact ⟨_, rfl, rfl, rfl⟩
  case pads => exact fun l hl => pads_of_embedLayout h hl
  case agreeing => exact embedLayout_agreeing site h
  case unconverted =>
    rintro hpreferred hagrees g name x out hx rfl rfl
    exact stretch_without_conversion hx (embedLayout_agreeing site h hpreferred hagrees)
      hpreferred name

/-- The first axis cannot have the slot that it prefers and takes the one that the last axis
prefers. With the layout that is found as the preferred one, nothing has to give way. With more axes
than slots there is no layout. -/
theorem embedLayout_pads_givingWay :
    ∃ layout preferred l : Layout, layout.slots = [.batchLength] ∧
      preferred.slots = [.batchLength, .height, .batchWidth] ∧
      l.slots = [.batchWidth, .batchLength, .listSize] ∧
      1 + layout.rank ≤ 3 ∧
      embedLayout ⟨"Add", "sum"⟩ layout 1 3 preferred = .ok l ∧ Pads layout 1 3 preferred l ∧
      l.HasAt 1 layout ∧ embedLayout ⟨"Add", "sum"⟩ layout 1 3 l = .ok l ∧
      ∃ f, embedLayout ⟨"Add", "sum"⟩ layout 1 8 preferred = .error f ∧
        f.message = "unsupported: Add 'sum': rank 8 exceeds the slot count" := by
  let layout : Layout := ⟨[.batchLength], by decide⟩
  let preferred : Layout := ⟨[.batchLength, .height, .batchWidth], by decide⟩
  let l : Layout := ⟨[.batchWidth, .batchLength, .listSize], by decide⟩
  have hfound : embedLayout ⟨"Add", "sum"⟩ layout 1 3 preferred = .ok l := rfl
  have hpads := (embedLayout_pads ⟨"Add", "sum"⟩ preferred (by decide)).pads l hfound
  have hagain := (embedLayout_pads ⟨"Add", "sum"⟩ l (by decide)).agreeing rfl hpads.kept
  have hroom : 1 + layout.rank ≤ 8 := by decide
  obtain ⟨f, hf, -, rfl⟩ := (embedLayout_pads ⟨"Add", "sum"⟩ preferred hroom).refused (by decide)
  exact ⟨layout, preferred, l, rfl, rfl, rfl, by decide, hfound, hpads, hpads.kept, hagain, _, hf,
    rfl⟩

end Broadcast

end Lamina
