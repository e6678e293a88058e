import Mathlib
import Lamina.Proofs.Wishes

/-!
# Propagating roles again

What an operator asks for is a list of requests that depends on the values alone. A list that
settles is met after it has been granted once. The elementwise operators and the concatenation join
several inputs with the output one after another. The axes of the output are centres then, and what
they learn from a later input comes too late for an earlier one.

**Theorem** (`Operator.propagate_again`): after an operator has propagated roles, doing so once more
succeeds and changes nothing, exactly if no axis of the output has a slot that an axis joined with
it lacks. Once a second propagation succeeds, a third one changes nothing.
-/

namespace Lamina

open RoleM

variable {site : Site} {s t t' : Roles}

namespace Operator

variable {op : Operator} {w : Wiring} {a b b' : Axis}

/-! ### Joins with the output -/

/-- An axis is joined with one axis of the output. -/
theorem Joins.centre (h : op.Joins w t a b) (h' : op.Joins w t a b') : b = b' := by
  have hvalue : b.value = b'.value := Except.ok.inj (h.target.symm.trans h'.target)
  have haxis : b.axis = b'.axis := by
    rcases h with ⟨haction, -, houtput, hinner, houter, hoffset, -⟩ | ⟨haction, -⟩ | ⟨haction, -⟩
    · obtain ⟨-, -, inner, outer, offset, hinner', houter', hoffset', -, haxis⟩ :=
        (joins_eltwise haction).1 h'
      rw [← hvalue] at houter'
      obtain rfl := Except.ok.inj (hinner.symm.trans hinner')
      obtain rfl := Except.ok.inj (houter.symm.trans houter')
      obtain rfl := Except.ok.inj (hoffset.symm.trans hoffset')
      exact haxis.symm
    · obtain ⟨-, -, haxis, -⟩ := (joins_concat haction).1 h'
      exact haxis.symm
    · obtain ⟨-, -, haxis, -⟩ := (joins_concat haction).1 h'
      exact haxis.symm
  obtain ⟨v, i⟩ := b
  obtain ⟨v', i'⟩ := b'
  exact congrArg₂ Axis.mk hvalue haxis

/-- If the output is one of the inputs, its axes are joined with themselves. -/
theorem Joins.rooted (h : op.Joins w t a b) (ha : w.output 0 = .ok a.value) : a = b := by
  rcases h with ⟨-, -, houtput, hinner, houter, hoffset, -⟩ | ⟨-, -, houtput, -⟩ |
    ⟨-, -, houtput, -⟩
  · obtain rfl := Except.ok.inj (houtput.symm.trans ha)
    obtain rfl := Except.ok.inj (hinner.symm.trans houter)
    rw [Broadcast.offset_self] at hoffset
    cases hoffset
    rw [Nat.zero_add]
  · obtain rfl := Except.ok.inj (houtput.symm.trans ha)
    rfl
  · obtain rfl := Except.ok.inj (houtput.symm.trans ha)
    rfl

theorem starry_of_exactly {l : List Request} (h : Exactly t (op.Joins w t) l) : Starry l where
  noPin v axis slot hpin := by
    rcases h.only _ hpin with ⟨e, he⟩ | ⟨a, b, hjoin, -⟩
    · cases he
    · cases hjoin
  centre a b b' hb hb' := (h.joins hb).centre (h.joins hb')
  rooted a b a' hb ha := (h.joins hb).rooted (h.joins ha).target

/-! ### A second and a third propagation -/

/-- An axis of the output has a slot that an axis joined with it lacks. -/
def Lags (op : Operator) (w : Wiring) (t : Roles) : Prop :=
  ∃ a b slot, op.Joins w t a b ∧ t.Live a b ∧ t.roleAt a = none ∧ t.roleAt b = some slot

/-- Joins with the output are met except where an axis lags behind. -/
theorem meets_iff_not_lags {l : List Request} (hexactly : Exactly t' (op.Joins w t') l)
    (h : Takes (grantAll site l) t t') : (∀ r ∈ l, t'.Meets r) ↔ ¬ op.Lags w t' := by
  constructor
  · rintro hmet ⟨a, b, slot, hjoins, hlive, ha, hb⟩
    have hrefuse : ∀ e, .refuse e ∉ l := fun e he => (entered_of_grantAll h _ he).1 e rfl
    rcases hmet _ (hexactly.all hrefuse a b hlive hjoins) with - | - | ⟨-, -, hsame⟩ | hapart
    · rw [ha, hb] at hsame
      cases hsame
    · exact hapart hlive
  · intro hlags r hr
    obtain ⟨hrefuse, hentered⟩ := entered_of_grantAll h r hr
    rcases hexactly.only r hr with ⟨e, he⟩ | ⟨a, b, rfl, hjoins⟩
    · exact absurd he (hrefuse e)
    by_cases hlive : t'.Live a b
    · obtain ⟨hab, hba⟩ := hentered a b rfl hlive
      refine .joined hab hba ?_
      rcases ha : t'.roleAt a with _ | slot
      · rcases hb : t'.roleAt b with _ | slot
        · rfl
        · exact absurd ⟨a, b, slot, hjoins, hlive, ha, hb⟩ hlags
      · exact (fed_of_starry (starry_of_exactly hexactly) h a b hr hlive slot ha).symm
    · exact .apart hlive

/-- **When propagating again changes nothing.** After an operator has propagated roles, doing so
once more succeeds and leaves the same table exactly if no axis lags behind the output, which can
only be with several inputs. A second propagation that succeeds leaves a table that a third one does
not change. -/
theorem propagate_again (op : Operator) (w : Wiring) {t t₁ : Roles}
    (h : Takes (op.propagate w) t t₁) :
    (Takes (op.propagate w) t₁ t₁ ↔ ¬ op.Lags w t₁) ∧
      ∀ t₂, Takes (op.propagate w) t₁ t₂ → Takes (op.propagate w) t₂ t₂ := by
  obtain ⟨l₀, hl₀, -⟩ := op.propagate_plans w t
  have hframe : t₁.frame = t.frame := (grantAll_spec ((hl₀.takes_iff rfl).1 h)).1.frame
  obtain ⟨l, hl, -, hkind⟩ := op.propagate_plans w t₁
  have hrun := (hl.takes_iff hframe.symm).1 h
  rcases hkind with ⟨hsettling, hnone⟩ | hexactly
  · have hstable : Takes (op.propagate w) t₁ t₁ :=
      (hl.takes_iff rfl).2 (grantAll_self_iff.2 (met_of_settling hsettling hrun))
    refine ⟨iff_of_true hstable ?_, ?_⟩
    · rintro ⟨a, b, slot, hjoins, -⟩
      exact hnone a b hjoins
    · intro t₂ h₂
      obtain rfl := hstable.unique h₂
      exact hstable
  · have hstarry := starry_of_exactly hexactly
    constructor
    · rw [hl.takes_iff rfl, grantAll_self_iff, meets_iff_not_lags hexactly hrun]
    · intro t₂ h₂
      have hrun₂ := (hl.takes_iff rfl).1 h₂
      have hmet := met_of_fed hstarry (fed_of_starry hstarry hrun) hrun₂
      exact (hl.takes_iff (grantAll_spec hrun₂).1.frame).2 (grantAll_self_iff.2 hmet)

/-- A sum of two operands. -/
def sum : Operator := ⟨⟨"Add", "add", 12⟩, .eltwise .add .trailing⟩

/-- The sum of the values 0 and 1 is the value 2. -/
def sumWiring : Wiring := ⟨[some ⟨0, 0⟩, some ⟨1, 0⟩], [⟨2, 0⟩]⟩

/-- Two vectors and their sum, where the second vector is pinned. -/
def vectors (left result : Option Slot) (links : List (Axis × Axis)) : Roles :=
  ⟨[[⟨⟨[2]⟩, false, [left]⟩], [⟨⟨[2]⟩, false, [some .channels]⟩], [⟨⟨[2]⟩, false, [result]⟩]],
    links⟩

/-- The links of each vector with the sum, in both directions. -/
def vectorLinks : List (Axis × Axis) :=
  [(⟨⟨0, 0⟩, 0⟩, ⟨⟨2, 0⟩, 0⟩), (⟨⟨2, 0⟩, 0⟩, ⟨⟨0, 0⟩, 0⟩),
    (⟨⟨1, 0⟩, 0⟩, ⟨⟨2, 0⟩, 0⟩), (⟨⟨2, 0⟩, 0⟩, ⟨⟨1, 0⟩, 0⟩)]

/-- What the sum learns from the second vector reaches the first one in the second pass, and then
all is settled. -/
theorem propagate_vectors_again :
    Takes (sum.propagate sumWiring) (vectors none none [])
        (vectors none (some .channels) vectorLinks) ∧
      ¬ Takes (sum.propagate sumWiring) (vectors none (some .channels) vectorLinks)
        (vectors none (some .channels) vectorLinks) ∧
      Takes (sum.propagate sumWiring) (vectors none (some .channels) vectorLinks)
        (vectors (some .channels) (some .channels) vectorLinks) ∧
      Takes (sum.propagate sumWiring) (vectors (some .channels) (some .channels) vectorLinks)
        (vectors (some .channels) (some .channels) vectorLinks) := by
  have hfirst : Takes (sum.propagate sumWiring) (vectors none none [])
      (vectors none (some .channels) vectorLinks) := rfl
  have hsecond : Takes (sum.propagate sumWiring) (vectors none (some .channels) vectorLinks)
      (vectors (some .channels) (some .channels) vectorLinks) := rfl
  have hjoins : sum.Joins sumWiring (vectors none (some .channels) vectorLinks) ⟨⟨0, 0⟩, 0⟩
      ⟨⟨2, 0⟩, 0⟩ := .aligned rfl (by decide) rfl rfl rfl rfl (by decide)
  obtain ⟨hagain, hthird⟩ := propagate_again sum sumWiring hfirst
  refine ⟨hfirst, ?_, hsecond, hthird _ hsecond⟩
  intro hself
  exact hagain.1 hself ⟨_, _, .channels, hjoins, ⟨rfl, rfl⟩, rfl, rfl⟩

/-- Two matrices and their sum, where the columns of the one and the rows of the other are pinned to
the same slot. -/
def matrices : Roles :=
  ⟨[[⟨⟨[2, 1]⟩, false, [none, some .channels]⟩], [⟨⟨[2, 3]⟩, false, [some .channels, none]⟩],
    [⟨⟨[2, 3]⟩, false, [none, none]⟩]], []⟩

/-- The first pass gives the slot to the rows of the sum, and the second one finds that the rows of
the first matrix cannot take it. -/
theorem propagate_matrices_conflict : ∃ t₁,
    Takes (sum.propagate sumWiring) matrices t₁ ∧
      ∀ t₂, ¬ Takes (sum.propagate sumWiring) t₁ t₂ := by
  let t₁ := ((sum.propagate sumWiring).run.run matrices).2
  have h₁ : Takes (sum.propagate sumWiring) matrices t₁ := rfl
  have hfault : ((sum.propagate sumWiring).run.run t₁).1 =
      .error ⟨⟨"Add", "add"⟩, .role (.slotTaken .channels ⟨0, 0⟩ 1)⟩ := rfl
  refine ⟨t₁, h₁, ?_⟩
  intro t₂ h₂
  rw [h₂] at hfault
  cases hfault

end Operator

end Lamina
