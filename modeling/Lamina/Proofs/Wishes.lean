import Mathlib
import Lamina.Proofs.Requests

/-!
# What operators ask of a role table

On tables with the same values, what an operator asks for is always the same list of requests
(`RoleM.Asks`), whatever the roles are; only whether the requests can be granted depends on them.

**Theorem** (`Operator.propagate_plans`): every operator asks for a list of proper requests
(`Request.Proper`): it pins values that it has wires for, and refuses with a fault of its own unless
a value is missing. The list is of one of two kinds.

* An operator that links its output with one input asks for a list that settles: all pins come
  first, and no axis is joined twice.
* The elementwise operators and the concatenation link several inputs with the output one after
  another. They ask for joins only (`Operator.Joins`).

So an operator preserves whatever is preserved by granting one proper request. In this way every
operator keeps a table in order (`Operator.propagate_keeps`).
-/

namespace Lamina

open RoleM

variable {α : Type} {facts : Facts} {site : Site} {w : Wiring} {s t t' : Roles} {v : Wire}

/-! ### Values that there are wires for -/

namespace Wiring

/-- There is a wire for a value: it is an input or the first output. -/
def Has (w : Wiring) (v : Wire) : Prop := some v ∈ w.inputs ∨ w.outputs[0]? = some v

theorem has_input {i : Nat} (h : w.input? i = some v) : w.Has v :=
  .inl (List.mem_of_getElem? (Option.join_eq_some_iff.1 h))

theorem has_bound (h : v ∈ w.inputs.filterMap id) : w.Has v := .inl (by simpa using h)

theorem has_output (h : w.output 0 = .ok v) : w.Has v := by
  unfold output at h
  split at h
  · rename_i hv
    cases h
    exact .inr hv
  · cases h

/-- There is an output, and the table has all values that there are wires for. -/
structure Provided (w : Wiring) (t : Roles) : Prop where
  output : ∃ v, w.outputs[0]? = some v
  rows : ∀ v, w.Has v → ∃ r, t.row? v = some r

theorem Provided.output_yields {P : Fault → Prop} (h : w.Provided t) :
    Yields P (w.output 0) fun _ => True := by
  obtain ⟨v, hv⟩ := h.output
  unfold Wiring.output
  rw [hv]
  exact .ok trivial

theorem Provided.shape_yields {P : Fault → Prop} (h : w.Provided t) (hv : w.Has v) :
    Yields P (t.shape v) fun _ => True := t.shape_yields (h.rows v hv)

theorem Known.knows (h : w.Known facts) (hv : w.Has v) : facts.Knows v := by
  rcases hv with hinput | houtput
  · exact h.inputs v hinput
  · obtain ⟨v', hv', hknown⟩ := h.output
    obtain rfl := Option.some.inj (houtput.symm.trans hv')
    exact hknown

theorem Known.provided (h : w.Known facts) (ht : t.Describes facts) : w.Provided t := by
  obtain ⟨output, houtput, -⟩ := h.output
  refine ⟨⟨output, houtput⟩, fun v hv => ?_⟩
  obtain ⟨op, hop⟩ := h.knows hv
  obtain ⟨r, hr, -⟩ := ht.row?_eq hop
  exact ⟨r, hr⟩

end Wiring

/-- What an operator with these wires may ask of a table. -/
inductive Request.Proper (site : Site) (w : Wiring) (t : Roles) : Request → Prop where
  /-- A value that there is a wire for is pinned. -/
  | pin {v : Wire} (axis : Nat) (slot : Slot) : w.Has v → Proper site w t (.pin v axis slot)
  | join (a b : Axis) : Proper site w t (.join a b)
  /-- If no value is missing, the fault is one of the operator. -/
  | refuse {f : Fault} : (w.Provided t → f.Own site) → Proper site w t (.refuse f)

namespace RoleM

/-! ### Computations that ask for a list of requests -/

/-- On tables with these values, a computation does what granting a list of requests does. -/
def Asks (site : Site) (t : Roles) (x : RoleM Unit) (requests : List Request) : Prop :=
  ∀ s : Roles, s.frame = t.frame → x.run.run s = (grantAll site requests).run.run s

/-- A computation asks for a list of proper requests of some kind. -/
def Plans (site : Site) (w : Wiring) (t : Roles) (x : RoleM Unit) (Q : List Request → Prop) :
    Prop :=
  ∃ requests, Asks site t x requests ∧ (∀ r ∈ requests, r.Proper site w t) ∧ Q requests

theorem Asks.takes_iff {x : RoleM Unit} {requests : List Request} (h : Asks site t x requests)
    (hs : s.frame = t.frame) : Takes x s t' ↔ Takes (grantAll site requests) s t' := by
  unfold Takes
  rw [h s hs]

/-- What is known of granting the requests is known of the computation. -/
theorem Asks.runs {P : Fault → Roles → Prop} {R : Unit → Roles → Prop} {x : RoleM Unit}
    {requests : List Request} (h : Asks site t x requests)
    (hruns : Runs P t (grantAll site requests) R) : Runs P t x R := by
  unfold Runs
  rw [h t rfl]
  exact hruns

namespace Plans

variable {x y : RoleM Unit} {Q R S : List Request → Prop}

theorem imp (h : Plans site w t x Q) (hQ : ∀ l, Q l → R l) : Plans site w t x R := by
  obtain ⟨l, hl, hproper, hq⟩ := h
  exact ⟨l, hl, hproper, hQ l hq⟩

theorem pure (h : Q []) : Plans site w t (Pure.pure ()) Q := ⟨[], fun _ _ => rfl, by simp, h⟩

theorem request {r : Request} (hproper : r.Proper site w t) (h : Q [r]) :
    Plans site w t (grant site r) Q := by
  refine ⟨[r], fun s _ => ?_, by simpa using hproper, h⟩
  have hone : grantAll site [r] = grant site r := bind_pure_unit
  rw [hone]

theorem bind (hx : Plans site w t x Q) (hy : Plans site w t y R)
    (hS : ∀ l l', Q l → R l' → S (l ++ l')) : Plans site w t (x >>= fun _ => y) S := by
  obtain ⟨l, hl, hproper, hq⟩ := hx
  obtain ⟨l', hl', hproper', hr⟩ := hy
  refine ⟨l ++ l', fun s hs => ?_, ?_, hS l l' hq hr⟩
  · have happend : grantAll site (l ++ l') = grantAll site l >>= fun _ => grantAll site l' :=
      List.forM_append
    rw [happend]
    have hfirst := hl s hs
    rcases hrun : (grantAll site l).run.run s with ⟨f | _, u⟩
    · rw [run_bind_error hrun, run_bind_error (hfirst.trans hrun)]
    · rw [run_bind_ok hrun, run_bind_ok (hfirst.trans hrun)]
      exact hl' u ((grantAll_spec hrun).1.frame.trans hs)
  · intro r hr
    rcases List.mem_append.1 hr with hr | hr
    · exact hproper r hr
    · exact hproper' r hr

/-- A look at what all these tables have in common. -/
theorem get {f : Roles → RoleM Unit} (hf : ∀ s, s.frame = t.frame → f s = f t)
    (h : Plans site w t (f t) Q) : Plans site w t (MonadState.get >>= f) Q := by
  obtain ⟨l, hl, hproper, hq⟩ := h
  refine ⟨l, fun s hs => ?_, hproper, hq⟩
  rw [← hl s hs, ← hf s hs]
  rfl

/-- A result that may be a fault comes first. -/
theorem lift {y : Except Fault α} {f : α → RoleM Unit} {G : α → Prop}
    (hy : w.Provided t → Yields (Fault.Own site) y G) (hrefuse : ∀ e, Q [.refuse e])
    (h : ∀ a, y = .ok a → Plans site w t (f a) Q) : Plans site w t (liftM y >>= f) Q := by
  rcases y with e | a
  · exact ⟨[.refuse e], fun s _ => rfl, by simpa using .refuse hy, hrefuse e⟩
  · exact h a rfl

/-- The first output is looked up. -/
theorem output {f : Wire → RoleM Unit} (hrefuse : ∀ e, Q [.refuse e])
    (h : ∀ v, w.output 0 = .ok v → Plans site w t (f v) Q) :
    Plans site w t (liftM (w.output 0) >>= f) Q :=
  lift Wiring.Provided.output_yields hrefuse h

/-- The shape of a value that there is a wire for is looked up. -/
theorem shape {f : Shape → RoleM Unit} (hv : w.Has v) (hrefuse : ∀ e, Q [.refuse e])
    (h : ∀ s, t.shape v = .ok s → Plans site w t (f s) Q) :
    Plans site w t (MonadState.get >>= fun t => liftM (t.shape v) >>= f) Q :=
  get (fun s hs => by simp only [Roles.shape_congr hs])
    (lift (fun hw => hw.shape_yields hv) hrefuse h)

theorem fail {cause : Cause} (hcause : cause.isNetwork = false) (hrefuse : ∀ e, Q [.refuse e]) :
    Plans site w t (liftM (site.fail cause : Except Fault Unit)) Q := by
  have hown : Yields (Fault.Own site) (site.fail cause : Except Fault Unit) fun _ => True :=
    .own hcause
  exact ⟨[.refuse ⟨site, cause⟩], fun _ _ => rfl, by simpa using .refuse fun _ => hown, hrefuse _⟩

/-- One request for each entry of a list. -/
theorem forM_request {ι : Type} {f : ι → RoleM Unit} {l : List ι} (r : ι → Request)
    (hf : ∀ i ∈ l, f i = grant site (r i)) (hproper : ∀ i, (r i).Proper site w t)
    (h : Q (l.map r)) : Plans site w t (l.forM f) Q := by
  refine ⟨l.map r, fun s _ => ?_, by simpa using fun i _ => hproper i, h⟩
  have hsame : l.forM f = grantAll site (l.map r) := by
    clear h
    induction l with
    | nil => rfl
    | cons i l ih =>
      show (f i >>= fun _ => l.forM f) = (grant site (r i) >>= fun _ => grantAll site (l.map r))
      rw [hf i List.mem_cons_self, ih fun j hj => hf j (List.mem_cons_of_mem _ hj)]
  rw [hsame]

end Plans

/-! ### Pins, and then joins -/

/-- No axes are joined. -/
def Unjoined (requests : List Request) : Prop := ∀ a b, Request.join a b ∉ requests

theorem unjoined_nil : Unjoined [] := fun _ _ => List.not_mem_nil

theorem unjoined_refuse (e : Fault) : Unjoined [.refuse e] := by simp [Unjoined]

theorem Unjoined.append {l l' : List Request} (h : Unjoined l) (h' : Unjoined l') :
    Unjoined (l ++ l') := by
  intro a b hab
  rcases List.mem_append.1 hab with hab | hab
  · exact h a b hab
  · exact h' a b hab

theorem settling_refuse (e : Fault) : Settling [.refuse e] := List.pairwise_singleton _ _

theorem Unjoined.settling {l l' : List Request} (h : Unjoined l) (h' : Settling l') :
    Settling (l ++ l') := by
  have hfirst : ∀ r ∈ l, ∀ a b, r ≠ .join a b := by
    rintro r hr a b rfl
    exact h a b hr
  refine List.pairwise_append.2 ⟨?_, h', ?_⟩
  · apply List.pairwise_of_forall_mem_list
    intro r hr r' hr' a b hjoin
    exact absurd hjoin (hfirst r hr a b)
  · intro r hr r' hr' a b hjoin
    exact absurd hjoin (hfirst r hr a b)

/-- Axes of two values that are matched with each other, or axes of one value. -/
theorem settling_joins (a b : Wire) {l : List (Nat × Nat)}
    (h : l.Pairwise fun p q => p.1 ≠ q.1 ∧ p.2 ≠ q.2) :
    Settling (l.map fun p => .join ⟨a, p.1⟩ ⟨b, p.2⟩) := by
  unfold Settling
  rw [List.pairwise_map]
  refine h.imp ?_
  rintro ⟨i, j⟩ ⟨i', j'⟩ ⟨hi, hj⟩ x y hjoin
  cases hjoin
  constructor
  · rintro (_ | hvalue | hvalue)
    · exact hi rfl
    · exact hvalue rfl
  · rintro (_ | hvalue | hvalue)
    · exact hvalue rfl
    · exact hj rfl

theorem pinAll_plans (hv : w.Has v) (slots : List Slot) :
    Plans site w t (pinAll site v slots) Unjoined := by
  unfold pinAll
  refine .shape hv unjoined_refuse fun shape _ => ?_
  split
  · exact .fail rfl unjoined_refuse
  · refine .forM_request (fun p => .pin v p.2 p.1) (fun _ _ => rfl) (fun p => .pin p.2 p.1 hv) ?_
    intro a b hab
    simp at hab

/-- Values are linked axis by axis. -/
theorem link_plans (a b : Wire) : Plans site w t (link site a b) Settling := by
  unfold link
  refine .get (fun s hs => by simp only [Roles.shape_congr hs, Roles.isConstant_congr hs]) ?_
  dsimp only
  split
  · exact .pure List.Pairwise.nil
  · rename_i hconstant
    rw [Bool.not_eq_true, Bool.or_eq_false_iff] at hconstant
    refine .lift (fun _ => t.shape_of_live hconstant.1) settling_refuse fun shapeA _ => ?_
    refine .lift (fun _ => t.shape_of_live hconstant.2) settling_refuse fun shapeB _ => ?_
    split
    · exact .fail rfl settling_refuse
    · refine .forM_request (fun axis => .join ⟨a, axis⟩ ⟨b, axis⟩) (fun _ _ => rfl)
        (fun _ => .join _ _) ?_
      have hpairs : ((List.range shapeA.rank).map fun axis => (axis, axis)).Pairwise
          fun p q => p.1 ≠ q.1 ∧ p.2 ≠ q.2 := by
        rw [List.pairwise_map]
        exact List.nodup_range.imp fun hne => ⟨hne, hne⟩
      have hjoins := settling_joins a b hpairs
      rwa [List.map_map] at hjoins

/-- Distinct axes are matched with the axes of a value in order. -/
theorem settling_zipIdx (a b : Wire) {axes : List Nat} (h : axes.Nodup) :
    Settling (axes.zipIdx.map fun p => .join ⟨a, p.1⟩ ⟨b, p.2⟩) := by
  apply settling_joins
  rw [List.pairwise_iff_getElem]
  intro i j hi hj hlt
  simp only [List.length_zipIdx] at hi hj
  simp only [List.getElem_zipIdx, Nat.zero_add]
  exact ⟨fun heq => hlt.ne ((h.getElem_inj_iff).1 heq), hlt.ne⟩

theorem nodup_otherAxes (rank : Nat) (axes : List Nat) : (Shape.otherAxes rank axes).Nodup :=
  List.nodup_range.filter _

end RoleM

/-! ### Operators with one input -/

section Operators

variable (h : Header) (w : Wiring)

theorem linkThrough_plans : Plans h.site w t (linkThrough h w) Settling := by
  unfold linkThrough
  split
  · exact .output settling_refuse fun output _ => link_plans _ output
  · exact .pure List.Pairwise.nil

/-- Windowed operators pin all axes of input and output. -/
theorem pinWindow_plans : Plans h.site w t (pinWindow h w) Unjoined := by
  unfold pinWindow
  refine .output unjoined_refuse fun output houtput => ?_
  have hhas := Wiring.has_output houtput
  refine .shape hhas unjoined_refuse fun shape _ => ?_
  refine .lift (fun _ => Window.slots_yields _ _) unjoined_refuse fun slots _ => ?_
  dsimp only
  split
  · rename_i input hinput
    exact (pinAll_plans (Wiring.has_input hinput) slots).bind (pinAll_plans hhas slots)
      fun _ _ => .append
  · exact pinAll_plans hhas slots

theorem pinChannels_plans : Plans h.site w t (pinChannels h w) Settling := by
  have hpin : ∀ v, w.Has v → Plans h.site w t (discard (pin h.site v 1 .channels)) Unjoined := by
    intro v hv
    exact .request (r := .pin v 1 .channels) (.pin _ _ hv) (by simp [Unjoined])
  unfold pinChannels
  refine .output settling_refuse fun output houtput => ?_
  refine (hpin output (Wiring.has_output houtput)).bind (R := Settling) ?_
    fun _ _ => Unjoined.settling
  split
  · rename_i input hinput
    exact (hpin input (Wiring.has_input hinput)).bind (link_plans input output)
      fun _ _ => Unjoined.settling
  · exact .pure List.Pairwise.nil

theorem pinBoth_plans (output input : List Slot) :
    Plans h.site w t (pinBoth h w output input) Unjoined := by
  unfold pinBoth
  refine .output unjoined_refuse fun v hv => ?_
  refine (pinAll_plans (Wiring.has_output hv) output).bind (R := Unjoined) ?_ fun _ _ => .append
  split
  · rename_i hinput
    exact pinAll_plans (Wiring.has_input hinput) input
  · exact .pure unjoined_nil

theorem propagateMatMul_plans : Plans h.site w t (propagateMatMul h w) Unjoined := by
  unfold propagateMatMul
  split
  · rename_i a b ha hb
    have hhas := Wiring.has_input ha
    refine .get (fun s hs => by simp only [Roles.shape_congr hs, Roles.isConstant_congr hs]) ?_
    split
    · refine .lift (fun hw => hw.shape_yields (Wiring.has_input hb)) unjoined_refuse
        fun shapeB _ => ?_
      split
      · refine .lift (fun hw => hw.shape_yields hhas) unjoined_refuse fun shapeA _ => ?_
        split
        · refine (pinAll_plans hhas _).bind (R := Unjoined) ?_ fun _ _ => .append
          refine .output unjoined_refuse fun output houtput => ?_
          exact pinAll_plans (Wiring.has_output houtput) _
        · exact .pure unjoined_nil
      · exact .pure unjoined_nil
    · exact .pure unjoined_nil
  · exact .pure unjoined_nil

theorem propagateSoftmax_plans (axis : Int64) :
    Plans h.site w t (propagateSoftmax h axis w) Unjoined := by
  unfold propagateSoftmax
  refine .output unjoined_refuse fun output houtput => ?_
  refine .shape (Wiring.has_output houtput) unjoined_refuse fun shape _ => ?_
  refine .lift (fun _ => softmaxSlots_yields h axis _) unjoined_refuse fun slots _ => ?_
  exact pinBoth_plans h w slots slots

variable {w}

/-- The axes that are kept share their roles. -/
theorem linkKept_plans {wide narrow : Wire} (hwide : w.Has wide) (hnarrow : w.Has narrow) :
    Plans h.site w t (linkKept h wide narrow) Settling := by
  unfold linkKept
  refine .get (fun s hs => by simp only [Roles.shape_congr hs]) ?_
  refine .lift (fun hw => hw.shape_yields hwide) settling_refuse fun outer _ => ?_
  refine .lift (fun hw => hw.shape_yields hnarrow) settling_refuse fun inner _ => ?_
  refine .forM_request (fun p => .join ⟨wide, p.1⟩ ⟨narrow, p.2⟩) (fun _ _ => rfl)
    (fun _ => .join _ _) ?_
  exact settling_zipIdx wide narrow (nodup_otherAxes _ _)

variable (w)

theorem propagateReduceMean_plans (axes : Option (List Int64)) (keepDims : Bool) :
    Plans h.site w t (propagateReduceMean h axes keepDims w) Settling := by
  unfold propagateReduceMean
  split
  · exact .pure List.Pairwise.nil
  · rename_i input hinput
    have hhas := Wiring.has_input hinput
    refine .output settling_refuse fun output _ => ?_
    refine .shape hhas settling_refuse fun shape _ => ?_
    refine .lift (fun _ => reducedAxes_yields h axes _) settling_refuse fun reduced _ => ?_
    split
    · have hpins : Plans h.site w t ((reduced.zip pooledSlots).forM fun p =>
          discard (pin h.site input p.1 p.2)) Unjoined := by
        refine .forM_request (fun p => .pin input p.1 p.2) (fun _ _ => rfl)
          (fun p => .pin p.1 p.2 hhas) ?_
        intro a b hab
        simp at hab
      refine hpins.bind (R := Settling) ?_ fun _ _ => Unjoined.settling
      split
      · exact link_plans input output
      · refine .forM_request (fun p => .join ⟨input, p.1⟩ ⟨output, p.2⟩) (fun _ _ => rfl)
          (fun _ => .join _ _) ?_
        exact settling_zipIdx input output (nodup_otherAxes _ _)
    · exact .pure List.Pairwise.nil

end Operators

/-! ### Operators with several inputs -/

/-- Two axes of the same extent, of which there is more than one position. -/
def Shape.Matching (inner outer : Shape) (i j : Nat) : Prop :=
  i < inner.rank ∧ j < outer.rank ∧ 1 < inner.extent i ∧ inner.extent i = outer.extent j

instance (inner outer : Shape) (i j : Nat) : Decidable (inner.Matching outer i j) :=
  inferInstanceAs (Decidable (_ ∧ _))

/-- An axis of an input and the axis of the output that an operator with several inputs joins it
with. -/
inductive Operator.Joins (op : Operator) (w : Wiring) (t : Roles) : Axis → Axis → Prop where
  /-- An elementwise operator joins the axes that are aligned and are not repeated. -/
  | aligned {e : Pointwise} {mode : Alignment} {input output : Wire} {inner outer : Shape}
    {offset axis : Nat} : op.action = .eltwise e mode → input ∈ w.inputs.filterMap id →
    w.output 0 = .ok output → t.shape input = .ok inner → t.shape output = .ok outer →
    Broadcast.offset op.header.site mode inner.rank outer.rank = .ok offset →
    inner.Matching outer axis (offset + axis) → Joins op w t ⟨input, axis⟩ ⟨output, offset + axis⟩
  /-- A concatenation joins the axes in which input and output do not differ. -/
  | kept {joined : Int64} {input output : Wire} {inner outer : Shape} {axis : Nat} :
    op.action = .concat joined → input ∈ w.inputs.filterMap id → w.output 0 = .ok output →
    t.shape input = .ok inner → t.shape output = .ok outer → inner.Matching outer axis axis →
    Joins op w t ⟨input, axis⟩ ⟨output, axis⟩
  /-- A concatenation joins the axes along which it joins the inputs. -/
  | joined {joined : Int64} {input output : Wire} {outer : Shape} {axis : Nat} :
    op.action = .concat joined → input ∈ w.inputs.filterMap id → w.output 0 = .ok output →
    t.shape output = .ok outer → op.header.axis joined outer.rank = .ok axis →
    Joins op w t ⟨input, axis⟩ ⟨output, axis⟩

namespace RoleM

/-- A list refuses or asks for exactly some joins, those with constants apart. -/
structure Exactly (t : Roles) (J : Axis → Axis → Prop) (requests : List Request) : Prop where
  /-- Nothing else is asked for. -/
  only : ∀ r ∈ requests, (∃ e, r = .refuse e) ∨ ∃ a b, r = .join a b ∧ J a b
  /-- All of them are asked for. -/
  all : (∀ e, .refuse e ∉ requests) → ∀ a b, t.Live a b → J a b → .join a b ∈ requests

theorem Exactly.joins {J : Axis → Axis → Prop} {l : List Request} {a b : Axis}
    (h : Exactly t J l) (hab : .join a b ∈ l) : J a b := by
  rcases h.only _ hab with ⟨e, he⟩ | ⟨a', b', hjoin, hJ⟩
  · cases he
  · cases hjoin
    exact hJ

theorem exactly_refuse (J : Axis → Axis → Prop) (e : Fault) : Exactly t J [.refuse e] where
  only _ hr := .inl ⟨e, List.mem_singleton.1 hr⟩
  all hrefuse := absurd (List.mem_singleton_self _) (hrefuse e)

theorem exactly_nil {J : Axis → Axis → Prop} (h : ∀ a b, t.Live a b → ¬ J a b) :
    Exactly t J [] where
  only _ hr := absurd hr List.not_mem_nil
  all _ a b hlive hab := absurd hab (h a b hlive)

theorem Exactly.append {J K L : Axis → Axis → Prop} {l l' : List Request} (h : Exactly t J l)
    (h' : Exactly t K l') (hL : ∀ a b, L a b ↔ J a b ∨ K a b) : Exactly t L (l ++ l') where
  only r hr := by
    rcases List.mem_append.1 hr with hr | hr
    · rcases h.only r hr with he | ⟨a, b, rfl, hab⟩
      · exact .inl he
      · exact .inr ⟨a, b, rfl, (hL a b).2 (.inl hab)⟩
    · rcases h'.only r hr with he | ⟨a, b, rfl, hab⟩
      · exact .inl he
      · exact .inr ⟨a, b, rfl, (hL a b).2 (.inr hab)⟩
  all hrefuse a b hlive hab := by
    rcases (hL a b).1 hab with hab | hab
    · exact List.mem_append_left _
        (h.all (fun e he => hrefuse e (List.mem_append_left _ he)) a b hlive hab)
    · exact List.mem_append_right _
        (h'.all (fun e he => hrefuse e (List.mem_append_right _ he)) a b hlive hab)

theorem Exactly.congr {J K : Axis → Axis → Prop} {l : List Request} (h : Exactly t J l)
    (hK : ∀ a b, J a b ↔ K a b) : Exactly t K l := by
  have heq : J = K := by
    funext a b
    exact propext (hK a b)
  exact heq ▸ h

/-- What is asked for each entry of a list. -/
theorem Plans.forM_exactly {ι : Type} {f : ι → RoleM Unit} {J : ι → Axis → Axis → Prop}
    {l : List ι} (h : ∀ i ∈ l, Plans site w t (f i) (Exactly t (J i))) :
    Plans site w t (l.forM f) (Exactly t fun a b => ∃ i ∈ l, J i a b) := by
  induction l with
  | nil => exact .pure (exactly_nil fun a b _ => by simp)
  | cons i l ih =>
    refine (h i List.mem_cons_self).bind (ih fun j hj => h j (List.mem_cons_of_mem _ hj)) ?_
    intro l₁ l₂ h₁ h₂
    exact h₁.append h₂ fun a b => by simp

theorem linkAxes_exactly (a b : Axis) :
    Plans site w t (linkAxes site a b) (Exactly t fun x y => x = a ∧ y = b) := by
  refine .request (r := .join a b) (.join a b) ⟨?_, ?_⟩
  · intro r hr
    exact .inr ⟨a, b, List.mem_singleton.1 hr, rfl, rfl⟩
  · rintro - x y - ⟨rfl, rfl⟩
    exact List.mem_singleton_self _

theorem linkMatching_exactly (input : Wire) (offset : Nat) (output : Wire) :
    Plans site w t (linkMatching site input offset output) (Exactly t fun a b =>
      ∃ inner outer axis, t.shape input = .ok inner ∧ t.shape output = .ok outer ∧
        inner.Matching outer axis (offset + axis) ∧ a = ⟨input, axis⟩ ∧
        b = ⟨output, offset + axis⟩) := by
  unfold linkMatching
  refine .get (fun s hs => by simp only [Roles.shape_congr hs, Roles.isConstant_congr hs]) ?_
  dsimp only
  split
  · rename_i hconstant
    refine .pure (exactly_nil ?_)
    rintro _ _ hlive ⟨inner, outer, axis, -, -, -, rfl, rfl⟩
    rw [hlive.1, hlive.2] at hconstant
    cases hconstant
  · rename_i hconstant
    rw [Bool.not_eq_true, Bool.or_eq_false_iff] at hconstant
    refine .lift (fun _ => t.shape_of_live hconstant.1) (exactly_refuse _) fun inner hinner => ?_
    refine .lift (fun _ => t.shape_of_live hconstant.2) (exactly_refuse _) fun outer houter => ?_
    have hloop : ∀ axis ∈ List.range inner.rank, Plans site w t
        (if offset + axis < outer.rank ∧ 1 < inner.extent axis ∧
            inner.extent axis = outer.extent (offset + axis) then
          linkAxes site ⟨input, axis⟩ ⟨output, offset + axis⟩ else Pure.pure ())
        (Exactly t fun a b => inner.Matching outer axis (offset + axis) ∧ a = ⟨input, axis⟩ ∧
          b = ⟨output, offset + axis⟩) := by
      intro axis haxis
      have hrank := List.mem_range.1 haxis
      split
      · rename_i hmatch
        refine (linkAxes_exactly _ _).imp fun l hl => hl.congr fun a b => ?_
        exact (and_iff_right ⟨hrank, hmatch⟩).symm
      · rename_i hmatch
        refine .pure (exactly_nil ?_)
        rintro a b - ⟨hmatching, -⟩
        exact hmatch hmatching.2
    refine (Plans.forM_exactly hloop).imp fun l hl => hl.congr fun a b => ?_
    constructor
    · rintro ⟨axis, -, hmatching, rfl, rfl⟩
      exact ⟨inner, outer, axis, hinner, houter, hmatching, rfl, rfl⟩
    · rintro ⟨inner', outer', axis, hinner', houter', hmatching, rfl, rfl⟩
      obtain rfl := Except.ok.inj (hinner.symm.trans hinner')
      obtain rfl := Except.ok.inj (houter.symm.trans houter')
      exact ⟨axis, List.mem_range.2 hmatching.1, hmatching, rfl, rfl⟩

end RoleM

namespace Operator

variable {op : Operator} {w : Wiring} {a b b' : Axis}

theorem Joins.source (h : op.Joins w t a b) : a.value ∈ w.inputs.filterMap id := by
  rcases h with ⟨-, hmem, -⟩ | ⟨-, hmem, -⟩ | ⟨-, hmem, -⟩
  · exact hmem
  · exact hmem
  · exact hmem

/-- The axes of the output are the centres. -/
theorem Joins.target (h : op.Joins w t a b) : w.output 0 = .ok b.value := by
  rcases h with ⟨-, -, houtput, -⟩ | ⟨-, -, houtput, -⟩ | ⟨-, -, houtput, -⟩
  · exact houtput
  · exact houtput
  · exact houtput

/-- An operator that makes the joins of each input in turn makes all of them. -/
theorem inputs_exactly {site : Site} {f : Wire → RoleM Unit}
    (h : ∀ input ∈ w.inputs.filterMap id,
      Plans site w t (f input) (Exactly t fun a b => op.Joins w t a b ∧ a.value = input)) :
    Plans site w t ((w.inputs.filterMap id).forM f) (Exactly t (op.Joins w t)) := by
  refine (Plans.forM_exactly h).imp fun l hl => hl.congr fun a b => ?_
  constructor
  · rintro ⟨input, -, hjoins, -⟩
    exact hjoins
  · intro hjoins
    exact ⟨a.value, hjoins.source, hjoins, rfl⟩

/-- An elementwise operator joins an axis with the one that it is aligned with. -/
theorem joins_eltwise {e : Pointwise} {mode : Alignment} (haction : op.action = .eltwise e mode) :
    op.Joins w t a b ↔ a.value ∈ w.inputs.filterMap id ∧ w.output 0 = .ok b.value ∧
      ∃ inner outer offset, t.shape a.value = .ok inner ∧ t.shape b.value = .ok outer ∧
        Broadcast.offset op.header.site mode inner.rank outer.rank = .ok offset ∧
        inner.Matching outer a.axis (offset + a.axis) ∧ b.axis = offset + a.axis := by
  constructor
  · rintro (⟨haction', hmem, houtput, hinner, houter, hoffset, hmatch⟩ | ⟨haction', -⟩ |
      ⟨haction', -⟩)
    · rw [haction] at haction'
      cases haction'
      exact ⟨hmem, houtput, _, _, _, hinner, houter, hoffset, hmatch, rfl⟩
    · rw [haction] at haction'
      cases haction'
    · rw [haction] at haction'
      cases haction'
  · obtain ⟨output, axis⟩ := b
    rintro ⟨hmem, houtput, inner, outer, offset, hinner, houter, hoffset, hmatch, rfl⟩
    exact .aligned haction hmem houtput hinner houter hoffset hmatch

/-- A concatenation joins an axis with the same axis of the output. -/
theorem joins_concat {joined : Int64} (haction : op.action = .concat joined) :
    op.Joins w t a b ↔ a.value ∈ w.inputs.filterMap id ∧ w.output 0 = .ok b.value ∧
      b.axis = a.axis ∧ ∃ outer, t.shape b.value = .ok outer ∧
        ((∃ inner, t.shape a.value = .ok inner ∧ inner.Matching outer a.axis a.axis) ∨
          op.header.axis joined outer.rank = .ok a.axis) := by
  constructor
  · rintro (⟨haction', -⟩ | ⟨haction', hmem, houtput, hinner, houter, hmatch⟩ |
      ⟨haction', hmem, houtput, houter, haxis⟩)
    · rw [haction] at haction'
      cases haction'
    · exact ⟨hmem, houtput, rfl, _, houter, .inl ⟨_, hinner, hmatch⟩⟩
    · rw [haction] at haction'
      cases haction'
      exact ⟨hmem, houtput, rfl, _, houter, .inr haxis⟩
  · obtain ⟨output, axis⟩ := b
    rintro ⟨hmem, houtput, rfl, outer, houter, ⟨inner, hinner, hmatch⟩ | haxis⟩
    · exact .kept haction hmem houtput hinner houter hmatch
    · exact .joined haction hmem houtput houter haxis

theorem eltwise_exactly {e : Pointwise} {mode : Alignment} (haction : op.action = .eltwise e mode) :
    Plans op.header.site w t (propagateEltwise op.header mode w) (Exactly t (op.Joins w t)) := by
  unfold propagateEltwise
  refine .output (exactly_refuse _) fun output houtput => ?_
  refine .shape (Wiring.has_output houtput) (exactly_refuse _) fun outer houter => ?_
  have hinput : ∀ input ∈ w.inputs.filterMap id, Plans op.header.site w t (do
      let rank := (← (← MonadState.get).shape input).rank
      let offset ← Broadcast.offset op.header.site mode rank outer.rank
      linkMatching op.header.site input offset output) (Exactly t fun a b =>
        op.Joins w t a b ∧ a.value = input) := by
    intro input hmem
    refine .shape (Wiring.has_bound hmem) (exactly_refuse _) fun inner hinner => ?_
    refine .lift (fun _ => Broadcast.offset_yields _ _ _ _) (exactly_refuse _)
      fun offset hoffset => ?_
    refine (linkMatching_exactly input offset output).imp fun l hl => hl.congr fun a b => ?_
    rw [joins_eltwise haction]
    constructor
    · rintro ⟨inner', outer', axis, hinner', houter', hmatch, rfl, rfl⟩
      obtain rfl := Except.ok.inj (hinner.symm.trans hinner')
      obtain rfl := Except.ok.inj (houter.symm.trans houter')
      exact ⟨⟨hmem, houtput, inner, outer, offset, hinner, houter, hoffset, hmatch, rfl⟩, rfl⟩
    · obtain ⟨output', axis'⟩ := b
      rintro ⟨⟨-, houtput', inner', outer', offset', hinner', houter', hoffset', hmatch, rfl⟩, rfl⟩
      obtain rfl := Except.ok.inj (houtput.symm.trans houtput')
      obtain rfl := Except.ok.inj (hinner.symm.trans hinner')
      obtain rfl := Except.ok.inj (houter.symm.trans houter')
      obtain rfl := Except.ok.inj (hoffset.symm.trans hoffset')
      exact ⟨inner, outer, a.axis, hinner, houter, hmatch, rfl, rfl⟩
  exact inputs_exactly hinput

theorem concat_exactly {joined : Int64} (haction : op.action = .concat joined) :
    Plans op.header.site w t (propagateConcat op.header joined w) (Exactly t (op.Joins w t)) := by
  unfold propagateConcat
  refine .output (exactly_refuse _) fun output houtput => ?_
  refine .shape (Wiring.has_output houtput) (exactly_refuse _) fun outer houter => ?_
  refine .lift (fun _ => op.header.axis_yields joined _) (exactly_refuse _) fun axis haxis => ?_
  have hinput : ∀ input ∈ w.inputs.filterMap id, Plans op.header.site w t (do
      linkMatching op.header.site input 0 output
      linkAxes op.header.site ⟨input, axis⟩ ⟨output, axis⟩) (Exactly t fun a b =>
        op.Joins w t a b ∧ a.value = input) := by
    intro input hmem
    refine (linkMatching_exactly input 0 output).bind (linkAxes_exactly _ _) ?_
    intro l l' hl hl'
    refine hl.append hl' fun a b => ?_
    rw [joins_concat haction]
    constructor
    · obtain ⟨input', axis'⟩ := a
      obtain ⟨output', axis''⟩ := b
      rintro ⟨⟨-, houtput', rfl, outer', houter', hkind⟩, rfl⟩
      obtain rfl := Except.ok.inj (houtput.symm.trans houtput')
      obtain rfl := Except.ok.inj (houter.symm.trans houter')
      rcases hkind with ⟨inner, hinner, hmatch⟩ | haxis'
      · exact .inl ⟨inner, outer, axis'', hinner, houter, by simpa using hmatch, rfl, by simp⟩
      · obtain rfl := Except.ok.inj (haxis.symm.trans haxis')
        exact .inr ⟨rfl, rfl⟩
    · rintro (⟨inner, outer', axis', hinner, houter', hmatch, rfl, rfl⟩ | ⟨rfl, rfl⟩)
      · obtain rfl := Except.ok.inj (houter.symm.trans houter')
        rw [Nat.zero_add] at hmatch ⊢
        exact ⟨⟨hmem, houtput, rfl, outer, houter, .inl ⟨inner, hinner, hmatch⟩⟩, rfl⟩
      · exact ⟨⟨hmem, houtput, rfl, outer, houter, .inr haxis⟩, rfl⟩
  exact inputs_exactly hinput

/-- Other operators join no axes one after another. -/
theorem not_joins (heltwise : ∀ e mode, op.action ≠ .eltwise e mode)
    (hconcat : ∀ joined, op.action ≠ .concat joined) : ¬ op.Joins w t a b := by
  rintro (⟨haction, -⟩ | ⟨haction, -⟩ | ⟨haction, -⟩)
  · exact heltwise _ _ haction
  · exact hconcat _ haction
  · exact hconcat _ haction

/-- **What an operator asks for** is proper, and settles in one pass or consists of joins with the
axes of the output. -/
theorem propagate_plans (op : Operator) (w : Wiring) (t : Roles) :
    Plans op.header.site w t (op.propagate w) fun l =>
      (Settling l ∧ ∀ a b, ¬ op.Joins w t a b) ∨ Exactly t (op.Joins w t) l := by
  have hunjoined : ∀ l, Unjoined l → Settling l := by
    intro l hl
    simpa using hl.settling List.Pairwise.nil
  by_cases heltwise : ∃ e mode, op.action = .eltwise e mode
  · obtain ⟨e, mode, haction⟩ := heltwise
    simp only [propagate, haction]
    exact (eltwise_exactly haction).imp fun l hl => .inr hl
  by_cases hconcat : ∃ joined, op.action = .concat joined
  · obtain ⟨joined, haction⟩ := hconcat
    simp only [propagate, haction]
    exact (concat_exactly haction).imp fun l hl => .inr hl
  have hnone : ∀ a b, ¬ op.Joins w t a b := by
    intro a b
    apply not_joins
    · exact fun e mode haction => heltwise ⟨e, mode, haction⟩
    · exact fun joined haction => hconcat ⟨joined, haction⟩
  suffices hsettling : Plans op.header.site w t (op.propagate w) Settling from
    hsettling.imp fun l hl => .inl ⟨hl, hnone⟩
  unfold propagate
  cases haction : op.action
  case eltwise e mode => exact absurd ⟨e, mode, haction⟩ heltwise
  case concat joined => exact absurd ⟨joined, haction⟩ hconcat
  case identity | activation | slice => exact linkThrough_plans _ w
  case conv | pool | globalPool => exact (pinWindow_plans _ w).imp hunjoined
  case batchNorm | lrn => exact pinChannels_plans _ w
  case gemm | lstm => exact (pinBoth_plans _ w _ _).imp hunjoined
  case matMul => exact (propagateMatMul_plans _ w).imp hunjoined
  case softmax axis => exact (propagateSoftmax_plans _ w axis).imp hunjoined
  case squeeze =>
    dsimp only
    split
    · rename_i input hinput
      refine .output settling_refuse fun output houtput => ?_
      exact linkKept_plans _ (Wiring.has_input hinput) (Wiring.has_output houtput)
    · exact .pure List.Pairwise.nil
  case unsqueeze =>
    dsimp only
    split
    · rename_i input hinput
      refine .output settling_refuse fun output houtput => ?_
      exact linkKept_plans _ (Wiring.has_output houtput) (Wiring.has_input hinput)
    · exact .pure List.Pairwise.nil
  case reduceMean axes keepDims => exact propagateReduceMean_plans _ w axes keepDims
  -- the others ask for nothing
  all_goals exact .pure List.Pairwise.nil

end Operator

/-! ### Tables that stay in order -/

/-- Granting a proper request keeps a table in order. -/
theorem Request.Proper.keeps {r : Request} (h : r.Proper site w t) (ht : t.Describes facts)
    (hw : w.Known facts) : Keeps facts site (grant site r) fun _ => True := by
  cases h with
  | pin axis slot hv => exact (pin_keeps (hw.knows hv) axis slot).discard
  | join a b => exact linkAxes_keeps a b
  | refuse hf => exact .lift (hf (hw.provided ht))

/-- Whoever asks for proper requests keeps a table in order. -/
theorem RoleM.Plans.keeps {x : RoleM Unit} {Q : Roles → List Request → Prop}
    (h : ∀ t, Plans site w t x (Q t)) (hw : w.Known facts) : Keeps facts site x fun _ => True := by
  intro t ht
  obtain ⟨l, hl, hproper, -⟩ := h t
  have hkeeps : Keeps facts site (grantAll site l) fun _ => True :=
    .forM fun r hr => (hproper r hr).keeps ht hw
  exact hl.runs (hkeeps t ht)

/-- **Every operator's wishes keep the table in order**, and fail at the operator only. -/
theorem Operator.propagate_keeps (op : Operator) (hw : w.Known facts) :
    Keeps facts op.header.site (op.propagate w) fun _ => True :=
  Plans.keeps (op.propagate_plans w) hw

end Lamina
