import Mathlib
import Lamina.Proofs.Adapting
import Lamina.Proofs.Windows

/-!
# How many positions a window takes

A node describes its window by attributes, some of which may be left out. Resolving the window
against the extents of an input is a matter of divisions that round: down for the number of
positions, up for the padding that is to make room for them. Here the results are stated by
inequalities, without divisions.

* The positions of a resolved window are all that there is room for: the last one ends within the
  padded axis, and another one would not (`Window.Tight`).
* Padding of the two modes that work it out makes room for one position per stride that is begun,
  and never for less than one. So the padding, which is found by dividing the extent, is inverted
  by the number of positions, which is found by dividing what is padded
  (`Window.sameExtent_output`). This holds for extents of zero and for strides beyond the window as
  well.
* There are three reasons for a window not to be resolved: its attributes do not fit together
  (`Window.resolve_cases`), it has no room, or a size on the way has no word
  (`Window.slide_unresolved`).

**Theorem** (`Window.resolve_geometry`): all of this for every window and all extents. The condition
that sizes have words is `Window.InWords`; without it a window that has room is not resolved
(`Window.resolve_beyond_words`).
-/

namespace Lamina

namespace Window

variable {w : Window} {site : Site} {extents : List Nat} {weights : Option (List Nat)}
  {kernel strides dilations : List Nat}

/-! ### One axis -/

/-- A window takes all positions that there is room for along an axis of some extent, and at least
one. -/
structure Tight (extent : Nat) (a : AxisWindow) : Prop where
  taken : 1 ≤ a.output
  /-- The last position ends within the padded axis. -/
  last : (a.output - 1) * a.stride + span a.kernel a.dilation ≤ extent + a.before + a.after
  /-- Another position would end outside. -/
  next : extent + a.before + a.after < a.output * a.stride + span a.kernel a.dilation

theorem Along.tight {extent : Nat} {a : AxisWindow} (h : Along extent a) : Tight extent a := by
  have hroom := h.room
  have hbelow := Nat.div_mul_le_self
    (extent + a.before + a.after - span a.kernel a.dilation) a.stride
  have habove := Nat.lt_div_mul_add (a := extent + a.before + a.after - span a.kernel a.dilation)
    h.stride
  refine ⟨?_, ?_, ?_⟩
  · rw [h.output]
    exact Nat.le_add_left 1 _
  · rw [h.output, Nat.add_sub_cancel]
    omega
  · rw [h.output, Nat.add_mul, Nat.one_mul]
    omega

/-- The padding is spread evenly, an odd unit going to the end or to the beginning, and there is one
position per stride that is begun. -/
structure Balanced (padding : Padding) (extent : Nat) (a : AxisWindow) : Prop where
  output : a.output = max 1 (extent ⌈/⌉ a.stride)
  upper : padding = .sameUpper → a.before ≤ a.after ∧ a.after ≤ a.before + 1
  lower : padding = .sameLower → a.after ≤ a.before ∧ a.before ≤ a.after + 1

section Same

variable {extent stride width total : Nat}

theorem spread_add (padding : Padding) :
    (spread padding total).1 + (spread padding total).2 = total := by
  unfold spread
  dsimp only
  split
  · exact Nat.add_sub_cancel' (Nat.div_le_self _ _)
  · exact Nat.sub_add_cancel (Nat.div_le_self _ _)

theorem spread_upper :
    (spread .sameUpper total).1 ≤ (spread .sameUpper total).2 ∧
      (spread .sameUpper total).2 ≤ (spread .sameUpper total).1 + 1 := by
  unfold spread
  dsimp only
  rw [if_pos rfl]
  omega

theorem spread_lower :
    (spread .sameLower total).2 ≤ (spread .sameLower total).1 ∧
      (spread .sameLower total).1 ≤ (spread .sameLower total).2 + 1 := by
  unfold spread
  dsimp only
  rw [if_neg (by decide)]
  omega

/-- **The number of positions inverts the padding.** Either the padding fills up what the positions
need, or the extent has room for them by itself, and then not for one more. -/
theorem sameExtent_output (hstride : 1 ≤ stride) (hwidth : 1 ≤ width) :
    (max extent (sameExtent extent stride width) - width) / stride + 1 =
      max 1 (extent ⌈/⌉ stride) := by
  obtain ⟨m, hm⟩ : ∃ m, max 1 (extent ⌈/⌉ stride) = m + 1 :=
    Nat.exists_eq_add_of_le' (Nat.le_max_left _ _)
  have hcover : extent ≤ (m + 1) * stride := by
    rw [Nat.mul_comm]
    exact (ceilDiv_le_iff_le_mul hstride).1 (hm ▸ Nat.le_max_right _ _)
  have hneeded : sameExtent extent stride width = m * stride + width := by
    rw [sameExtent, ← Nat.ceilDiv_eq_add_pred_div, hm, Nat.add_sub_cancel]
  rw [hneeded, hm]
  congr 1
  rcases Nat.le_total extent (m * stride + width) with hfilled | hroomy
  · rw [max_eq_right hfilled, Nat.add_sub_cancel]
    exact Nat.mul_div_cancel m hstride
  · rw [max_eq_left hroomy]
    apply Nat.div_eq_of_lt_le
    · omega
    · omega

end Same

/-! ### Attributes that fit together -/

/-- The attributes of a window give these entries for `n` axes. The points are those of the node or
of the weights, which have to agree. Without strides and dilations these are one. Explicit padding
has two entries per axis. -/
structure WellSized (w : Window) (weights : Option (List Nat)) (n : Nat)
    (kernel strides dilations : List Nat) : Prop where
  declared : w.kernel = some kernel ∨ weights = some kernel
  agreed : ∀ k, w.kernel = some k ∨ weights = some k → k = kernel
  strides_eq : w.strides.getD (List.replicate n 1) = strides
  dilations_eq : w.dilations.getD (List.replicate n 1) = dilations
  kernel_length : kernel.length = n
  strides_length : strides.length = n
  dilations_length : dilations.length = n
  pads_length : w.padding = .explicit → ∀ pads, w.pads = some pads → pads.length = 2 * n

/-- No window is without points, stays where it is or has all its points in one place. -/
structure NonZero (kernel strides dilations : List Nat) : Prop where
  kernel : 0 ∉ kernel
  strides : 0 ∉ strides
  dilations : 0 ∉ dilations

/-- The padding of an axis that the attributes state, beginning and end: all beginnings come before
all ends. -/
def statedPads (w : Window) (n i : Nat) : Nat × Nat :=
  if w.padding = .explicit then ((w.pads.getD []).getD i 0, (w.pads.getD []).getD (n + i) 0)
  else (0, 0)

/-- What the window spans along an axis. -/
def spanOf (kernel dilations : List Nat) (i : Nat) : Nat :=
  span (kernel.getD i 1) (dilations.getD i 1)

/-- The padding of an axis, stated or worked out. -/
def padsOf (w : Window) (extents kernel strides dilations : List Nat) (i : Nat) : Nat × Nat :=
  if w.padding = .sameUpper ∨ w.padding = .sameLower then
    spread w.padding (sameExtent (extents.getD i 0) (strides.getD i 1) (spanOf kernel dilations i) -
      extents.getD i 0)
  else w.statedPads extents.length i

/-- The extent of an axis with its padding. -/
def paddedOf (w : Window) (extents kernel strides dilations : List Nat) (i : Nat) : Nat :=
  extents.getD i 0 + (w.padsOf extents kernel strides dilations i).1 +
    (w.padsOf extents kernel strides dilations i).2

/-- Along every axis, what the window spans and the padded extent have words. -/
def InWords (w : Window) (extents kernel strides dilations : List Nat) : Prop :=
  ∀ i < extents.length, spanOf kernel dilations i < wordLimit ∧
    w.paddedOf extents kernel strides dilations i < wordLimit

instance (w : Window) (extents kernel strides dilations : List Nat) :
    Decidable (w.InWords extents kernel strides dilations) :=
  inferInstanceAs (Decidable (∀ i < _, _ ∧ _))

theorem padsOf_of_stated (hpadding : w.padding = .explicit ∨ w.padding = .valid) (i : Nat) :
    w.padsOf extents kernel strides dilations i = w.statedPads extents.length i := by
  rw [padsOf, if_neg]
  rcases hpadding with hpadding | hpadding <;> simp [hpadding]

theorem paddedOf_of_same (hpadding : w.padding = .sameUpper ∨ w.padding = .sameLower) (i : Nat) :
    w.paddedOf extents kernel strides dilations i = max (extents.getD i 0)
      (sameExtent (extents.getD i 0) (strides.getD i 1) (spanOf kernel dilations i)) := by
  rw [paddedOf, padsOf, if_pos hpadding, Nat.add_assoc, spread_add]
  omega

/-- The extent that padding is worked out from has a word if the padded one has. -/
theorem sameExtent_lt (hpadding : w.padding = .sameUpper ∨ w.padding = .sameLower) {i : Nat}
    (h : w.paddedOf extents kernel strides dilations i < wordLimit) :
    sameExtent (extents.getD i 0) (strides.getD i 1) (spanOf kernel dilations i) < wordLimit := by
  rw [paddedOf_of_same hpadding] at h
  exact (le_max_right _ _).trans_lt h

/-- A window always has room between the paddings that are worked out for it. -/
theorem room_of_same (hpadding : w.padding = .sameUpper ∨ w.padding = .sameLower) (i : Nat) :
    spanOf kernel dilations i ≤ w.paddedOf extents kernel strides dilations i := by
  rw [paddedOf_of_same hpadding]
  exact (Nat.le_add_left _ _).trans (le_max_right _ _)

theorem points_eq_ok {k : List Nat} :
    w.points site weights = .ok k ↔ (w.kernel = some k ∨ weights = some k) ∧
      ∀ k', w.kernel = some k' ∨ weights = some k' → k' = k := by
  unfold points
  cases w.kernel with
  | none =>
    cases weights with
    | none => simp
    | some given => simp [eq_comm]
  | some declared =>
    cases weights with
    | none => simp [eq_comm]
    | some given =>
      dsimp only
      split
      · rename_i hsame
        subst hsame
        simp [eq_comm]
      · rename_i hne
        constructor
        · exact fun h => absurd h Site.fail_ne_ok
        · rintro ⟨-, hall⟩
          exact absurd ((hall declared (.inl rfl)).trans (hall given (.inr rfl)).symm) hne

theorem sized_eq_ok {name : String} {values : Option (List Nat)} {length fill : Nat}
    {l : List Nat} :
    sized site name values length fill = .ok l ↔
      values.getD (List.replicate length fill) = l ∧ l.length = length := by
  unfold sized
  split
  · constructor
    · intro h
      cases h
      exact ⟨rfl, List.length_replicate⟩
    · rintro ⟨rfl, -⟩
      rfl
  · split
    · rename_i hlength
      constructor
      · intro h
        cases h
        exact ⟨rfl, hlength⟩
      · rintro ⟨rfl, -⟩
        rfl
    · rename_i v hlength
      constructor
      · exact fun h => absurd h Site.fail_ne_ok
      · rintro ⟨rfl, hl⟩
        exact absurd hl hlength

/-- Beginnings and ends that are listed one after the other. -/
theorem zip_halves {pads : List Nat} {n : Nat} (hlength : pads.length = 2 * n) :
    (pads.take n).zip (pads.drop n) =
      (List.range n).map fun i => (pads.getD i 0, pads.getD (n + i) 0) := by
  apply List.ext_getElem
  · simp only [List.length_zip, List.length_take, List.length_drop, List.length_map,
      List.length_range]
    omega
  · intro i _ hi
    rw [List.length_map, List.length_range] at hi
    have hfirst : i < pads.length := by omega
    have hsecond : n + i < pads.length := by omega
    rw [List.getElem_zip, List.getElem_take, List.getElem_drop, List.getElem_map,
      List.getElem_range, List.getD_eq_getElem _ _ hfirst, List.getD_eq_getElem _ _ hsecond]

/-- If the attributes fit together, the padding is found. Only padding that is worked out has to
have words. -/
theorem axisPads_eq_ok (h : w.WellSized weights extents.length kernel strides dilations)
    {pads : List (Nat × Nat)} :
    w.axisPads site extents strides ((List.range extents.length).map (spanOf kernel dilations)) =
        .ok pads ↔
      (w.padding = .sameUpper ∨ w.padding = .sameLower → ∀ i < extents.length,
        sameExtent (extents.getD i 0) (strides.getD i 1) (spanOf kernel dilations i) < wordLimit) ∧
      (List.range extents.length).map (w.padsOf extents kernel strides dilations) = pads := by
  have hsame (mode : Padding) :
      ((List.range extents.length).mapM fun i => do
        let needed ← site.word (sameExtent (extents.getD i 0) (strides.getD i 1)
          (((List.range extents.length).map (spanOf kernel dilations)).getD i 1))
        return spread mode (needed - extents.getD i 0)) = .ok pads ↔
      (∀ i ∈ List.range extents.length, sameExtent (extents.getD i 0) (strides.getD i 1)
        (spanOf kernel dilations i) < wordLimit) ∧
      ((List.range extents.length).map fun i => spread mode (sameExtent (extents.getD i 0)
        (strides.getD i 1) (spanOf kernel dilations i) - extents.getD i 0)) = pads := by
    apply mapM_eq_ok_map
    intro i hi padding
    simp only [bind_eq_ok, Site.word_eq_ok, pure_eq_ok, getD_map_range (List.mem_range.1 hi),
      and_assoc, exists_and_left, exists_eq_left']
  unfold axisPads padsOf statedPads
  cases hpadding : w.padding with
  | explicit =>
    obtain ⟨stated, hstated, hlength, hentries⟩ : ∃ stated,
        sized site "pads" w.pads (2 * extents.length) 0 = .ok stated ∧
        stated.length = 2 * extents.length ∧
        ∀ i, (w.pads.getD []).getD i 0 = stated.getD i 0 := by
      refine ⟨w.pads.getD (List.replicate _ 0), sized_eq_ok.2 ⟨rfl, ?_⟩, ?_, ?_⟩
      all_goals cases hpads : w.pads with
        | none => simp
        | some pads => simp [h.pads_length hpadding pads hpads]
    dsimp only
    rw [hstated]
    change Except.ok ((stated.take _).zip (stated.drop _)) = _ ↔ _
    simp only [hentries, zip_halves hlength]
    simp
  | valid => simp [List.map_const']
  | sameUpper => simpa using hsame .sameUpper
  | sameLower => simpa using hsame .sameLower

/-- The windows along the axes, for attributes that fit together. -/
def slide (w : Window) (site : Site) (extents kernel strides dilations : List Nat) :
    Except Fault (List AxisWindow) := do
  let spans ← (List.range extents.length).mapM fun i => site.word (spanOf kernel dilations i)
  let pads ← w.axisPads site extents strides spans
  (List.range extents.length).mapM fun i =>
    along site (extents.getD i 0) (kernel.getD i 1) (strides.getD i 1) (dilations.getD i 1)
      (spans.getD i 1) (pads.getD i (0, 0))

theorem resolve_of_wellSized (h : w.WellSized weights extents.length kernel strides dilations)
    (hzero : NonZero kernel strides dilations) :
    w.resolve site extents weights = w.slide site extents kernel strides dilations := by
  have hpoints : w.points site weights = pure kernel := points_eq_ok.2 ⟨h.declared, h.agreed⟩
  have hkernel : sized site "kernel_shape" (some kernel) extents.length 1 = pure kernel :=
    sized_eq_ok.2 ⟨rfl, h.kernel_length⟩
  have hstrides : sized site "strides" w.strides extents.length 1 = pure strides :=
    sized_eq_ok.2 ⟨h.strides_eq, h.strides_length⟩
  have hdilations : sized site "dilations" w.dilations extents.length 1 = pure dilations :=
    sized_eq_ok.2 ⟨h.dilations_eq, h.dilations_length⟩
  have hcontains : ¬ (strides.contains 0 || dilations.contains 0 || kernel.contains 0) = true := by
    simp [hzero.kernel, hzero.strides, hzero.dilations]
  unfold resolve slide
  simp only [hpoints, hkernel, hstrides, hdilations, pure_bind, if_neg hcontains]
  rfl

/-- The window along one axis. -/
def windowAt (w : Window) (extents kernel strides dilations : List Nat) (i : Nat) : AxisWindow where
  kernel := kernel.getD i 1
  stride := strides.getD i 1
  dilation := dilations.getD i 1
  before := (w.padsOf extents kernel strides dilations i).1
  after := (w.padsOf extents kernel strides dilations i).2
  output := (w.paddedOf extents kernel strides dilations i - spanOf kernel dilations i) /
    strides.getD i 1 + 1

/-- **Attributes that fit together** give windows if these have room in words, and then give them
axis by axis. -/
theorem slide_eq_ok (h : w.WellSized weights extents.length kernel strides dilations)
    {axes : List AxisWindow} :
    w.slide site extents kernel strides dilations = .ok axes ↔
      (∀ i < extents.length, w.paddedOf extents kernel strides dilations i < wordLimit ∧
        spanOf kernel dilations i ≤ w.paddedOf extents kernel strides dilations i) ∧
      (List.range extents.length).map (w.windowAt extents kernel strides dilations) = axes := by
  have halong :
      ((List.range extents.length).mapM fun i => along site (extents.getD i 0) (kernel.getD i 1)
        (strides.getD i 1) (dilations.getD i 1)
        (((List.range extents.length).map (spanOf kernel dilations)).getD i 1)
        (((List.range extents.length).map (w.padsOf extents kernel strides dilations)).getD i
          (0, 0))) = .ok axes ↔
      (∀ i ∈ List.range extents.length, w.paddedOf extents kernel strides dilations i < wordLimit ∧
        spanOf kernel dilations i ≤ w.paddedOf extents kernel strides dilations i) ∧
      (List.range extents.length).map (w.windowAt extents kernel strides dilations) = axes := by
    apply mapM_eq_ok_map
    intro i hi a
    rw [along_eq_ok, getD_map_range (List.mem_range.1 hi), getD_map_range (List.mem_range.1 hi),
      ← paddedOf, and_assoc, eq_comm (b := a)]
    rfl
  unfold slide
  rw [bind_eq_ok]
  constructor
  · rintro ⟨_, hspans, hrest⟩
    obtain ⟨-, rfl⟩ := mapM_word_eq_ok.1 hspans
    obtain ⟨_, hpads, hrest⟩ := bind_eq_ok.1 hrest
    obtain ⟨-, rfl⟩ := (axisPads_eq_ok h).1 hpads
    simpa using halong.1 hrest
  · rintro ⟨hroom, haxes⟩
    refine ⟨_, mapM_word_eq_ok.2 ⟨fun i hi => ?_, rfl⟩, bind_eq_ok.2
      ⟨_, (axisPads_eq_ok h).2 ⟨fun hsame i hi => ?_, rfl⟩, halong.2 ⟨by simpa using hroom, haxes⟩⟩⟩
    · have hi := hroom i (List.mem_range.1 hi)
      exact hi.2.trans_lt hi.1
    · exact sameExtent_lt hsame (hroom i hi).1

/-! ### Why a window is not resolved -/

/-- The fault is not that a window has no room. -/
def NotOfRoom (f : Fault) : Prop := ∀ span padded, f.cause ≠ .window (.doesNotFit span padded)

theorem notOfRoom_points {f : Fault} (h : w.points site weights = .error f) : NotOfRoom f := by
  unfold points at h
  intro span padded
  split at h
  · split at h <;> cases h
    simp
  · cases h
  · cases h
  · cases h
    simp

theorem notOfRoom_sized {f : Fault} {name : String} {values : Option (List Nat)}
    {length fill : Nat} (h : sized site name values length fill = .error f) : NotOfRoom f := by
  unfold sized at h
  intro span padded
  split at h
  · cases h
  · split at h <;> cases h
    simp

theorem axisPads_notOfRoom {spans : List Nat} :
    Yields NotOfRoom (w.axisPads site extents strides spans) fun _ =>
      w.padding = .explicit → ∀ pads, w.pads = some pads → pads.length = 2 * extents.length := by
  unfold axisPads
  dsimp only
  split
  · refine (Yields.of_faults fun _ => notOfRoom_sized).bind fun sizes hsizes => .pure ?_
    rintro - pads hpads
    obtain ⟨heq, hlength⟩ := sized_eq_ok.1 hsizes
    rw [hpads, Option.getD_some] at heq
    rwa [heq]
  · rename_i hpadding
    exact .ok fun h => by simp [hpadding] at h
  · rename_i hexplicit _
    refine (Yields.mapM (R := fun _ _ => True) fun i _ => ?_).imp fun _ _ h => absurd h hexplicit
    exact (Yields.word fun _ _ _ => by simp).bind fun _ _ => .pure trivial

/-- **A window is resolved axis by axis if its attributes fit together**, and refused for another
reason than its room if they do not. -/
theorem resolve_cases (w : Window) (site : Site) (extents : List Nat)
    (weights : Option (List Nat)) :
    (∃ kernel strides dilations, w.WellSized weights extents.length kernel strides dilations ∧
        NonZero kernel strides dilations) ∨
      ∃ f, w.resolve site extents weights = .error f ∧ NotOfRoom f := by
  by_cases hsized : ∃ kernel strides dilations,
      w.WellSized weights extents.length kernel strides dilations ∧
        NonZero kernel strides dilations
  · exact .inl hsized
  · have hfails : Yields NotOfRoom (w.resolve site extents weights) fun _ => False := by
      unfold resolve
      refine (Yields.of_faults fun _ => notOfRoom_points).bind fun points hpoints => ?_
      refine (Yields.of_faults fun _ => notOfRoom_sized).bind fun kernel hkernel => ?_
      refine (Yields.of_faults fun _ => notOfRoom_sized).bind fun strides hstrides => ?_
      refine (Yields.of_faults fun _ => notOfRoom_sized).bind fun dilations hdilations => ?_
      split
      · exact .fail fun _ _ => by simp
      · rename_i hzero
        refine (Yields.mapM (R := fun _ _ => True) fun i _ =>
          (Yields.word fun _ _ _ => by simp).imp fun _ _ => trivial).bind fun spans _ => ?_
        refine axisPads_notOfRoom.bind fun pads hpads => ?_
        obtain ⟨rfl, hlength⟩ := sized_eq_ok.1 hkernel
        obtain ⟨hdeclared, hagreed⟩ := points_eq_ok.1 hpoints
        obtain ⟨hstrides, hstrides'⟩ := sized_eq_ok.1 hstrides
        obtain ⟨hdilations, hdilations'⟩ := sized_eq_ok.1 hdilations
        simp only [Bool.or_eq_true, List.contains_iff_mem, not_or] at hzero
        exact absurd ⟨_, strides, dilations, ⟨hdeclared, hagreed, hstrides, hdilations, hlength,
          hstrides', hdilations', hpads⟩, ⟨hzero.2, hzero.1.1, hzero.1.2⟩⟩ hsized
    cases hresolved : w.resolve site extents weights with
    | ok axes => exact (hfails.value hresolved).elim
    | error f => exact .inr ⟨f, rfl, hfails.fault hresolved⟩

theorem slide_of_resolve {axes : List AxisWindow}
    (h : w.resolve site extents weights = .ok axes) :
    ∃ kernel strides dilations, w.WellSized weights extents.length kernel strides dilations ∧
      NonZero kernel strides dilations ∧
        w.slide site extents kernel strides dilations = .ok axes := by
  rcases w.resolve_cases site extents weights with
    ⟨kernel, strides, dilations, hsized, hzero⟩ | ⟨f, hf, -⟩
  · rw [resolve_of_wellSized hsized hzero] at h
    exact ⟨kernel, strides, dilations, hsized, hzero, h⟩
  · rw [hf] at h
    cases h

/-- Why attributes that fit together give no windows. -/
inductive Unresolved (w : Window) (extents kernel strides dilations : List Nat) (f : Fault) : Prop
  /-- Some size has no word. -/
  | overflow (words : ¬ w.InWords extents kernel strides dilations) (room : NotOfRoom f)
  /-- Along some axis the window has no room, and this is what the fault says. -/
  | room {i : Nat} (axis : i < extents.length)
      (lacks : w.paddedOf extents kernel strides dilations i < spanOf kernel dilations i)
      (cause : f.cause = .window (.doesNotFit (spanOf kernel dilations i)
        (w.paddedOf extents kernel strides dilations i)))

theorem spans_unresolved : Yields (w.Unresolved extents kernel strides dilations)
    ((List.range extents.length).mapM fun i => site.word (spanOf kernel dilations i))
    fun spans => (List.range extents.length).map (spanOf kernel dilations) = spans := by
  refine (Yields.of_faults fun f hf => ?_).imp fun _ hok => (mapM_word_eq_ok.1 hok).2
  refine (Yields.mapM (R := fun _ _ => True) fun i hi => ?_).fault hf
  refine (Yields.word fun hlimit => .overflow (fun hwords => ?_) fun _ _ => by simp).imp
    fun _ _ => trivial
  exact absurd (hwords i (List.mem_range.1 hi)).1 (not_lt.2 hlimit)

theorem slide_unresolved (h : w.WellSized weights extents.length kernel strides dilations) :
    Yields (w.Unresolved extents kernel strides dilations)
      (w.slide site extents kernel strides dilations) fun _ => True := by
  unfold slide
  refine spans_unresolved.bind ?_
  rintro _ rfl
  refine (Yields.of_faults fun f hf => ?_).bind fun pads hpads => ?_
  · refine .overflow (fun hwords => ?_) (axisPads_notOfRoom.fault hf)
    rw [(axisPads_eq_ok h).2 ⟨fun hsame i hi => sameExtent_lt hsame (hwords i hi).2, rfl⟩] at hf
    cases hf
  · obtain ⟨-, rfl⟩ := (axisPads_eq_ok h).1 hpads
    refine (Yields.mapM (R := fun _ _ => True) fun i hi => ?_).imp fun _ _ => trivial
    rw [getD_map_range (List.mem_range.1 hi), getD_map_range (List.mem_range.1 hi)]
    unfold along
    rw [← paddedOf]
    refine Yields.bind (Yields.word fun hlimit => ?_) ?_
    · refine .overflow (fun hwords => ?_) fun _ _ => by simp
      exact absurd (hwords i (List.mem_range.1 hi)).2 (not_lt.2 hlimit)
    · rintro _ ⟨rfl, -⟩
      split
      · rename_i hroom
        exact .fail (.room (List.mem_range.1 hi) hroom rfl)
      · exact .pure trivial

/-! ### All axes -/

/-- Padding that is worked out is spread evenly over every axis. -/
theorem balanced_windowAt (hzero : NonZero kernel strides dilations)
    (hpadding : w.padding = .sameUpper ∨ w.padding = .sameLower) (i : Nat) :
    Balanced w.padding (extents.getD i 0) (w.windowAt extents kernel strides dilations i) := by
  have hpos : 1 ≤ strides.getD i 1 := one_le_getD (by simpa using hzero.strides) i
  refine ⟨?_, fun hupper => ?_, fun hlower => ?_⟩
  · dsimp only [windowAt]
    rw [paddedOf_of_same hpadding]
    exact sameExtent_output hpos (Nat.le_add_left 1 _)
  · dsimp only [windowAt]
    rw [padsOf, if_pos hpadding, hupper]
    exact spread_upper
  · dsimp only [windowAt]
    rw [padsOf, if_pos hpadding, hlower]
    exact spread_lower

/-- What a window resolved against some extents has: its attributes fit together and are found again
axis by axis, and it takes all positions that there is room for. -/
structure Resolved (w : Window) (weights : Option (List Nat)) (extents : List Nat)
    (axes : List AxisWindow) : Prop where
  length : axes.length = extents.length
  sized : w.WellSized weights extents.length (axes.map AxisWindow.kernel)
    (axes.map AxisWindow.stride) (axes.map AxisWindow.dilation)
  stated : w.padding = .explicit ∨ w.padding = .valid → ∀ (i : Nat) (a : AxisWindow),
    axes[i]? = some a → (a.before, a.after) = w.statedPads extents.length i
  tight : List.Forall₂ Tight extents axes

/-- Entries that are listed axis by axis are the list. -/
theorem map_range_getD {l : List Nat} {n : Nat} (hlength : l.length = n) (d : Nat) :
    ((List.range n).map fun i => l.getD i d) = l := by
  apply List.ext_getElem
  · simp [hlength]
  · intro i _ hi
    simp [hi]

theorem resolved_of_slide (hsized : w.WellSized weights extents.length kernel strides dilations)
    (hzero : NonZero kernel strides dilations) {axes : List AxisWindow}
    (h : w.slide site extents kernel strides dilations = .ok axes) :
    w.Resolved weights extents axes := by
  have halong := (along_of_resolve ((resolve_of_wellSized hsized hzero).trans h)).1
  obtain ⟨-, rfl⟩ := (slide_eq_ok hsized).1 h
  refine ⟨by simp, ?_, fun hpadding i a ha => ?_, halong.imp fun _ _ halong => halong.tight⟩
  · simp only [List.map_map]
    have hkernel := map_range_getD hsized.kernel_length 1
    have hstrides := map_range_getD hsized.strides_length 1
    have hdilations := map_range_getD hsized.dilations_length 1
    rwa [← hkernel, ← hstrides, ← hdilations] at hsized
  · rw [List.getElem?_map] at ha
    obtain ⟨j, hj, rfl⟩ := Option.map_eq_some_iff.1 ha
    obtain ⟨_, rfl⟩ := List.getElem?_eq_some_iff.1 hj
    rw [List.getElem_range, windowAt, padsOf_of_stated hpadding]

/-- When a window is resolved whose attributes have been settled to sizes for each axis. -/
structure ResolvesExactly (w : Window) (site : Site) (extents : List Nat)
    (weights : Option (List Nat)) (kernel strides dilations : List Nat) : Prop where
  /-- Padding that is worked out makes room, so that the sizes only need words. -/
  same : w.padding = .sameUpper ∨ w.padding = .sameLower →
    ((∃ axes, w.resolve site extents weights = .ok axes) ↔
      w.InWords extents kernel strides dilations)
  /-- Padding that is stated may not make room. -/
  stated : w.padding = .explicit ∨ w.padding = .valid →
    ((∃ axes, w.resolve site extents weights = .ok axes) ↔
      w.InWords extents kernel strides dilations ∧
        ∀ i < extents.length, span (kernel.getD i 1) (dilations.getD i 1) ≤
          extents.getD i 0 + (w.statedPads extents.length i).1 +
            (w.statedPads extents.length i).2)
  /-- In words, a lack of room is the only fault. -/
  refused : w.InWords extents kernel strides dilations →
    ∀ f, w.resolve site extents weights = .error f → ∃ i < extents.length,
      f.cause = .window (.doesNotFit (spanOf kernel dilations i)
        (w.paddedOf extents kernel strides dilations i))

theorem resolvesExactly (hsized : w.WellSized weights extents.length kernel strides dilations)
    (hzero : NonZero kernel strides dilations) :
    w.ResolvesExactly site extents weights kernel strides dilations := by
  have hiff : (∃ axes, w.resolve site extents weights = .ok axes) ↔
      w.InWords extents kernel strides dilations ∧ ∀ i < extents.length,
        spanOf kernel dilations i ≤ w.paddedOf extents kernel strides dilations i := by
    rw [resolve_of_wellSized hsized hzero]
    simp only [slide_eq_ok hsized, exists_and_left, exists_eq', and_true]
    constructor
    · intro hroom
      refine ⟨fun i hi => ⟨?_, (hroom i hi).1⟩, fun i hi => (hroom i hi).2⟩
      exact (hroom i hi).2.trans_lt (hroom i hi).1
    · rintro ⟨hwords, hroom⟩ i hi
      exact ⟨(hwords i hi).2, hroom i hi⟩
  refine ⟨fun hsame => ?_, fun hstated => ?_, fun hwords f hf => ?_⟩
  · rw [hiff, and_iff_left fun i _ => room_of_same hsame i]
  · simp only [hiff, paddedOf, padsOf_of_stated hstated]
    rfl
  · rw [resolve_of_wellSized hsized hzero] at hf
    obtain ⟨hnot, -⟩ | ⟨hi, -, hcause⟩ := (slide_unresolved hsized).fault hf
    · exact absurd hwords hnot
    · exact ⟨_, hi, hcause⟩

/-- **What a window resolves to, and when.** A resolved window has one entry per axis, and takes as
many positions as there is room for, at least one. With padding that is worked out it never lacks
room: it takes one position per stride that is begun, and the padding at both ends differs by one at
most. If the attributes fit together, the window is resolved if and only if the sizes on the way
have words and, with padding that is stated, its span fits into every padded axis. In words a lack
of room is the only reason not to be resolved. -/
theorem resolve_geometry (w : Window) (site : Site) (extents : List Nat)
    (weights : Option (List Nat)) :
    (∀ axes, w.resolve site extents weights = .ok axes → w.Resolved weights extents axes) ∧
    (w.padding = .sameUpper ∨ w.padding = .sameLower →
      (∀ f, w.resolve site extents weights = .error f → NotOfRoom f) ∧
      ∀ axes, w.resolve site extents weights = .ok axes →
        List.Forall₂ (Balanced w.padding) extents axes) ∧
    ∀ kernel strides dilations, w.WellSized weights extents.length kernel strides dilations →
      NonZero kernel strides dilations →
      w.ResolvesExactly site extents weights kernel strides dilations := by
  refine ⟨?_, fun hsame => ⟨?_, ?_⟩, fun _ _ _ hsized hzero => resolvesExactly hsized hzero⟩
  · intro axes haxes
    obtain ⟨_, _, _, hsized, hzero, hslides⟩ := slide_of_resolve haxes
    exact resolved_of_slide hsized hzero hslides
  · intro f hf
    rcases w.resolve_cases site extents weights with ⟨_, _, _, hsized, hzero⟩ | ⟨f', hf', hroom⟩
    · rw [resolve_of_wellSized hsized hzero] at hf
      obtain ⟨-, hroom⟩ | ⟨-, hlacks, -⟩ := (slide_unresolved hsized).fault hf
      · exact hroom
      · exact absurd (room_of_same hsame _) (not_le.2 hlacks)
    · rw [hf] at hf'
      cases hf'
      exact hroom
  · intro axes haxes
    obtain ⟨_, _, _, hsized, hzero, hslides⟩ := slide_of_resolve haxes
    obtain ⟨-, rfl⟩ := (slide_eq_ok hsized).1 hslides
    conv => arg 2; rw [← map_range_getD (l := extents) rfl 0]
    rw [List.forall₂_map_left_iff, List.forall₂_map_right_iff, List.forall₂_same]
    exact fun i _ => balanced_windowAt hzero hsame i

/-- Four points in steps of one and of three, with padding that is worked out. -/
def fourPoints : Window := ⟨some [4, 4], some [1, 3], none, none, .sameUpper⟩

/-- Five points at a distance of two, with one unit of padding at the beginning. -/
def spreadPoints : Window := ⟨some [5], none, some [2], some [1, 0], .explicit⟩

/-- Padding makes room for four points along seven positions and along none at all. Points that are
spread over nine positions do not fit into eight, but into nine. -/
theorem resolve_geometry_points :
    (∃ axes, fourPoints.resolve ⟨"MaxPool", "pool"⟩ [7, 0] none = .ok axes ∧
        List.Forall₂ Tight [7, 0] axes ∧ axes.map AxisWindow.output = [7, 1] ∧
        axes.map AxisWindow.before = [1, 2] ∧ axes.map AxisWindow.after = [2, 2]) ∧
      (¬ ∃ axes, spreadPoints.resolve ⟨"Conv", "conv"⟩ [7] none = .ok axes) ∧
      ∃ axes, spreadPoints.resolve ⟨"Conv", "conv"⟩ [8] none = .ok axes := by
  have hspread : ∀ extent : Nat, spreadPoints.WellSized none [extent].length [5] [1] [2] := by
    intro extent
    refine ⟨.inl rfl, ?_, rfl, rfl, rfl, rfl, rfl, ?_⟩
    · rintro k (hk | hk) <;> cases hk
      rfl
    · rintro - pads hpads
      cases hpads
      rfl
  have hspread' : NonZero [5] [1] [2] := ⟨by decide, by decide, by decide⟩
  have hfour : fourPoints.resolve ⟨"MaxPool", "pool"⟩ [7, 0] none =
      .ok [⟨4, 1, 1, 1, 2, 7⟩, ⟨4, 3, 1, 2, 2, 1⟩] := by rfl
  have hexact : ∀ extent : Nat, spreadPoints.ResolvesExactly ⟨"Conv", "conv"⟩ [extent] none [5] [1]
      [2] := by
    intro extent
    obtain ⟨-, -, hexact⟩ := resolve_geometry spreadPoints ⟨"Conv", "conv"⟩ [extent] none
    exact hexact _ _ _ (hspread extent) hspread'
  obtain ⟨hresolved, -⟩ := resolve_geometry fourPoints ⟨"MaxPool", "pool"⟩ [7, 0] none
  refine ⟨⟨_, hfour, (hresolved _ hfour).tight, rfl, rfl, rfl⟩, ?_, ?_⟩
  · rw [(hexact 7).stated (.inl rfl)]
    rintro ⟨-, hroom⟩
    exact absurd (hroom 0 (by decide)) (by decide)
  · rw [(hexact 8).stated (.inl rfl)]
    decide

/-- Points that are spread over more positions than words count, and over an axis that is padded on
both sides. -/
def farPoints : Window :=
  ⟨some [4294967297], none, some [4294967296], some [4611686018427387904, 4611686018427387904],
    .explicit⟩

/-- A single point on an axis that is padded beyond all words. -/
def farPadded : Window :=
  ⟨some [1], some [4611686018427387904], none, some [9223372036854775807, 9223372036854775807],
    .explicit⟩

/-- **Sizes without words.** A window that does not fit into the padded axis is not refused for
that, and one that fits is not resolved. Either way it is given up when the size is computed. -/
theorem resolve_beyond_words :
    (∃ f, farPoints.resolve ⟨"Conv", "conv"⟩ [4] none = .error f ∧ f.kind = .fatal ∧
        4 + 4611686018427387904 + 4611686018427387904 < span 4294967297 4294967296) ∧
      ∃ f, farPadded.resolve ⟨"MaxPool", "pool"⟩ [2] none = .error f ∧ f.kind = .fatal ∧
        span 1 1 ≤ 2 + 9223372036854775807 + 9223372036854775807 :=
  ⟨⟨_, rfl, rfl, by decide⟩, _, rfl, rfl, by decide⟩

end Window

end Lamina
