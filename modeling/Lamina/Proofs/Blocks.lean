import Mathlib
import Lamina.Operator.Fold
import Lamina.Proofs.Indexing

/-!
# Blocks: how many elements are moved, and where

Joining and gathering put a buffer together from blocks, one behind the other. Blocks of one size
are found by their number (`getElem?_flatMap_blocks`), others by what comes before them
(`getElem?_flatMap_parts`). For both operations this gives the size of the result and the place in
it of an element of a part or of a picked row (`getElem?_interleave`, `getElem?_pickRows`).

In a row-major buffer an axis splits an index in two: the axes before it number the block, the
others the element in it (`place_split`).
-/

namespace Lamina

variable {α β : Type}

/-! ### Blocks in a list -/

theorem length_flatMap_blocks {l : List β} {f : β → List α} {size : Nat}
    (hf : ∀ b ∈ l, (f b).length = size) : (l.flatMap f).length = l.length * size := by
  rw [List.length_flatMap, List.map_congr_left hf]
  simp

/-- An element among blocks of one size. -/
theorem getElem?_flatMap_blocks {l : List β} {f : β → List α} {size o k : Nat} {b : β}
    (hf : ∀ b ∈ l, (f b).length = size) (hb : l[o]? = some b) (hk : k < size) :
    (l.flatMap f)[o * size + k]? = (f b)[k]? := by
  induction l generalizing o with
  | nil => cases hb
  | cons a l ih =>
    have ha : (f a).length = size := hf a List.mem_cons_self
    rw [List.flatMap_cons]
    cases o with
    | zero =>
      obtain rfl : a = b := by simpa using hb
      rw [Nat.zero_mul, Nat.zero_add, List.getElem?_append_left (ha.symm ▸ hk)]
    | succ o =>
      have hnext : (o + 1) * size + k = (f a).length + (o * size + k) := by
        rw [ha]
        ring
      rw [hnext, List.getElem?_append_right (Nat.le_add_right _ _), Nat.add_sub_cancel_left]
      exact ih (fun b hb => hf b (List.mem_cons_of_mem _ hb)) (by simpa using hb)

/-- An element among blocks of different sizes. -/
theorem getElem?_flatMap_parts (f : β → List α) (front back : List β) {b : β} {k : Nat}
    (hk : k < (f b).length) :
    ((front ++ b :: back).flatMap f)[(front.map fun b => (f b).length).sum + k]? = (f b)[k]? := by
  rw [List.flatMap_append, ← List.length_flatMap, List.getElem?_append_right (Nat.le_add_right _ _),
    Nat.add_sub_cancel_left, List.flatMap_cons, List.getElem?_append_left hk]

/-- A position in a block of one size is one in the whole. -/
theorem block_add_lt {count size o k : Nat} (ho : o < count) (hk : k < size) :
    o * size + k < count * size := by
  calc o * size + k < o * size + size := Nat.add_lt_add_left hk _
    _ = (o + 1) * size := (Nat.succ_mul o size).symm
    _ ≤ count * size := Nat.mul_le_mul_right _ ho

/-- The elements of a buffer from a position on. -/
def run (data : Array α) (start size : Nat) : List α := (data.extract start (start + size)).toList

theorem length_run {data : Array α} {start size : Nat} (hend : start + size ≤ data.size) :
    (run data start size).length = size := by
  rw [run, Array.length_toList, Array.size_extract]
  omega

theorem getElem?_run {data : Array α} {start size k : Nat} (hend : start + size ≤ data.size)
    (hk : k < size) : (run data start size)[k]? = data[start + k]? := by
  rw [run, Array.getElem?_toList, Array.getElem?_extract, if_pos]
  omega

/-! ### Joining -/

section Interleave

variable {parts : List (Array α × Nat)} {outer o : Nat}

/-- Each turn takes one block of every part. -/
theorem interleave_eq_turns (parts : List (Array α × Nat)) (outer : Nat) :
    interleave parts outer = ((List.range outer).flatMap fun o =>
      parts.flatMap fun p => run p.1 (o * p.2) p.2).toArray := by
  simp only [interleave, run, Nat.succ_mul]

/-- The block of a part lies within its buffer. -/
theorem length_block (h : ∀ p ∈ parts, p.1.size = outer * p.2) (ho : o < outer) :
    ∀ p ∈ parts, o * p.2 + p.2 ≤ p.1.size ∧ (run p.1 (o * p.2) p.2).length = p.2 := by
  intro p hp
  have hend : o * p.2 + p.2 ≤ p.1.size := by
    rw [h p hp, ← Nat.succ_mul]
    exact Nat.mul_le_mul_right _ ho
  exact ⟨hend, length_run hend⟩

theorem length_turn (h : ∀ p ∈ parts, p.1.size = outer * p.2) (ho : o < outer) :
    (parts.flatMap fun p => run p.1 (o * p.2) p.2).length = (parts.map Prod.snd).sum := by
  rw [List.length_flatMap, List.map_congr_left fun p hp => (length_block h ho p hp).2]

/-- Blocks taken in turn from several buffers, each of which consists of as many blocks. -/
theorem size_interleave (h : ∀ p ∈ parts, p.1.size = outer * p.2) :
    (interleave parts outer).size = outer * (parts.map Prod.snd).sum := by
  rw [interleave_eq_turns, List.size_toArray,
    length_flatMap_blocks fun o ho => length_turn h (List.mem_range.1 ho), List.length_range]

/-- **An element of a joined buffer** lies behind the blocks of the parts before its own. -/
theorem getElem?_interleave {front back : List (Array α × Nat)} {part : Array α × Nat} {k : Nat}
    (h : ∀ p ∈ front ++ part :: back, p.1.size = outer * p.2) (ho : o < outer)
    (hk : k < part.2) :
    (interleave (front ++ part :: back) outer)[o * ((front ++ part :: back).map Prod.snd).sum +
      ((front.map Prod.snd).sum + k)]? = part.1[o * part.2 + k]? := by
  obtain ⟨hend, hlength⟩ := length_block h ho part (by simp)
  have hbefore : (front.map fun p => (run p.1 (o * p.2) p.2).length).sum =
      (front.map Prod.snd).sum := by
    rw [List.map_congr_left fun p hp => (length_block h ho p (List.mem_append_left _ hp)).2]
  have hin : (front.map Prod.snd).sum + k < ((front ++ part :: back).map Prod.snd).sum := by
    simp only [List.map_append, List.sum_append, List.map_cons, List.sum_cons]
    omega
  rw [interleave_eq_turns, List.getElem?_toArray,
    getElem?_flatMap_blocks (fun o ho => length_turn h (List.mem_range.1 ho))
      (List.getElem?_range ho) hin,
    ← hbefore, getElem?_flatMap_parts _ front back (hlength.symm ▸ hk)]
  exact getElem?_run hend hk

end Interleave

/-! ### Gathering -/

section PickRows

variable {data : Array α} {outer extent inner o r : Nat} {picked : List Nat}

theorem pickRows_eq_rows (outer extent inner : Nat) (picked : List Nat) (data : Array α) :
    pickRows outer extent inner picked data = ((List.range outer).flatMap fun o =>
      picked.flatMap fun r => run data ((o * extent + r) * inner) inner).toArray :=
  rfl

/-- A row that is picked lies within the buffer. -/
theorem row_end_le {size : Nat} (hsize : size = outer * (extent * inner)) (ho : o < outer)
    (hr : r < extent) : (o * extent + r) * inner + inner ≤ size := by
  rw [hsize, ← Nat.mul_assoc, ← Nat.succ_mul]
  exact Nat.mul_le_mul_right _ (block_add_lt ho hr)

/-- The picked rows of a block. -/
theorem length_rows (hsize : data.size = outer * (extent * inner))
    (hpicked : ∀ r ∈ picked, r < extent) (ho : o < outer) :
    (picked.flatMap fun r => run data ((o * extent + r) * inner) inner).length =
      picked.length * inner :=
  length_flatMap_blocks fun r hr => length_run (row_end_le hsize ho (hpicked r hr))

/-- Rows picked from a buffer: for each position before the axis, one run per row. -/
theorem size_pickRows (hsize : data.size = outer * (extent * inner))
    (hpicked : ∀ r ∈ picked, r < extent) :
    (pickRows outer extent inner picked data).size = outer * (picked.length * inner) := by
  rw [pickRows_eq_rows, List.size_toArray,
    length_flatMap_blocks fun o ho => length_rows hsize hpicked (List.mem_range.1 ho),
    List.length_range]

/-- **An element of a gathered buffer** is the one of the picked row. -/
theorem getElem?_pickRows (hsize : data.size = outer * (extent * inner))
    (hpicked : ∀ r ∈ picked, r < extent) {q n : Nat} (ho : o < outer) (hq : picked[q]? = some r)
    (hn : n < inner) :
    (pickRows outer extent inner picked data)[o * (picked.length * inner) + (q * inner + n)]? =
      data[(o * extent + r) * inner + n]? := by
  have hrow : ∀ r ∈ picked, (run data ((o * extent + r) * inner) inner).length = inner :=
    fun r hr => length_run (row_end_le hsize ho (hpicked r hr))
  have hin : q * inner + n < picked.length * inner :=
    block_add_lt (List.getElem?_eq_some_iff.1 hq).1 hn
  have hr : r < extent := hpicked r (List.mem_of_getElem? hq)
  rw [pickRows_eq_rows, List.getElem?_toArray,
    getElem?_flatMap_blocks (fun o ho => length_rows hsize hpicked (List.mem_range.1 ho))
      (List.getElem?_range ho) hin,
    getElem?_flatMap_blocks hrow hq hn]
  exact getElem?_run (row_end_le hsize ho hr) hn

end PickRows

/-! ### Indices along an axis -/

section Axis

variable {dims ix : List Nat} {a : Nat}

/-- A block is one run for each position along its axis. -/
theorem positions_drop (ha : a < dims.length) :
    positions (dims.drop a) = dims.getD a 1 * positions (dims.drop (a + 1)) := by
  rw [List.drop_eq_getElem_cons ha, positions_cons, List.getD_eq_getElem _ _ ha]

/-- A row-major index space is made of one block for each position before an axis, and a block of
one run for each position along it. -/
theorem positions_split (ha : a < dims.length) :
    positions dims = positions (dims.take a) * (dims.getD a 1 * positions (dims.drop (a + 1))) := by
  rw [← positions_drop ha, ← positions_append, List.take_append_drop]

theorem Within.take (h : Within dims ix) (a : Nat) : Within (dims.take a) (ix.take a) :=
  List.forall₂_take a h

theorem Within.drop (h : Within dims ix) (a : Nat) : Within (dims.drop a) (ix.drop a) :=
  List.forall₂_drop a h

/-- The axes before one number the block, the others the element in it. -/
theorem place_split (h : Within dims ix) (a : Nat) :
    place dims ix = place (dims.take a) (ix.take a) * positions (dims.drop a) +
      place (dims.drop a) (ix.drop a) := by
  have hlength : (dims.take a).length = (ix.take a).length := by simp [h.length_eq]
  conv_lhs => rw [← List.take_append_drop a dims, ← List.take_append_drop a ix]
  exact place_append hlength

end Axis

end Lamina
