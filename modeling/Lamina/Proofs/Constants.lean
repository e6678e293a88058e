import Mathlib
import Lamina.Matrix
import Lamina.Proofs.Slots
import Lamina.Proofs.Strided

/-!
# Constants: what is put together fits

`Constant.ofParts` refuses parts that do not fit, and so do the operations on constants that end in
it. Here they are shown not to be refused: a constant can be brought to every layout of its rank
(`toLayout_yields`), to every shape with as many elements (`reshaped_yields`), and to every shape
its own stretches to (`Broadcast.constant_yields`). The arithmetic on buffers may fail, but gives
buffers of a known size.
-/

namespace Lamina

variable {P : Fault → Prop}

/-! ### Buffers -/

/-- Moving elements around is counted for both kinds of elements at once. -/
theorem Buffer.size_rearrange {b : Buffer} {move : {α : Type} → Array α → Array α} {n : Nat}
    (h : ∀ {α : Type} (v : Array α), v.size = b.size → (move v).size = n) :
    (b.rearrange move).size = n := by
  cases b with
  | floats v => exact h v rfl
  | ints v => exact h v rfl

@[simp] theorem Buffer.size_toFloats (b : Buffer) : b.toFloats.size = b.size := by
  cases b <;> simp [Buffer.toFloats, Buffer.size]

@[simp] theorem Buffer.size_toInts (b : Buffer) : b.toInts.size = b.size := by
  cases b <;> simp [Buffer.toInts, Buffer.size]

/-! ### Putting constants together -/

namespace Constant

/-- Parts that fit are accepted. -/
theorem ofParts_yields {shape : Shape} {layout : Layout} {data : Buffer}
    (hl : layout.fits shape.rank = true) (hs : data.size = shape.count) :
    Yields P (ofParts shape layout data)
      fun c => c.shape = shape ∧ c.layout = layout ∧ c.data = data := by
  unfold ofParts
  rw [dif_pos hl, dif_pos hs]
  exact ⟨rfl, rfl, rfl⟩

theorem ofBuffer_yields {shape : Shape} {data : Buffer} (hs : data.size = shape.count) :
    Yields P (ofBuffer shape data) fun c => c.shape = shape ∧ c.data = data :=
  (ofParts_yields rfl hs).imp fun _ hc => ⟨hc.1, hc.2.2⟩

@[simp] theorem shape_cast (c : Constant) (t : ElementType) : (c.cast t).shape = c.shape := by
  unfold cast
  split <;> rfl

/-- The values in axis order are as many as there are positions. -/
theorem size_source (c : Constant) : c.source.size = c.shape.count := by
  unfold source
  split
  · have hperm := Layout.memoryOrder_perm c.layout_fits
    have hlength : (c.layout.memoryOrder c.shape.rank).length = c.shape.rank := by
      simpa using hperm.length_eq
    have hcount : positions (c.shape.permuted (c.layout.memoryOrder c.shape.rank)).dims =
        c.shape.count := positions_map_getD hperm
    refine Buffer.size_rearrange fun v hv => ?_
    rw [size_permuteAxes, hcount]
    · rw [hv, c.size_eq, hcount]
    · have hrank : (c.shape.permuted (c.layout.memoryOrder c.shape.rank)).dims.length =
          c.shape.rank := by
        simpa [Shape.permuted] using hlength
      rw [hrank]
      exact inverseOrder_perm hperm
  · exact c.size_eq

@[simp] theorem size_floats (c : Constant) : c.floats.size = c.shape.count := by
  rw [floats, Buffer.size_toFloats, size_source]

@[simp] theorem length_ints (c : Constant) : c.ints.length = c.shape.count := by
  rw [ints, Array.length_toList, Buffer.size_toInts, size_source]

/-- A constant can be brought to every layout of its rank. -/
theorem toLayout_yields {c : Constant} {target : Layout} (h : target.fits c.shape.rank = true) :
    Yields P (c.toLayout target) fun c' => c'.shape = c.shape ∧ c'.layout = target := by
  unfold toLayout
  split
  · rename_i heq
    exact ⟨rfl, heq⟩
  · split
    · refine (ofParts_yields h (Buffer.size_rearrange fun v hv => ?_)).imp
        fun _ hc => ⟨hc.1, hc.2.1⟩
      refine size_permuteAxes ?_ (Layout.memoryOrder_perm h)
      rw [hv, size_source, Shape.count]
    · exact ⟨rfl, rfl⟩

/-- A constant can be brought to every shape with as many elements. -/
theorem reshaped_yields {c : Constant} {shape : Shape} (h : shape.count = c.shape.count) :
    Yields P (c.reshaped shape) fun c' => c'.shape = shape := by
  unfold reshaped
  rw [dif_pos h]
  split
  · exact (ofBuffer_yields ((size_source c).trans h.symm)).imp fun _ hc => hc.1
  · exact rfl

end Constant

/-! ### Broadcasting constants -/

namespace Broadcast

/-- An embedded shape is surrounded by unit axes. -/
theorem embedShape_dims {shape : Shape} {offset outRank : Nat} (h : offset + shape.rank ≤ outRank) :
    (embedShape shape offset outRank).dims =
      List.replicate offset 1 ++ shape.dims ++
        List.replicate (outRank - (offset + shape.rank)) 1 := by
  have hlength : (List.replicate offset 1 ++ shape.dims).length = offset + shape.rank := by
    simp [Shape.rank]
  simp only [embedShape, hlength]
  rw [List.take_of_length_le (hlength.trans_le h)]

theorem count_embedShape {shape : Shape} {offset outRank : Nat}
    (h : offset + shape.rank ≤ outRank) :
    (embedShape shape offset outRank).count = shape.count := by
  rw [Shape.count, embedShape_dims h]
  simp [Shape.count]

theorem rank_embedShape {shape : Shape} {offset outRank : Nat} (h : offset + shape.rank ≤ outRank) :
    (embedShape shape offset outRank).rank = outRank := by
  rw [Shape.rank, embedShape_dims h]
  simp only [List.length_append, List.length_replicate]
  unfold Shape.rank at h ⊢
  omega

/-- An operand that begins at an axis of a result and stretches to it. -/
def Embeds (shape : Shape) (offset : Nat) (out : Shape) : Prop :=
  offset + shape.rank ≤ out.rank ∧ Stretches (embedShape shape offset out.rank).dims out.dims

/-- A constant can be repeated up to every shape that its own stretches to. -/
theorem constant_yields {c : Constant} {offset : Nat} {out : Shape}
    (h : Embeds c.shape offset out) :
    Yields P (constant c offset out) fun c' => c'.shape = out := by
  obtain ⟨hrank, hstretch⟩ := h
  have hcount := count_embedShape hrank
  unfold constant
  dsimp only
  split
  · rename_i heq
    rw [heq.1] at hcount ⊢
    exact Constant.reshaped_yields hcount
  · refine (Constant.ofBuffer_yields (Buffer.size_rearrange fun v hv => ?_)).imp fun _ hc => hc.1
    refine size_repeatAxes ?_ hstretch
    rw [hv, Constant.size_source, ← hcount]
    rfl

end Broadcast

/-! ### Arithmetic -/

namespace Kernel

variable {site : Site}

/-- A fault of the arithmetic is allowed at every site. -/
theorem fails {α : Type} {Q : α → Prop} {operation : String} {cause : KernelCause} :
    Yields (Fault.Own site) ((Kernel.site operation).fail (.kernel cause)) Q :=
  ⟨rfl, .inr rfl⟩

theorem length_mapM_some {α β : Type} {f : α → Option β} {l : List α} {out : List β}
    (h : l.mapM f = some out) : out.length = l.length := by
  induction l generalizing out with
  | nil =>
    obtain rfl : [] = out := by simpa using h
    rfl
  | cons a l ih =>
    rw [List.mapM_cons] at h
    obtain ⟨b, -, h⟩ := Option.bind_eq_some_iff.1 h
    obtain ⟨bs, hbs, h⟩ := Option.bind_eq_some_iff.1 h
    obtain rfl := Option.some.inj h
    simp [ih hbs]

theorem size_mapM_some {α β : Type} {f : α → Option β} {a : Array α} {out : Array β}
    (h : a.mapM f = some out) : out.size = a.size := by
  rw [Array.mapM_eq_mapM_toList] at h
  obtain ⟨l, hl, rfl⟩ := Option.map_eq_some_iff.1 h
  rw [List.size_toArray, length_mapM_some hl, Array.length_toList]

/-- Both operands have as many elements as the result. -/
theorem binary_yields (op : BinaryOp) (a b : Buffer) :
    Yields (Fault.Own site) (binary op a b) fun out => a.size = b.size ∧ out.size = a.size := by
  unfold binary
  dsimp only
  split
  · exact fails
  · rename_i hsize
    replace hsize : a.size = b.size := not_not.1 hsize
    split
    · refine .ok ⟨hsize, ?_⟩
      simp only [Buffer.size] at hsize ⊢
      simp [hsize]
    · split
      · rename_i out hout
        refine .ok ⟨hsize, ?_⟩
        have := size_mapM_some hout
        simp only [Buffer.size] at hsize ⊢
        simp [this, hsize]
      · exact fails
    · exact fails

theorem unary_yields (op : UnaryOp) (b : Buffer) :
    Yields (Fault.Own site) (unary op b) fun out => out.size = b.size := by
  unfold unary
  split
  · exact .ok (by simp [Buffer.size])
  · split
    · exact .ok (by simp [Buffer.size])
    · split
      · rename_i out hout
        exact .ok (size_mapM_some hout)
      · exact fails
    · exact fails
    · exact fails

/-- Each matrix of a stack is there, in front of those that come after it. -/
theorem le_size_extract {a : Array Binary32} {batch rows columns s : Nat}
    (ha : a.size = batch * rows * columns) (hs : s < batch) :
    rows * columns ≤ (a.extract (s * rows * columns)).size := by
  have hend : (s + 1) * (rows * columns) ≤ batch * (rows * columns) :=
    Nat.mul_le_mul_right _ hs
  rw [Array.size_extract, Nat.min_self, ha, Nat.mul_assoc, Nat.mul_assoc]
  rw [Nat.succ_mul] at hend
  omega

/-- The blocks of a stack of products. -/
theorem length_multiply (p : MatrixProduct) {a b : Array Binary32} {batch m k n s : Nat}
    (ha : a.size = batch * m * k) (hb : b.size = batch * k * n) (hs : s < batch) :
    (p.multiply m k n (a.extract (s * m * k)) (b.extract (s * k * n))).toList.length = m * n := by
  rw [Array.length_toList]
  exact p.size_multiply (le_size_extract ha hs) (le_size_extract hb hs)

/-- A stack of products has one value per row and column of each. -/
theorem matmul_yields (p : MatrixProduct) (a b : Array Binary32) (batch m k n : Nat) :
    Yields (Fault.Own site) (matmul p a b batch m k n) fun out => out.size = batch * (m * n) := by
  unfold matmul
  split
  · rename_i hsize
    have hblock : ∀ s ∈ List.range batch, _ = m * n := fun s hs =>
      length_multiply p hsize.1 hsize.2 (List.mem_range.1 hs)
    refine .ok ?_
    rw [List.size_toArray, List.length_flatMap, List.map_congr_left hblock]
    simp
  · exact fails

theorem length_softmaxRow (row : List Binary32) : (softmaxRow row).length = row.length := by
  simp [softmaxRow]

/-- Rows are replaced one by one, so the number of elements stays. -/
theorem softmax_yields (data : Array Binary32) (inner : Nat) :
    Yields (Fault.Own site) (softmax data inner) fun out => out.size = data.size := by
  unfold softmax
  split
  · exact fails
  · rename_i h
    rw [not_or, not_not] at h
    obtain ⟨hinner, hmod⟩ := h
    have hdiv : data.size / inner * inner = data.size :=
      Nat.div_mul_cancel (Nat.dvd_of_mod_eq_zero hmod)
    refine .ok ?_
    have hrow : ∀ r ∈ List.range (data.size / inner),
        (softmaxRow (data.extract (r * inner) (r * inner + inner)).toList).length = inner := by
      intro r hr
      have hr : r + 1 ≤ data.size / inner := List.mem_range.1 hr
      have hend : r * inner + inner ≤ data.size := by
        rw [← Nat.succ_mul, ← hdiv]
        exact Nat.mul_le_mul_right inner hr
      simp only [length_softmaxRow, Array.length_toList, Array.size_extract]
      omega
    rw [List.size_toArray, rows, List.flatMap_map, List.length_flatMap, List.map_congr_left hrow]
    simp [hdiv]

theorem size_foldl_modify {α : Type} (l : List (α × Nat)) (f : α → Binary32 → Binary32)
    (sums : Array Binary32) :
    (l.foldl (fun sums (e : α × Nat) => sums.modify e.2 (f e.1)) sums).size = sums.size := by
  induction l generalizing sums with
  | nil => rfl
  | cons e l ih => rw [List.foldl_cons, ih, Array.size_modify]

/-- A mean has one value per position of the reduced shape. -/
theorem reduceMean_yields (data : Array Binary32) (dims axes : List Nat) :
    Yields (Fault.Own site) (reduceMean data dims axes)
      fun out => out.size = positions (reducedDims dims axes) := by
  unfold reduceMean
  split
  · refine .ok ?_
    rw [Array.size_map]
    refine (size_foldl_modify _ (fun x sum => Binary32.add sum x) _).trans ?_
    simp
  · exact fails

end Kernel

theorem Buffer.scaled_yields {site : Site} (b : Buffer) (factor : Binary32) :
    Yields (Fault.Own site) (b.scaled factor) fun out => out.size = b.size := by
  unfold Buffer.scaled
  split
  · exact .ok rfl
  · refine (Kernel.binary_yields _ _ _).imp fun out hout => ?_
    rw [hout.2, Buffer.size_cast]

end Lamina
