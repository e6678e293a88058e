import Lamina.Number.Binary

/-!
# Products of matrices

Multiplying two matrices of words is left to whoever is good at it. What the library relies on is
that the product has its number of elements, and that it is determined by the two matrices
(`MatrixProduct`). In which order the terms of a sum are added, and how they are rounded, is not
laid down.

`MatrixProduct.plain` is a product that adds from the left.
-/

namespace Lamina

/-- A way to multiply matrices of words. Matrices are held row by row at the beginning of a
buffer. -/
structure MatrixProduct where
  /-- The product of an `m × k` by a `k × n` matrix. -/
  multiply (m k n : Nat) (a b : Array Binary32) : Array Binary32
  /-- The product of matrices is a matrix. -/
  size_multiply {m k n : Nat} {a b : Array Binary32} (ha : m * k ≤ a.size) (hb : k * n ≤ b.size) :
    (multiply m k n a b).size = m * n
  /-- What comes behind the matrices in their buffers does not matter. -/
  multiply_congr {m k n : Nat} {a a' b b' : Array Binary32}
    (ha : ∀ i < m * k, a[i]? = a'[i]?) (hb : ∀ i < k * n, b[i]? = b'[i]?) :
    multiply m k n a b = multiply m k n a' b'

namespace MatrixProduct

/-- The products of the elements of a row of `k` with those of a column, both starting at given
offsets. The elements of the column are `n` apart. -/
def terms (a b : Array Binary32) (k n rowStart columnStart : Nat) : List Binary32 :=
  (List.range k).map fun l =>
    Binary32.mul (a.getD (rowStart + l) .zero) (b.getD (columnStart + l * n) .zero)

/-- The sum of words from the left, begun with the first. -/
def sum : List Binary32 → Binary32
  | [] => .zero
  | x :: rest => rest.foldl Binary32.add x

/-- Whether the sums in a product of an `m × k` by a `k × n` matrix are begun with zero instead of
the first term. Those of one or two terms are not, nor are those of a single row of several columns.
It makes a difference only if all terms are negative zeros. -/
def beginsWithZero (m k n : Nat) : Bool := 2 < k && !(m == 1 && 1 < n)

/-- The sum of the products of a row and a column. -/
def dot (a b : Array Binary32) (m k n rowStart columnStart : Nat) : Binary32 :=
  let terms := terms a b k n rowStart columnStart
  sum (if beginsWithZero m k n then .zero :: terms else terms)

/-- A row and a column are read within the two matrices. -/
theorem dot_congr {m k n i j : Nat} {a a' b b' : Array Binary32} (hi : i < m) (hj : j < n)
    (ha : ∀ i < m * k, a[i]? = a'[i]?) (hb : ∀ i < k * n, b[i]? = b'[i]?) :
    dot a b m k n (i * k) j = dot a' b' m k n (i * k) j := by
  have hterms : terms a b k n (i * k) j = terms a' b' k n (i * k) j := by
    refine List.map_congr_left fun l hl => ?_
    have hrow : i * k + l < m * k := by
      have := Nat.mul_le_mul_right k (Nat.succ_le_of_lt hi)
      have := List.mem_range.1 hl
      rw [Nat.succ_mul] at *
      omega
    have hcolumn : j + l * n < k * n := by
      have := Nat.mul_le_mul_right n (Nat.succ_le_of_lt (List.mem_range.1 hl))
      rw [Nat.succ_mul] at *
      omega
    rw [Array.getD_eq_getD_getElem?, Array.getD_eq_getD_getElem?, Array.getD_eq_getD_getElem?,
      Array.getD_eq_getD_getElem?, ha _ hrow, hb _ hcolumn]
  rw [dot, dot, hterms]

/-- Every element is the sum of the products of its row and its column, from the left. -/
def plain : MatrixProduct where
  multiply m k n a b :=
    ((List.range m).flatMap fun i => (List.range n).map fun j => dot a b m k n (i * k) j).toArray
  size_multiply _ _ := by simp [List.map_const']
  multiply_congr ha hb := by
    rw [List.flatMap_def, List.flatMap_def]
    congr 2
    refine List.map_congr_left fun i hi => List.map_congr_left fun j hj => ?_
    exact dot_congr (List.mem_range.1 hi) (List.mem_range.1 hj) ha hb

end MatrixProduct

end Lamina
