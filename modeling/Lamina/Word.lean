import Lamina.Fault

/-!
# Sizes in machine words

Extents, counts and offsets are natural numbers here. The machine holds them in words of 64 bits,
and some of them in words with a sign. What the description of a network asks for may be more than
that: a size is let through if it has a word (`Site.word`), and otherwise the computation is given
up with a fatal fault.

A product of sizes is taken from the left (`Site.product`). For this it is not enough that the
product has a word, since an extent of zero comes too late for those before it. `ProductFits` says
what is enough. For the extents of a tensor it all comes down to one condition, `Shape.Fits`.
-/

namespace Lamina

/-- Sizes below have a machine word. This is the 64th power of two. -/
def wordLimit : Nat := 0x10000000000000000

/-- Sizes below have a machine word with a sign. -/
def signedLimit : Nat := 0x8000000000000000

namespace Site

/-- A size that has to have a word. -/
def word (site : Site) (size : Nat) : Except Fault Nat :=
  if size < wordLimit then .ok size else site.fail (.word (.overflow size))

/-- The product of sizes, taken from the left. -/
def product (site : Site) (sizes : List Nat) : Except Fault Nat :=
  sizes.foldlM (fun n size => site.word (n * size)) 1

/-- What is left of a size. -/
def difference (site : Site) (size taken : Nat) : Except Fault Nat :=
  if taken ≤ size then .ok (size - taken) else site.fail (.word (.underflow size taken))

end Site

/-- The product of sizes can be taken from the left in machine words. -/
def ProductFits (sizes : List Nat) : Prop :=
  ∀ i ≤ sizes.length, positions (sizes.take i) < wordLimit

instance (sizes : List Nat) : Decidable (ProductFits sizes) :=
  inferInstanceAs (Decidable (∀ i ≤ sizes.length, _))

/-- The extents of a shape can be computed with: each has a word with a sign, and the products of
neighbouring ones have a word. The number of elements and the strides are such products. -/
structure Shape.Fits (s : Shape) : Prop where
  /-- Extents are added to signed bounds and indices. -/
  signed : ∀ d ∈ s.dims, d < signedLimit
  /-- Extents are multiplied from some axis on. -/
  product : ∀ i, ProductFits (s.dims.drop i)

end Lamina
