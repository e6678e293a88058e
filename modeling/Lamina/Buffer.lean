import Lamina.Number.Decimal
import Lamina.Text.Quoted

/-!
# Element buffers

A buffer is a flat sequence of elements of one of two types: single-precision words for weights and
activations, 64-bit integers for shapes and indices. Its byte form is little-endian, and reading it
back gives the same words.
-/

namespace Lamina

/-- The type of the elements of a buffer. -/
inductive ElementType where
  | float
  | int64
deriving DecidableEq

namespace ElementType

/-- The name used in texts. -/
def text : ElementType → String
  | float => "float"
  | int64 => "int64"

/-- The name of the type in generated C declarations. -/
def cName : ElementType → String
  | float => "float"
  | int64 => "int64_t"

/-- Whether the type holds integers only. -/
def isIntegral : ElementType → Bool
  | float => false
  | int64 => true

/-- Bytes per element. -/
def byteSize : ElementType → Nat
  | float => 4
  | int64 => 8

end ElementType

/-! ### Single elements -/

/-- One element. -/
inductive Element where
  | float (value : Binary32)
  | int (value : Int64)

namespace Element

/-- The element of a type that represents a natural. -/
def ofNat (t : ElementType) (n : Nat) : Element :=
  match t with
  | .float => .float (.ofInt n)
  | .int64 => .int (.ofNat n)

/-- The element of a type that represents a double-precision number. -/
def ofDouble (t : ElementType) (x : Binary64) : Element :=
  match t with
  | .float => .float x.convert
  | .int64 => .int x.toInt64

/-- The element as a double-precision number. -/
def toDouble : Element → Binary64
  | float x => x.convert
  | int i => .ofInt64 i

end Element

/-! ### Buffers -/

/-- A flat sequence of elements of one type. -/
inductive Buffer where
  | floats (values : Array Binary32)
  | ints (values : Array Int64)
deriving DecidableEq

namespace Buffer

/-- Number of elements. -/
def size : Buffer → Nat
  | floats v => v.size
  | ints v => v.size

/-- The type of the elements. -/
def elementType : Buffer → ElementType
  | floats _ => .float
  | ints _ => .int64

/-- A buffer of zeros. -/
def zeros (t : ElementType) (n : Nat) : Buffer :=
  match t with
  | .float => floats (.replicate n .zero)
  | .int64 => ints (.replicate n 0)

/-- The elements as single-precision words. -/
def toFloats : Buffer → Array Binary32
  | floats v => v
  | ints v => v.map .ofInt64

/-- The elements as integers, fractions cut off. -/
def toInts : Buffer → Array Int64
  | floats v => v.map fun x => x.toInt64
  | ints v => v

/-- The buffer converted to an element type. -/
def cast (b : Buffer) (t : ElementType) : Buffer :=
  match t with
  | .float => floats b.toFloats
  | .int64 => ints b.toInts

/-- The buffer with its elements moved by a rule that does not look at them. -/
def rearrange (b : Buffer) (move : {α : Type} → Array α → Array α) : Buffer :=
  match b with
  | floats v => floats (move v)
  | ints v => ints (move v)

/-- Equality of values: as numbers for floats, so that a buffer with a NaN differs from itself. -/
def sameValues : Buffer → Buffer → Bool
  | floats a, floats b => a.size == b.size && (a.zip b).all fun p => p.1.sameValue p.2
  | ints a, ints b => a == b
  | _, _ => false

/-- The elements in brackets after the name of their type. -/
def text : Buffer → String
  | floats v => "Float(" ++ Text.list (v.toList.map Binary32.text) ++ ")"
  | ints v => "Int(" ++ Text.integers v.toList ++ ")"

/-! ### Bytes -/

/-- The `n` low bytes of a natural, least significant first. -/
def littleEndian : Nat → Nat → List UInt8
  | 0, _ => []
  | n + 1, w => UInt8.ofNat (w % 256) :: littleEndian n (w / 256)

/-- The natural with the given bytes, least significant first. -/
def ofLittleEndian : List UInt8 → Nat
  | [] => 0
  | b :: bs => b.toNat + 256 * ofLittleEndian bs

/-- The first `count` groups of `size` bytes. -/
def groups (size : Nat) : Nat → List UInt8 → List (List UInt8)
  | 0, _ => []
  | count + 1, bs => bs.take size :: groups size count (bs.drop size)

/-- The byte form of a buffer. -/
def toBytes : Buffer → List UInt8
  | floats v => v.toList.flatMap fun x => littleEndian 4 x.bits.toNat
  | ints v => v.toList.flatMap fun i => littleEndian 8 i.toBitVec.toNat

/-- The buffer with a given byte form. There is none if the bytes do not make up whole elements. -/
def ofBytes? (t : ElementType) (bs : List UInt8) : Option Buffer :=
  if bs.length % t.byteSize ≠ 0 then none
  else
    let words := (groups t.byteSize (bs.length / t.byteSize) bs).map ofLittleEndian
    match t with
    | .float => some (floats (words.map fun w => ⟨BitVec.ofNat _ w⟩).toArray)
    | .int64 => some (ints (words.map fun w => Int64.ofBitVec (BitVec.ofNat 64 w)).toArray)

end Buffer

end Lamina
