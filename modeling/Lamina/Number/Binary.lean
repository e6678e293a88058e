/-!
# Binary floating-point words

A floating-point value is kept as its bits, so that moving it never changes it: the payload of a NaN
and the sign of a zero survive every copy.

All conversions into a format go through one rule, `Format.nearest`: the magnitude of the format
that is nearest to a ratio of naturals, a tie going to the even significand. Integers, decimals and
words of the other format are all ratios, so each conversion is one call.

Sums, products, quotients and square roots are those of the machine, whose reference model is part
of the logic.
-/

namespace Lamina

/-- The power of two of an exponent. -/
def twoPow (k : Nat) : Nat := Nat.pow 2 k

/-- The power of ten of an exponent. -/
def tenPow (k : Nat) : Nat := Nat.pow 10 k

/-- A quotient rounded to the nearest natural, a half going to the even neighbour. -/
def divNearestEven (n d : Nat) : Nat :=
  let q := n / d
  let r := n % d
  if 2 * r < d then q else if d < 2 * r then q + 1 else q + q % 2

/-! ### Formats -/

/-- A binary interchange format: a sign bit, an exponent field, a fraction field. -/
structure Format where
  /-- Width of the exponent field. -/
  exponentBits : Nat
  /-- Width of the fraction field. -/
  fractionBits : Nat

namespace Format

/-- The 32-bit format. -/
def single : Format := ⟨8, 23⟩

/-- The 64-bit format. -/
def double : Format := ⟨11, 52⟩

/-- Width of a word. -/
def width (f : Format) : Nat := f.exponentBits + f.fractionBits + 1

/-- The stored exponent of the value one. -/
def bias (f : Format) : Nat := twoPow (f.exponentBits - 1) - 1

/-- The exponent of the last place of a subnormal. -/
def lowest (f : Format) : Int := 1 - (f.bias : Int) - f.fractionBits

/-- The magnitude (all bits but the sign) that stands for infinity. Greater ones are NaNs. -/
def infinity (f : Format) : Nat := (twoPow f.exponentBits - 1) * twoPow f.fractionBits

/-- The magnitude of the quiet NaN without payload. -/
def quietNaN (f : Format) : Nat := f.infinity + twoPow (f.fractionBits - 1)

/-- The significand of a finite magnitude, counted in its last place. -/
def significand (f : Format) (w : Nat) : Nat :=
  if w < twoPow f.fractionBits then w else twoPow f.fractionBits + w % twoPow f.fractionBits

/-- The exponent of the last place of a finite magnitude. The fields 0 and 1 share theirs. -/
def exponent (f : Format) (w : Nat) : Int :=
  f.lowest + ((w / twoPow f.fractionBits - 1 : Nat) : Int)

/-- The greatest `e` with `2 ^ e ≤ num / den`, for positive `num` and `den`. -/
def log2Ratio (num den : Nat) : Int :=
  let t : Int := (num.log2 : Int) - den.log2
  if num * twoPow (-t).toNat < den * twoPow t.toNat then t - 1 else t

/-- The magnitude nearest to `num / den`, ties to even, everything too large being infinity.

Magnitudes that follow each other as numbers follow each other as values, so a significand that
rounds up to the next power of two needs no case of its own. -/
def nearest (f : Format) (num den : Nat) : Nat :=
  if num = 0 then 0
  else
    let q := max f.lowest (log2Ratio num den - f.fractionBits)
    let m := divNearestEven (num * twoPow (-q).toNat) (den * twoPow q.toNat)
    min f.infinity ((q - f.lowest).toNat * twoPow f.fractionBits + m)

end Format

/-! ### Words -/

/-- A word of a binary format. -/
structure Binary (f : Format) where
  /-- The bits, sign first. -/
  bits : BitVec f.width
deriving DecidableEq

namespace Binary

variable {f : Format}

/-- The word with the given sign and magnitude. -/
def ofMagnitude (negative : Bool) (w : Nat) : Binary f :=
  ⟨BitVec.ofNat f.width (if negative then twoPow (f.width - 1) + w else w)⟩

/-- Whether the sign bit is set. -/
def negative (x : Binary f) : Bool := twoPow (f.width - 1) ≤ x.bits.toNat

/-- All bits but the sign. -/
def magnitude (x : Binary f) : Nat := x.bits.toNat % twoPow (f.width - 1)

/-- Positive zero. -/
def zero : Binary f := ofMagnitude false 0

/-- The quiet NaN without payload. -/
def nan : Binary f := ofMagnitude false f.quietNaN

/-- An infinity. -/
def infinite (negative : Bool) : Binary f := ofMagnitude negative f.infinity

/-- The finite value of greatest magnitude with the given sign. -/
def extreme (negative : Bool) : Binary f := ofMagnitude negative (f.infinity - 1)

/-- Whether the word is no number. -/
def isNaN (x : Binary f) : Bool := f.infinity < x.magnitude

/-- Whether the word is an infinity. -/
def isInfinite (x : Binary f) : Bool := x.magnitude == f.infinity

/-- Whether the word is a zero of either sign. -/
def isZero (x : Binary f) : Bool := x.magnitude == 0

instance : Inhabited (Binary f) := ⟨zero⟩

/-- The word nearest to a signed ratio. -/
def ofRatio (negative : Bool) (num den : Nat) : Binary f :=
  ofMagnitude negative (f.nearest num den)

/-- The word nearest to an integer. Zero is positive. -/
def ofInt (i : Int) : Binary f := ofRatio (decide (i < 0)) i.natAbs 1

/-- The word nearest to `(-1) ^ negative * digits * 10 ^ exponent`. -/
def ofDecimal (negative : Bool) (digits : Nat) (exponent : Int) : Binary f :=
  ofRatio negative (digits * tenPow exponent.toNat) (tenPow (-exponent).toNat)

/-- The word of another format nearest to this one. A NaN loses its payload. -/
def convert {g : Format} (x : Binary f) : Binary g :=
  if x.isNaN then nan
  else if x.isInfinite then infinite x.negative
  else
    let m := f.significand x.magnitude
    let q := f.exponent x.magnitude
    ofRatio x.negative (m * twoPow q.toNat) (twoPow (-q).toNat)

/-- The integer part of a finite word, and `none` for the others. -/
def truncate? (x : Binary f) : Option Int :=
  if x.isNaN || x.isInfinite then none
  else
    let m := f.significand x.magnitude
    let q := f.exponent x.magnitude
    let n := m * twoPow q.toNat / twoPow (-q).toNat
    some (if x.negative then -(n : Int) else n)

/-- The integer part as a 64-bit integer. What is out of range goes to the nearer bound, a NaN to
zero. -/
def toInt64 (x : Binary f) : Int64 :=
  let i := match x.truncate? with
    | some i => i
    | none =>
      if x.isNaN then 0 else if x.negative then Int64.minValue.toInt else Int64.maxValue.toInt
  Int64.ofInt (max Int64.minValue.toInt (min Int64.maxValue.toInt i))

/-- The word nearest to a 64-bit integer. -/
def ofInt64 (i : Int64) : Binary f := ofInt i.toInt

end Binary

/-! ### Single precision -/

/-- A single-precision word: the element type of weights and activations. -/
abbrev Binary32 := Binary .single

/-- A double-precision word. -/
abbrev Binary64 := Binary .double

namespace Binary32

/-- The machine number of a word. -/
def toMachine (x : Binary32) : Float32 := Float32.ofBits (UInt32.ofNat x.bits.toNat)

/-- The word of a machine number. -/
def ofMachine (x : Float32) : Binary32 := ⟨BitVec.ofNat _ x.toBits.toNat⟩

/-- The value one. -/
def one : Binary32 := .ofInt 1

/-- The word of a short decimal constant, `digits * 10 ^ exponent`. -/
def constant (digits : Nat) (exponent : Int) : Binary32 := .ofDecimal false digits exponent

/-- Sum. -/
def add (x y : Binary32) : Binary32 := ofMachine (x.toMachine + y.toMachine)

/-- Difference. -/
def sub (x y : Binary32) : Binary32 := ofMachine (x.toMachine - y.toMachine)

/-- Product. -/
def mul (x y : Binary32) : Binary32 := ofMachine (x.toMachine * y.toMachine)

/-- Quotient. -/
def div (x y : Binary32) : Binary32 := ofMachine (x.toMachine / y.toMachine)

/-- The same magnitude with the other sign. -/
def neg (x : Binary32) : Binary32 := .ofMagnitude (!x.negative) x.magnitude

/-- The same magnitude without a sign. -/
def abs (x : Binary32) : Binary32 := .ofMagnitude false x.magnitude

/-- Square root. -/
def sqrt (x : Binary32) : Binary32 := ofMachine x.toMachine.sqrt

/-- The machine's exponential. -/
def exp (x : Binary32) : Binary32 := ofMachine x.toMachine.exp

/-- The machine's hyperbolic tangent. -/
def tanh (x : Binary32) : Binary32 := ofMachine x.toMachine.tanh

/-- Equality of values: zeros are equal, a NaN equals nothing. -/
def sameValue (x y : Binary32) : Bool :=
  !x.isNaN && !y.isNaN && (x.bits == y.bits || (x.isZero && y.isZero))

/-- Order of values; false as soon as a NaN is involved. -/
def less (x y : Binary32) : Bool :=
  if x.isNaN || y.isNaN then false
  else match x.negative, y.negative with
    | false, false => x.magnitude < y.magnitude
    | true, true => y.magnitude < x.magnitude
    | true, false => !(x.isZero && y.isZero)
    | false, true => false

/-- The greater of two words. A NaN gives way to the other operand, and of two zeros the second is
taken. -/
def max (x y : Binary32) : Binary32 := if y.isNaN || less y x then x else y

/-- The smaller of two words. A NaN gives way to the other operand, and of two zeros the second is
taken. -/
def min (x y : Binary32) : Binary32 := if y.isNaN || less x y then x else y

end Binary32

end Lamina
