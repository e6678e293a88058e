import Lamina.Number.Binary

/-!
# Shortest decimals

The text of a word uses the fewest decimal digits that read back as the same word, and of those the
decimal nearest to its value. Reading is `Binary.ofDecimal`, so "reads back" is tested with the very
rule that reads.

Which digits are chosen (`Binary.shortest`) and how they are laid out (`Decimal.render`) are
separate: the second is governed by one record of decisions, `DecimalStyle`.
-/

namespace Lamina

/-- A non-negative decimal, `digits * 10 ^ exponent`. -/
structure Decimal where
  /-- All digits, read as one natural. -/
  digits : Nat
  /-- The power of ten of the last digit. -/
  exponent : Int
deriving DecidableEq

namespace Decimal

/-- The decimal without trailing zeros, stripping at most `fuel` of them. -/
def strip : Nat → Decimal → Decimal
  | 0, d => d
  | fuel + 1, d =>
    if d.digits ≠ 0 ∧ d.digits % 10 = 0 then strip fuel ⟨d.digits / 10, d.exponent + 1⟩ else d

/-- The digits as characters, most significant first. -/
def characters (d : Decimal) : List Char := Nat.toDigits 10 d.digits

/-- The power of ten of the first digit. -/
def leading (d : Decimal) : Int := d.exponent + d.characters.length - 1

end Decimal

/-! ### Selecting digits -/

/-- How many decimal digits always suffice for a format. -/
def Format.decimalDigits (f : Format) : Nat := (f.fractionBits + 1) * 30103 / 100000 + 2

namespace Binary

variable {f : Format}

/-- Whether a decimal reads back as the magnitude of `x`. -/
def readsBack (x : Binary f) (d : Decimal) : Bool :=
  (ofDecimal false d.digits d.exponent : Binary f).magnitude == x.magnitude

/-- The value of a finite word as a ratio of naturals, without its sign. -/
def ratio (x : Binary f) : Nat × Nat :=
  let q := f.exponent x.magnitude
  (f.significand x.magnitude * twoPow q.toNat, twoPow (-q).toNat)

/-- The power of ten of the leading digit of a positive ratio: the first of a few candidates from
below whose successor exceeds it. -/
def leadingPower (num den : Nat) : Int :=
  let guess := Format.log2Ratio num den * 30103 / 100000 - 1
  let exceeds (k : Int) : Bool := num * tenPow (-k).toNat < den * tenPow k.toNat
  (((List.range 4).map fun (i : Nat) => guess + i).find? fun k => exceeds (k + 1)).getD guess

/-- The decimal nearest to `num / den` among those with unit `10 ^ k` that read back as `x`. Halfway
between two of them the greater one is taken. -/
def candidate? (x : Binary f) (num den : Nat) (k : Int) : Option Decimal :=
  let n := num * tenPow (-k).toNat
  let d := den * tenPow k.toNat
  let below : Decimal := ⟨n / d, k⟩
  let above : Decimal := ⟨n / d + 1, k⟩
  match x.readsBack below, x.readsBack above with
  | true, true => some (if 2 * (n % d) < d then below else above)
  | true, false => some below
  | false, true => some above
  | false, false => none

/-- The shortest decimal that reads back as the magnitude of a finite non-zero word. -/
def shortest (x : Binary f) : Decimal :=
  let (num, den) := x.ratio
  let top := leadingPower num den
  let found := (List.range f.decimalDigits).findSome? fun (i : Nat) =>
    x.candidate? num den (top - i)
  (found.getD ⟨num * Nat.pow 5 den.log2, -(den.log2 : Int)⟩).strip (f.decimalDigits + 1)

end Binary

/-! ### Laying out digits -/

/-- The decisions of a decimal notation. -/
structure DecimalStyle where
  /-- Leading powers of ten from here on are written positionally, … -/
  plainFrom : Int
  /-- … up to here, exclusively. All others get an exponent. -/
  plainBelow : Int

namespace Decimal

/-- The decimal in positional notation, with at least one digit after the point. -/
def plain (d : Decimal) : String :=
  let cs := d.characters
  if d.leading < 0 then
    "0." ++ String.ofList (List.replicate (-d.leading - 1).toNat '0' ++ cs)
  else if d.exponent < 0 then
    let whole := d.leading.toNat + 1
    String.ofList (cs.take whole) ++ "." ++ String.ofList (cs.drop whole)
  else String.ofList (cs ++ List.replicate d.exponent.toNat '0') ++ ".0"

/-- The decimal with one digit before the point and an exponent without a plus sign. -/
def scientific (d : Decimal) : String :=
  let cs := d.characters
  let point := if cs.length ≤ 1 then "" else "."
  String.ofList (cs.take 1) ++ point ++ String.ofList (cs.drop 1) ++ "e" ++ toString d.leading

/-- The decimal in the notation its size calls for. -/
def render (style : DecimalStyle) (d : Decimal) : String :=
  if style.plainFrom ≤ d.leading ∧ d.leading < style.plainBelow then d.plain else d.scientific

end Decimal

/-- Values from 0.0001 up to 10^16 are written positionally. -/
def Binary32.style : DecimalStyle := ⟨-4, 16⟩

/-- The text of a word: the shortest decimal that identifies it, with its sign. -/
def Binary32.text (x : Binary32) : String :=
  let sign := if x.negative then "-" else ""
  if x.isNaN then "NaN"
  else if x.isInfinite then sign ++ "inf"
  else if x.isZero then sign ++ "0.0"
  else sign ++ (Binary.shortest x).render style

end Lamina
