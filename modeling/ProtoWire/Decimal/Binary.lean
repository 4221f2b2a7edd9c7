import ProtoWire.Decimal.Integer

/-!
# Decimal numbers as binary floating-point numbers

* `Numeral`: a decimal number, as sign, digits and power of ten.
* `Numeral.read?`: the numeral of a text.
* `BinaryFormat.round?`: the bit pattern nearest to a numeral, a half going to the even neighbour.
-/

namespace ProtoWire.Decimal

/-- The number `coefficient * 10 ^ exponent`, or its negative. -/
structure Numeral where
  negative : Bool
  coefficient : Nat
  exponent : Int
deriving DecidableEq

namespace Numeral

/-- The exponent written after its mark; nothing is zero. -/
def exponent? : List Char → Option Int
  | [] => some 0
  | mark :: rest =>
    if mark == 'e' || mark == 'E' then
      match rest with
      | '+' :: digits => (digits? digits).map Int.ofNat
      | '-' :: digits => (digits? digits).map fun n => -Int.ofNat n
      | digits => (digits? digits).map Int.ofNat
    else none

/-- The numeral of characters without sign: digits, perhaps with a point among them, and perhaps an
exponent. -/
def unsigned? (negative : Bool) (chars : List Char) : Option Numeral :=
  let whole := chars.takeWhile Char.isDigit
  let rest := chars.dropWhile Char.isDigit
  let (fraction, rest) := match rest with
    | '.' :: after => (after.takeWhile Char.isDigit, after.dropWhile Char.isDigit)
    | _ => ([], rest)
  match digits? (whole ++ fraction), exponent? rest with
  | some coefficient, some exponent =>
    some { negative, coefficient, exponent := exponent - fraction.length }
  | _, _ => none

def read? (text : String) : Option Numeral :=
  match text.toList with
  | '+' :: rest => unsigned? false rest
  | '-' :: rest => unsigned? true rest
  | chars => unsigned? false chars

end Numeral

/-- A format with a sign bit, a biased exponent and a mantissa without its leading one. -/
structure BinaryFormat where
  mantissaBits : Nat
  exponentBits : Nat

namespace BinaryFormat

def single : BinaryFormat := ⟨23, 8⟩

def double : BinaryFormat := ⟨52, 11⟩

/-- The exponent of the lowest bit of the smallest numbers. -/
def leastExponent (F : BinaryFormat) : Int :=
  2 - Int.ofNat (Nat.pow 2 (F.exponentBits - 1)) - F.mantissaBits

def signBit (F : BinaryFormat) (negative : Bool) : Nat :=
  if negative then Nat.pow 2 (F.mantissaBits + F.exponentBits) else 0

def infinity (F : BinaryFormat) (negative : Bool) : Nat :=
  F.signBit negative + (Nat.pow 2 F.exponentBits - 1) * Nat.pow 2 F.mantissaBits

/-- The pattern of the quiet not-a-number without payload. -/
def notANumber (F : BinaryFormat) : Nat :=
  F.infinity false + Nat.pow 2 (F.mantissaBits - 1)

/-- The quotient rounded to the nearest integer, a half going to the even one. -/
def roundDiv (num den : Nat) : Nat :=
  let q := num / den
  let twice := 2 * (num % den)
  if twice < den then q
  else if den < twice then q + 1
  else q + q % 2

def bitCount (n : Nat) : Nat :=
  if n = 0 then 0 else Nat.log2 n + 1

/-- The pattern nearest to the positive fraction `num / den`; none if that is beyond all finite
ones. The unit in the last place is the power of two that leaves a full mantissa, or the least there
is. A mantissa that rounds up to the next power of two carries over into the exponent. -/
def nearest? (F : BinaryFormat) (num den : Nat) : Option Nat :=
  let guess : Int := Int.ofNat (bitCount num) - Int.ofNat (bitCount den) - F.mantissaBits - 1
  let scaled (unit : Int) : Nat × Nat :=
    (num * Nat.pow 2 (-unit).toNat, den * Nat.pow 2 unit.toNat)
  -- The quotient of two numbers has as many bits as their difference in bits, or one more.
  let tight : Int :=
    let (n, d) := scaled guess
    if n / d < Nat.pow 2 (F.mantissaBits + 1) then guess else guess + 1
  let unit := max tight F.leastExponent
  let (n, d) := scaled unit
  let steps := (unit - F.leastExponent).toNat
  let pattern := steps * Nat.pow 2 F.mantissaBits + roundDiv n d
  if pattern < F.infinity false then some pattern else none

/-- The pattern nearest to a numeral; none if that is beyond all finite ones. Numerals far out of
reach are told by their number of digits. -/
def round? (F : BinaryFormat) (x : Numeral) : Option Nat :=
  let magnitude : Int := Int.ofNat (bitCount x.coefficient) / 4 + x.exponent
  let bound : Int := Int.ofNat (Nat.pow 2 F.exponentBits)
  let pattern? :=
    if x.coefficient = 0 then some 0
    else if bound < magnitude then none
    else if Int.ofNat (bitCount x.coefficient) + x.exponent < -bound then some 0
    else F.nearest? (x.coefficient * Nat.pow 10 x.exponent.toNat) (Nat.pow 10 (-x.exponent).toNat)
  pattern?.map fun pattern => F.signBit x.negative + pattern

end BinaryFormat

end ProtoWire.Decimal
