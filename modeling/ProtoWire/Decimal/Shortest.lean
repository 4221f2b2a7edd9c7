import ProtoWire.Decimal.Binary

/-!
# The shortest decimal of a floating-point number

* `BinaryFormat.Finite`: the number of a finite bit pattern, `mantissa * 2 ^ exponent`.
* `BinaryFormat.shortest`: the numeral with the fewest digits that reads back as the number, and of
  those the nearest one.
-/

namespace ProtoWire.Decimal

namespace BinaryFormat

/-- The number `mantissa * 2 ^ exponent`, or its negative. -/
structure Finite where
  negative : Bool
  mantissa : Nat
  exponent : Int
deriving DecidableEq

/-- The number of a pattern; infinities and what is not a number have none. -/
def finite? (F : BinaryFormat) (bits : Nat) : Option Finite :=
  let negative := bits / Nat.pow 2 (F.mantissaBits + F.exponentBits) % 2 == 1
  let field := bits / Nat.pow 2 F.mantissaBits % Nat.pow 2 F.exponentBits
  let low := bits % Nat.pow 2 F.mantissaBits
  if field = Nat.pow 2 F.exponentBits - 1 then none
  else if field = 0 then some { negative, mantissa := low, exponent := F.leastExponent }
  else some { negative, mantissa := Nat.pow 2 F.mantissaBits + low,
              exponent := F.leastExponent + Int.ofNat (field - 1) }

/-- The interval of reals that round to a number, in quarters of its last place: the number is at
`4 * mantissa`, and half a place reaches to each side. Below a power of two the places are half as
wide. -/
def interval (F : BinaryFormat) (x : Finite) : Nat × Nat :=
  let below :=
    if x.mantissa = Nat.pow 2 F.mantissaBits && x.exponent != F.leastExponent then 1 else 2
  (4 * x.mantissa - below, 4 * x.mantissa + 2)

/-- The numeral with digits down to `10 ^ place` that reads back as a number, if there is one: the
nearer one of the two around the number, if both do. A tie goes away from zero. -/
def atPlace? (F : BinaryFormat) (x : Finite) (place : Int) : Option Nat :=
  let (least, greatest) := F.interval x
  -- A quarter of the last place is `num / den` times `10 ^ place`.
  let quarter := x.exponent - 2
  let num := Nat.pow 2 quarter.toNat * Nat.pow 10 (-place).toNat
  let den := Nat.pow 2 (-quarter).toNat * Nat.pow 10 place.toNat
  let inside (digits : Nat) : Bool :=
    if x.mantissa % 2 = 0 then least * num ≤ digits * den && digits * den ≤ greatest * num
    else least * num < digits * den && digits * den < greatest * num
  let floor := 4 * x.mantissa * num / den
  let candidates := [floor, floor + 1].filter fun digits => digits != 0 && inside digits
  match candidates with
  | [] => none
  | [digits] => some digits
  | _ => some ((8 * x.mantissa * num + den) / (2 * den))

/-- The numeral of the first place, from `place` on downwards, that has one. -/
def shortestFrom (F : BinaryFormat) (x : Finite) (place : Int) : (fuel : Nat) → Numeral
  | 0 => { negative := x.negative, coefficient := x.mantissa, exponent := 0 }
  | fuel + 1 =>
    match F.atPlace? x place with
    | some digits => { negative := x.negative, coefficient := digits, exponent := place }
    | none => F.shortestFrom x (place - 1) fuel

/-- The shortest numeral that reads back as a number. The highest place tried is above the number,
and twenty places lower the grid is finer than the interval. -/
def shortest (F : BinaryFormat) (x : Finite) : Numeral :=
  if x.mantissa = 0 then { negative := x.negative, coefficient := 0, exponent := 0 }
  else
    let bits : Int := Int.ofNat (bitCount x.mantissa) + x.exponent
    let top : Int := (bits * 30103) / 100000 + 1
    F.shortestFrom x top 24

end BinaryFormat

namespace Numeral

/-- A numeral without its sign, written without exponent. -/
def positional (x : Numeral) : String :=
  let digits := Nat.toDigits 10 x.coefficient
  if 0 ≤ x.exponent then String.ofList (digits ++ List.replicate x.exponent.toNat '0')
  else
    let places := (-x.exponent).toNat
    let padded := List.replicate (places + 1 - digits.length) '0' ++ digits
    let whole := padded.take (padded.length - places)
    let fraction := padded.drop (padded.length - places)
    String.ofList (whole ++ '.' :: fraction)

end Numeral

end ProtoWire.Decimal
