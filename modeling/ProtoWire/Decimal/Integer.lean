/-!
# Decimal integers

* `Decimal.signed?`, `Decimal.unsigned?`: the number of a text, if it lies within bounds. A sign may
  stand in front, and a number without sign bit takes only a plus.
-/

namespace ProtoWire.Decimal

def digit? (c : Char) : Option Nat :=
  if c.isDigit then some (c.toNat - '0'.toNat) else none

/-- The number of some digits after those that make up `value`. -/
def digitsFrom? (value : Nat) : List Char → Option Nat
  | [] => some value
  | c :: rest => (digit? c).bind fun d => digitsFrom? (10 * value + d) rest

/-- The number of a row of digits, one at least. -/
def digits? (chars : List Char) : Option Nat :=
  if chars.isEmpty then none else digitsFrom? 0 chars

/-- The number of a text with or without sign, if it is from `least` to `greatest`. -/
def signed? (least greatest : Int) (text : String) : Option Int :=
  let value? : Option Int := match text.toList with
    | '+' :: rest => (digits? rest).map Int.ofNat
    | '-' :: rest => (digits? rest).map fun n => -Int.ofNat n
    | chars => (digits? chars).map Int.ofNat
  value?.filter fun value => least ≤ value && value ≤ greatest

/-- The number of a text with or without plus sign, if it is not above `greatest`. -/
def unsigned? (greatest : Nat) (text : String) : Option Nat :=
  let value? : Option Nat := match text.toList with
    | '+' :: rest => digits? rest
    | chars => digits? chars
  value?.filter (· ≤ greatest)

end ProtoWire.Decimal
