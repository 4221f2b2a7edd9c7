import ProtoWire.Varint.Basic

/-!
# Reading varints

Three decoders of one format. Each answers the number and how many bytes it took.

* `Varint.decodeWindow64`, `Varint.decodeWindow32`: from ten bytes at hand. Bytes are sign extended
  into an accumulator, so the continuation bit of the latest byte is the accumulator's sign, and the
  bits it leaves behind are cleared by one mask at the end.

A decoder of 32-bit numbers keeps the low bits and still reads up to ten bytes, since negative
numbers are written with ten.
-/

namespace ProtoWire.Varint

/-- Reads on at byte `index`, with the bits read so far in `acc`. -/
def decodeFrom (index : Nat) (acc : UInt64) : Bytes → Except DecodeError (UInt64 × Nat)
  | [] => if index < maxVarintSize then .error .truncated else .error .malformedVarint
  | byte :: rest =>
    if index < maxVarintSize then
      let acc := acc ||| ((byte &&& 0x7F).toUInt64 <<< (7 * index).toUInt64)
      if byte < 0x80 then .ok (acc, index + 1) else decodeFrom (index + 1) acc rest
    else .error .malformedVarint

/-- Reads a varint from the start of `bytes`. It is truncated if the bytes end inside it, and
malformed if ten bytes do not end it. -/
def decode (bytes : Bytes) : Except DecodeError (UInt64 × Nat) :=
  decodeFrom 0 0 bytes

/-- Ten bytes at hand, enough for any varint. -/
abbrev Window := Vector UInt8 maxVarintSize

/-- The first ten bytes, if there are as many. -/
def Window.ofBytes? (bytes : Bytes) : Option Window :=
  if h : (bytes.take maxVarintSize).length = maxVarintSize then
    some ⟨(bytes.take maxVarintSize).toArray, by simpa using h⟩
  else none

/-- Byte `i` of a window, sign extended. -/
def Window.signed32 (w : Window) (i : Fin maxVarintSize) : Int32 :=
  (w.get i).toInt8.toInt32

/-- Byte `i` of a window, sign extended. -/
def Window.signed64 (w : Window) (i : Fin maxVarintSize) : Int64 :=
  (w.get i).toInt8.toInt64

/-- All bits from bit `n` up. -/
def mask32 (n : Int32) : Int32 :=
  -1 <<< n

/-- All bits from bit `n` up. -/
def mask64 (n : Int64) : Int64 :=
  -1 <<< n

/-- The place after the first byte without continuation bit, at or after place `start`. -/
def endFrom (w : Window) (start : Nat) : Option Nat :=
  (((w.toList.drop start).findIdx? (· < 0x80)).map (start + · + 1))

/-- Reads a varint whose low 32 bits count. -/
def decodeWindow32 (w : Window) : Option (UInt32 × Nat) :=
  let x := w.signed32 0
  if 0 ≤ x then some (x.toUInt32, 1) else
  let x := x ^^^ (w.signed32 1 <<< 7)
  if x < 0 then some ((x ^^^ mask32 7).toUInt32, 2) else
  let x := x ^^^ (w.signed32 2 <<< 14)
  if 0 ≤ x then some ((x ^^^ mask32 7 ^^^ mask32 14).toUInt32, 3) else
  let x := x ^^^ (w.signed32 3 <<< 21)
  if x < 0 then some ((x ^^^ mask32 7 ^^^ mask32 14 ^^^ mask32 21).toUInt32, 4) else
  let y := w.signed32 4
  let x := x ^^^ (y <<< 28)
  let x := x ^^^ (mask32 7 ^^^ mask32 14 ^^^ mask32 21 ^^^ mask32 28)
  if 0 ≤ y then some (x.toUInt32, 5) else
  (endFrom w 5).map fun length => (x.toUInt32, length)

/-- Reads a varint of 64 bits. The first four bytes are gathered in 32 bits. Past the ninth byte
the sign is that byte's continuation bit, and the tenth byte supplies the highest bit. -/
def decodeWindow64 (w : Window) : Option (UInt64 × Nat) :=
  let y := w.signed32 0
  if 0 ≤ y then some (y.toInt64.toUInt64, 1) else
  let y := y ^^^ (w.signed32 1 <<< 7)
  if y < 0 then some ((y ^^^ mask32 7).toInt64.toUInt64, 2) else
  let y := y ^^^ (w.signed32 2 <<< 14)
  if 0 ≤ y then some ((y ^^^ mask32 7 ^^^ mask32 14).toInt64.toUInt64, 3) else
  let y := y ^^^ (w.signed32 3 <<< 21)
  if y < 0 then some ((y ^^^ mask32 7 ^^^ mask32 14 ^^^ mask32 21).toInt64.toUInt64, 4) else
  let x := y.toInt64 ^^^ (w.signed64 4 <<< 28)
  let m := mask64 7 ^^^ mask64 14 ^^^ mask64 21 ^^^ mask64 28
  if 0 ≤ x then some ((x ^^^ m).toUInt64, 5) else
  let x := x ^^^ (w.signed64 5 <<< 35)
  let m := m ^^^ mask64 35
  if x < 0 then some ((x ^^^ m).toUInt64, 6) else
  let x := x ^^^ (w.signed64 6 <<< 42)
  let m := m ^^^ mask64 42
  if 0 ≤ x then some ((x ^^^ m).toUInt64, 7) else
  let x := x ^^^ (w.signed64 7 <<< 49)
  let m := m ^^^ mask64 49
  if x < 0 then some ((x ^^^ m).toUInt64, 8) else
  let x := x ^^^ (w.signed64 8 <<< 56)
  let x := x ^^^ m ^^^ mask64 56
  if 0 ≤ x then some (x.toUInt64, 9) else
  let last := w.get 9
  if 0x80 ≤ last then none else
  some ((x.toUInt64 &&& ~~~((1 : UInt64) <<< 63)) ||| ((last &&& 1).toUInt64 <<< 63), 10)

end ProtoWire.Varint
