import ProtoWire.Wire.Tag

/-!
# Writing varints

A varint holds a number seven bits to the byte, lowest bits first; every byte but the last has its
high bit set.

* `Varint.encode`: the bytes of a number, found by shifting it down.
* `Varint.encodedLength`: how many there are, found from the number of significant bits alone.
* `ZigZag`: signed numbers as unsigned ones, so that small magnitudes stay short.
-/

namespace ProtoWire

abbrev Bytes := List UInt8

namespace Varint

def encode (value : UInt64) : Bytes :=
  if value < 0x80 then [value.toUInt8]
  else (value.toUInt8 ||| 0x80) :: encode (value >>> 7)
termination_by value.toNat
decreasing_by
  rename_i h
  have : ¬ value.toNat < 128 := by simpa [UInt64.lt_iff_toNat_lt] using h
  have h7 : (value >>> 7).toNat = value.toNat / 128 := by
    simp [UInt64.toNat_shiftRight, Nat.shiftRight_eq_div_pow]
  omega

/-- The bytes of a varint that holds a 32-bit number. -/
def encode32 (value : UInt32) : Bytes :=
  encode value.toUInt64

/-- The position of the highest set bit, counted from one; zero has none. -/
def bitLength (value : UInt64) : Nat :=
  if value = 0 then 0 else value.toNat.log2 + 1

/-- The number of bytes `encode` makes. For one to 64 bits, `⌈bits / 7⌉ = (bits * 9 + 64) / 64`;
zero takes a byte as well. -/
def encodedLength (value : UInt64) : Nat :=
  (bitLength (value ||| 1) * 9 + 64) / 64

/-- The number of bytes `encode32` makes. -/
def encodedLength32 (value : UInt32) : Nat :=
  encodedLength value.toUInt64

end Varint

namespace ZigZag

/-- Sends `0, -1, 1, -2, …` to `0, 1, 2, 3, …`. -/
def encode32 (value : Int32) : UInt32 :=
  ((value <<< 1) ^^^ (value >>> 31)).toUInt32

/-- The number that `encode32` sends to `value`. -/
def decode32 (value : UInt32) : Int32 :=
  (value >>> 1).toInt32 ^^^ -(value &&& 1).toInt32

/-- Sends `0, -1, 1, -2, …` to `0, 1, 2, 3, …`. -/
def encode64 (value : Int64) : UInt64 :=
  ((value <<< 1) ^^^ (value >>> 63)).toUInt64

/-- The number that `encode64` sends to `value`. -/
def decode64 (value : UInt64) : Int64 :=
  (value >>> 1).toInt64 ^^^ -(value &&& 1).toInt64

end ZigZag

end ProtoWire
