import ProtoWire.Wire.Error

/-!
# Tags

A record on the wire starts with a tag, `number * 8 + wire type`, held in 32 bits. The wire type
says how far the payload reaches.
-/

namespace ProtoWire

/-- The shape of a record's payload. -/
inductive WireType where
  | varint
  | i64
  | len
  | startGroup
  | endGroup
  | i32
deriving DecidableEq

namespace WireType

/-- The three bits that stand for a wire type in a tag. -/
def raw : WireType → UInt8
  | varint => 0
  | i64 => 1
  | len => 2
  | startGroup => 3
  | endGroup => 4
  | i32 => 5

/-- The wire type with the given raw value; 6 and above stand for none. -/
def ofRaw (value : UInt8) : Except DecodeError WireType :=
  if value = 0 then .ok varint
  else if value = 1 then .ok i64
  else if value = 2 then .ok len
  else if value = 3 then .ok startGroup
  else if value = 4 then .ok endGroup
  else if value = 5 then .ok i32
  else .error (.invalidWireType value)

/-- A raw value is read back as the wire type it was made from. -/
@[simp] theorem ofRaw_raw (t : WireType) : ofRaw t.raw = .ok t := by
  cases t <;> rfl

end WireType

/-- The size of a `fixed32`, `sfixed32` or `float` payload. -/
abbrev fixed32Size : Nat := 4

/-- The size of a `fixed64`, `sfixed64` or `double` payload. -/
abbrev fixed64Size : Nat := 8

/-- The largest number of bytes a varint takes. -/
abbrev maxVarintSize : Nat := 10

namespace Tag

/-- The tag of a field number and a wire type. Bits of the number past the 29th are dropped. -/
def make (number : UInt32) (type : WireType) : UInt32 :=
  (number <<< 3) ||| type.raw.toUInt32

def number (tag : UInt32) : UInt32 :=
  tag >>> 3

/-- The wire type of a tag, if its three low bits stand for one. -/
def wireType (tag : UInt32) : Except DecodeError WireType :=
  WireType.ofRaw (tag &&& 7).toUInt8

end Tag

end ProtoWire
