import ProtoWire.Varint.Basic

/-!
# Scalar kinds

* `Scalar.Value`: the values of a kind. A float is held as its bit pattern, so that every pattern,
  not-a-number or not, keeps its identity.
-/

namespace ProtoWire

/-- A numeric or Boolean kind of field. -/
inductive Scalar where
  | double
  | float
  | int64
  | uint64
  | int32
  | fixed64
  | fixed32
  | bool
  | uint32
  | sfixed32
  | sfixed64
  | sint32
  | sint64
deriving DecidableEq

namespace Scalar

/-- The values of a kind; a float is its bit pattern. -/
abbrev Value : Scalar → Type
  | double | uint64 | fixed64 => UInt64
  | float | uint32 | fixed32 => UInt32
  | int64 | sfixed64 | sint64 => Int64
  | int32 | sfixed32 | sint32 => Int32
  | bool => Bool

instance (kind : Scalar) : DecidableEq kind.Value :=
  match kind with
  | double | uint64 | fixed64 => inferInstanceAs (DecidableEq UInt64)
  | float | uint32 | fixed32 => inferInstanceAs (DecidableEq UInt32)
  | int64 | sfixed64 | sint64 => inferInstanceAs (DecidableEq Int64)
  | int32 | sfixed32 | sint32 => inferInstanceAs (DecidableEq Int32)
  | bool => inferInstanceAs (DecidableEq Bool)

def all : List Scalar :=
  [double, float, int64, uint64, int32, fixed64, fixed32, bool, uint32, sfixed32, sfixed64, sint32,
    sint64]

def name : Scalar → String
  | double => "double"
  | float => "float"
  | int64 => "int64"
  | uint64 => "uint64"
  | int32 => "int32"
  | fixed64 => "fixed64"
  | fixed32 => "fixed32"
  | bool => "bool"
  | uint32 => "uint32"
  | sfixed32 => "sfixed32"
  | sfixed64 => "sfixed64"
  | sint32 => "sint32"
  | sint64 => "sint64"

def zero : (kind : Scalar) → kind.Value
  | double | uint64 | fixed64 => (0 : UInt64)
  | float | uint32 | fixed32 => (0 : UInt32)
  | int64 | sfixed64 | sint64 => (0 : Int64)
  | int32 | sfixed32 | sint32 => (0 : Int32)
  | bool => false

/-- The number of bytes of a kind of fixed width; a varint has none. -/
def fixedSize : Scalar → Option Nat
  | double | fixed64 | sfixed64 => some fixed64Size
  | float | fixed32 | sfixed32 => some fixed32Size
  | int64 | uint64 | int32 | bool | uint32 | sint32 | sint64 => none

/-- The wire type of a single value. -/
def wireType : Scalar → WireType
  | double | fixed64 | sfixed64 => .i64
  | float | fixed32 | sfixed32 => .i32
  | int64 | uint64 | int32 | bool | uint32 | sint32 | sint64 => .varint

/-- Whether a kind holds floating-point numbers. -/
def isFloat : Scalar → Bool
  | double | float => true
  | _ => false

/-- The number of bytes a value takes in memory. -/
def storageSize : Scalar → Nat
  | double | uint64 | fixed64 | int64 | sfixed64 | sint64 => 8
  | float | uint32 | fixed32 | int32 | sfixed32 | sint32 => 4
  | bool => 1

end Scalar

/-! ### Bytes of a value -/

/-- Four bytes, lowest first. -/
def littleEndian32 (value : UInt32) : Bytes :=
  [value.toUInt8, (value >>> 8).toUInt8, (value >>> 16).toUInt8, (value >>> 24).toUInt8]

/-- Eight bytes, lowest first. -/
def littleEndian64 (value : UInt64) : Bytes :=
  littleEndian32 value.toUInt32 ++ littleEndian32 (value >>> 32).toUInt32

/-- A number of 32 bits as a varint; a negative one is sign extended and takes ten bytes. -/
def writeInt32 (value : Int32) : Bytes :=
  if 0 ≤ value then Varint.encode32 value.toUInt32 else Varint.encode value.toInt64.toUInt64

/-- The number of bytes `writeInt32` makes. -/
def sizeInt32 (value : Int32) : Nat :=
  if 0 ≤ value then Varint.encodedLength32 value.toUInt32 else maxVarintSize

namespace Scalar

/-- The bytes of a value, without tag. -/
def write : (kind : Scalar) → kind.Value → Bytes
  | double, value => littleEndian64 value
  | float, value => littleEndian32 value
  | int64, value => Varint.encode (Int64.toUInt64 value)
  | uint64, value => Varint.encode value
  | int32, value => writeInt32 value
  | fixed64, value => littleEndian64 value
  | fixed32, value => littleEndian32 value
  | bool, value => [Bool.toUInt8 value]
  | uint32, value => Varint.encode32 value
  | sfixed32, value => littleEndian32 (Int32.toUInt32 value)
  | sfixed64, value => littleEndian64 (Int64.toUInt64 value)
  | sint32, value => Varint.encode32 (ZigZag.encode32 value)
  | sint64, value => Varint.encode (ZigZag.encode64 value)

def size : (kind : Scalar) → kind.Value → Nat
  | double, _ | fixed64, _ | sfixed64, _ => fixed64Size
  | float, _ | fixed32, _ | sfixed32, _ => fixed32Size
  | int64, value => Varint.encodedLength (Int64.toUInt64 value)
  | uint64, value => Varint.encodedLength value
  | int32, value => sizeInt32 value
  | bool, _ => 1
  | uint32, value => Varint.encodedLength32 value
  | sint32, value => Varint.encodedLength32 (ZigZag.encode32 value)
  | sint64, value => Varint.encodedLength (ZigZag.encode64 value)

end Scalar

end ProtoWire
