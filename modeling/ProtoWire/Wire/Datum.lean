import ProtoWire.Wire.Scalar

/-!
# Single values on the wire

A datum is written on its own, without a field around it, or in a run under one tag and length.
-/

namespace ProtoWire

def utf8Bytes (text : String) : Bytes :=
  text.toUTF8.data.toList

def utf8Text? (bytes : Bytes) : Option String :=
  String.fromUTF8? ⟨bytes.toArray⟩

def writeLength (length : Nat) : Bytes :=
  Varint.encode length.toUInt64

def writeBlob (bytes : Bytes) : Bytes :=
  writeLength bytes.length ++ bytes

def delimitedSize (length : Nat) : Nat :=
  Varint.encodedLength length.toUInt64 + length

/-- A value that is written on its own. -/
inductive Datum where
  | varint32 (value : UInt32)
  | varint64 (value : UInt64)
  | tag (value : UInt32)
  | scalar (kind : Scalar) (value : kind.Value)
  | enum (value : Int32)
  | text (value : String)
  | blob (value : Bytes)

namespace Datum

def write : Datum → Bytes
  | varint32 value => Varint.encode32 value
  | varint64 value => Varint.encode value
  | tag value => Varint.encode32 value
  | scalar kind value => kind.write value
  | enum value => writeInt32 value
  | text value => writeBlob (utf8Bytes value)
  | blob value => writeBlob value

def size : Datum → Nat
  | varint32 value => Varint.encodedLength32 value
  | varint64 value => Varint.encodedLength value
  | tag value => Varint.encodedLength32 value
  | scalar kind value => kind.size value
  | enum value => sizeInt32 value
  | text value => delimitedSize value.utf8ByteSize
  | blob value => delimitedSize value.length

end Datum

abbrev writeTag (tag : UInt32) : Bytes :=
  Varint.encode32 tag

abbrev tagSize (tag : UInt32) : Nat :=
  Varint.encodedLength32 tag

def totalSize (sizes : List Nat) : Nat :=
  sizes.foldr (· + ·) 0

/-- The size of the values of a packed run, without its tag and length. -/
def packedSize {α : Type} (size : α → Nat) (values : List α) : Nat :=
  totalSize (values.map size)

/-- Which length is put in front of a payload, of the one computed before and the payload itself. -/
class Lengths where
  choose : Nat → Bytes → Nat

/-- The length that was computed, before anything is written. -/
instance Lengths.computed : Lengths where
  choose size _ := size

/-- A packed run: tag, length and values. Nothing is written for no values. -/
def writePacked [Lengths] {α : Type} (tag : UInt32) (size : α → Nat) (write : α → Bytes)
    (values : List α) : Bytes :=
  let payload := values.flatMap write
  if values.isEmpty then []
  else writeTag tag ++ writeLength (Lengths.choose (packedSize size values) payload) ++ payload

end ProtoWire
