import ProtoWire.Varint.Decode
import ProtoWire.Wire.Datum

/-!
# The reader

A reader is a cursor in a buffer. The limit is where the message being read ends; a nested message
narrows it and restores it afterwards. Reading fails with a `DecodeError`, and a failed read keeps
what it had changed by then: `Read` is a state monad below its failures.

* `Reader`, `Reader.remaining`: the cursor and the bytes it may still read.
* `Read`: an action on a reader.
* `readTag`, `readVarint32`, `readVarint64`, `readScalar`, `readText`, …: the reads.
* `pushLimit`, `popLimit`, `enterNested`, `exitNested`: what surrounds a nested message.
-/

namespace ProtoWire

structure Reader where
  /-- The whole buffer. -/
  data : Bytes
  /-- The place of the next byte. -/
  pos : Nat
  /-- The place where the current message ends. -/
  limit : Nat
  /-- The latest tag read, or 0 at the end of a message. -/
  lastTag : UInt32
  /-- How many messages and groups the cursor is inside of. -/
  depth : UInt32
  /-- The depth that must not be passed. -/
  recursionLimit : UInt32
deriving DecidableEq

/-- The nesting allowed unless another limit is set. -/
def defaultRecursionLimit : UInt32 := 100

abbrev Read := EStateM DecodeError Reader

namespace Reader

def ofBytes (data : Bytes) : Reader :=
  { data, pos := 0, limit := data.length, lastTag := 0, depth := 0,
    recursionLimit := defaultRecursionLimit }

def bytesLeft (r : Reader) : Nat :=
  r.limit - r.pos

def atEnd (r : Reader) : Bool :=
  r.pos == r.limit

def remaining (r : Reader) : Bytes :=
  (r.data.drop r.pos).take (r.limit - r.pos)

def advance (r : Reader) (n : Nat) : Reader :=
  { r with pos := r.pos + n }

/-- The reader at an earlier place. Going past the limit is refused. -/
def rewind (r : Reader) (position : Nat) : Except Fault Reader :=
  if position ≤ r.limit then .ok { r with pos := position }
  else .error (.pastLimit position r.limit)

/-- The number of varints before the limit, if they are all whole: bytes without continuation
bit. -/
def countPackedVarints (r : Reader) : Nat :=
  r.remaining.countP (· < 0x80)

end Reader

/-! ### Varints and tags -/

/-- Reads a varint and keeps its low 32 bits. One byte is read at once, ten bytes at hand are read
as a window, and less is read byte by byte. -/
def readVarint32 : Read UInt32 := fun r =>
  let bytes := r.remaining
  let windowed : EStateM.Result DecodeError Reader UInt32 :=
    match Varint.Window.ofBytes? bytes with
    | some window =>
      match Varint.decodeWindow32 window with
      | some (value, length) => .ok value (r.advance length)
      | none => .error .malformedVarint r
    | none =>
      match Varint.decode bytes with
      | .ok (value, length) => .ok value.toUInt32 (r.advance length)
      | .error e => .error e r
  match bytes with
  | first :: _ => if first < 0x80 then .ok first.toUInt32 (r.advance 1) else windowed
  | [] => windowed

def readVarint64 : Read UInt64 := fun r =>
  let bytes := r.remaining
  match Varint.Window.ofBytes? bytes with
  | some window =>
    match Varint.decodeWindow64 window with
    | some (value, length) => .ok value (r.advance length)
    | none => .error .malformedVarint r
  | none =>
    match Varint.decode bytes with
    | .ok (value, length) => .ok value (r.advance length)
    | .error e => .error e r

/-- Reads the next tag, or 0 at the limit. -/
def readTag : Read UInt32 := do
  if (← get).atEnd then
    modify fun r => { r with lastTag := 0 }
    return 0
  let tag ← readVarint32
  if Tag.number tag = 0 then throw .invalidTag
  modify fun r => { r with lastTag := tag }
  return tag

/-- Fails unless the latest tag is the given one. A nested message must end at its limit (0) and a
group with its own end tag. -/
def checkLastTag (tag : UInt32) : Read Unit := do
  if (← get).lastTag ≠ tag then throw .invalidEndTag

/-! ### Bytes and scalars -/

def readRaw (n : Nat) : Read Bytes := do
  let r ← get
  if r.bytesLeft < n then throw .truncated
  set (r.advance n)
  return (r.data.drop r.pos).take n

def skipRaw (n : Nat) : Read Unit := do
  let _ ← readRaw n

/-- The number whose bytes, lowest first, are given. -/
def ofLittleEndian (bytes : Bytes) : Nat :=
  bytes.foldr (fun byte rest => byte.toNat + 256 * rest) 0

/-- Reads a number of exactly so many bytes, lowest first. -/
def readFixed (n : Nat) : Read Nat := do
  let r ← get
  let chunk := r.remaining.take n
  if chunk.length < n then throw .truncated
  set (r.advance n)
  return ofLittleEndian chunk

def readFixed32 : Read UInt32 :=
  Nat.toUInt32 <$> readFixed fixed32Size

def readFixed64 : Read UInt64 :=
  Nat.toUInt64 <$> readFixed fixed64Size

/-- Reads a signed number of 32 bits; higher bits are dropped. -/
def readInt32 : Read Int32 :=
  UInt32.toInt32 <$> readVarint32

def readScalar : (kind : Scalar) → Read kind.Value
  | .double => readFixed64
  | .float => readFixed32
  | .int64 => UInt64.toInt64 <$> readVarint64
  | .uint64 => readVarint64
  | .int32 => readInt32
  | .fixed64 => readFixed64
  | .fixed32 => readFixed32
  | .bool => (fun value => value != 0) <$> readVarint64
  | .uint32 => readVarint32
  | .sfixed32 => UInt32.toInt32 <$> readFixed32
  | .sfixed64 => UInt64.toInt64 <$> readFixed64
  | .sint32 => ZigZag.decode32 <$> readVarint32
  | .sint64 => ZigZag.decode64 <$> readVarint64

/-! ### Payloads with a length -/

/-- Reads a length. A value with the sign bit of 32 bits is refused. -/
def readLength : Read Nat := do
  let size ← readVarint32
  if size.toInt32 < 0 then throw .negativeSize
  return size.toNat

/-- Reads a length and so many bytes. -/
def readBlob : Read Bytes := do
  readRaw (← readLength)

def decodeText (bytes : Bytes) : Read String :=
  match utf8Text? bytes with
  | some text => return text
  | none => throw .invalidUtf8

/-- Reads a length and so many bytes of text. -/
def readText : Read String := do
  decodeText (← readBlob)

/-! ### Limits and nesting -/

/-- Narrows the limit to so many bytes from here, and answers the limit before. -/
def pushLimit (n : Nat) : Read Nat := do
  let r ← get
  if r.limit < r.pos + n then throw .truncated
  set { r with limit := r.pos + n }
  return r.limit

def popLimit (limit : Nat) : Read Unit :=
  modify fun r => { r with limit }

/-- Goes one level deeper, if the recursion limit allows it. -/
def enterNested : Read Unit := do
  let r ← get
  if r.recursionLimit ≤ r.depth then throw .recursionLimitExceeded
  set { r with depth := r.depth + 1 }

/-- Comes back one level. -/
def exitNested : Read Unit :=
  modify fun r => { r with depth := r.depth - 1 }

end ProtoWire
