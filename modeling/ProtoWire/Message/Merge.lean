import ProtoWire.Message.Basic
import ProtoWire.Wire.Merge
import ProtoWire.Wire.Skip

/-!
# Merging encoded fields into a message

Merging reads records up to the limit, or to an end-group tag, and stores them. A failure keeps what
was stored by then, in the message and in the reader.
-/

namespace ProtoWire

namespace Merge

variable {σ τ α : Type}

/-- Runs an action on a container inside the target. -/
def edit (container : Repeated τ) (store : Repeated τ → σ → σ) (x : Repeated.Edit τ α) :
    Merge σ α := fun s =>
  match x container with
  | .ok a c => .ok a { s with target := store c s.target }
  | .error e c => .error e { s with target := store c s.target }

end Merge

/-! ### Slots -/

/-- The memory an element of text or bytes takes in a container. -/
def textSize : Nat := 24

@[inherit_doc textSize]
def blobSize : Nat := 32

/-- The memory a message is counted with in a container, whatever its type: the least that one with a
field takes. Larger messages fill the memory before their container is full here. -/
def messageSize : Nat := 8

namespace Slot

/-- The room left in a container; a singular slot has none. -/
def remainingCapacity {M : Type} : Slot M → Nat
  | scalar _ _ | text _ | blob _ | sub _ => 0
  | scalars _ c => c.remainingCapacity
  | texts c => c.remainingCapacity
  | blobs c => c.remainingCapacity
  | subs c => c.remainingCapacity

/-- Makes room in a container. -/
def reserve (n : Nat) : Merge (Slot Message) Unit := do
  match ← Merge.target with
  | .scalars kind c =>
    Merge.edit c (fun c _ => .scalars kind c) (Repeated.reserve kind.storageSize n)
  | .texts c => Merge.edit c (fun c _ => .texts c) (Repeated.reserve textSize n)
  | .blobs c => Merge.edit c (fun c _ => .blobs c) (Repeated.reserve blobSize n)
  | .subs c => Merge.edit c (fun c _ => .subs c) (Repeated.reserve messageSize n)
  | .scalar _ _ | .text _ | .blob _ | .sub _ => return

/-- Runs an action on the latest value of a container. -/
def atLast {α ε : Type} (default : α) (store : Repeated α → Slot Message) (c : Repeated α)
    (x : EStateM ε (Merging α) Unit) : EStateM ε (Merging (Slot Message)) Unit :=
  Merge.within (c.values.getLast?.getD default)
    (fun value _ => store (c.modifyLast fun _ => value)) x

end Slot

/-- How merging makes room for values that it has counted. Another way may look at what merging does
from there, as long as it does the same. -/
class Watch where
  /-- Makes room for so many values. -/
  reserve : Nat → Merge (Slot Message) Unit
  /-- Reads a packed run, for which room was made for so many values. -/
  packed : Nat → Merge (Slot Message) Unit → Merge (Slot Message) Unit

/-- Room is made, and nothing else is done. -/
instance Watch.plain : Watch where
  reserve := Slot.reserve
  packed _ values := values

abbrev Nested := TypeId → Merge Message Unit

def Field.readNested (f : Field) (nested : Nested) : Merge Message Unit :=
  match f.element with
  | .message type => readMessage (nested type)
  | .group type => readGroup f.number (nested type)
  | _ => return

/-- The message type of an element; others have a type without fields. -/
def Element.blank (S : Schema) : Element → Message
  | message type | group type => S.blank type
  | _ => { presence := [], cases := [], slots := [] }

def Element.clearMessage (S : Schema) (element : Element) (m : Message) : Message :=
  match element with
  | message type | group type => m.clear S (S.layout type)
  | _ => m

namespace Field

variable [Watch] (S : Schema) (nested : Nested)

/-- Reads a singular value into its slot. -/
def readSingular (f : Field) : Merge (Slot Message) Unit := do
  match ← Merge.target with
  | .scalar kind _ =>
    let value ← Merge.read (readScalar kind)
    Merge.update fun _ => .scalar kind value
  | .text value => Merge.within value (fun value _ => .text value) readTextInto
  | .blob value => Merge.within value (fun value _ => .blob value) readBlobInto
  | .sub value =>
    Merge.within (value.getD (f.element.blank S)) (fun m _ => .sub (some m)) (f.readNested nested)
  | .scalars _ _ | .texts _ | .blobs _ | .subs _ => return

/-- Reads a value and appends it to its slot. All but scalars are appended first and then read in
place. -/
def readElement (f : Field) : Merge (Slot Message) Unit := do
  match ← Merge.target with
  | .scalars kind c =>
    let value ← Merge.read (readScalar kind)
    Merge.edit c (fun c _ => .scalars kind c) (Repeated.add kind.storageSize value)
  | .texts c =>
    Merge.edit c (fun c _ => .texts c) (Repeated.pushRecycled textSize "" fun _ => "")
    if let .texts c ← Merge.target then Slot.atLast "" .texts c readTextInto
  | .blobs c =>
    Merge.edit c (fun c _ => .blobs c) (Repeated.pushRecycled blobSize [] fun _ => [])
    if let .blobs c ← Merge.target then Slot.atLast [] .blobs c readBlobInto
  | .subs c =>
    Merge.edit c (fun c _ => .subs c)
      (Repeated.pushRecycled messageSize (f.element.blank S) (f.element.clearMessage S))
    if let .subs c ← Merge.target then
      Slot.atLast (f.element.blank S) .subs c (f.readNested nested)
  | .scalar _ _ | .text _ | .blob _ | .sub _ => return

/-- Reads records with one tag in a row, less than `fuel` of them, and answers the next tag. A
container without room first makes room for all records of the field that are left. -/
def readRun (f : Field) (tag : UInt32) : (fuel : Nat) → Merge (Slot Message) UInt32
  | 0 => throw (.decode .truncated)
  | fuel + 1 => do
    if (← Merge.target).remainingCapacity = 0 then
      let count ← Merge.read (repeatedLength tag)
      Watch.reserve count
    f.readElement S nested
    let next ← Merge.read readTag
    if next = tag then readRun f tag fuel else return next

/-- Reads values up to the limit, less than `fuel` of them. -/
def readToLimit (f : Field) : (fuel : Nat) → Merge (Slot Message) Unit
  | 0 => throw (.decode .truncated)
  | fuel + 1 => do
    if (← Merge.read get).atEnd then return
    f.readElement S nested
    readToLimit f fuel

/-- The number of values to make room for, before a packed run of so many bytes is read. -/
def packedCount (f : Field) (length : Nat) (r : Reader) : Nat :=
  match f.element with
  | .scalar kind _ =>
    match kind.fixedSize with
    | some size => length / size
    | none => r.countPackedVarints
  | _ => r.countPackedVarints

def readPacked (f : Field) : Merge (Slot Message) Unit := do
  let length ← Merge.read readLength
  let limit ← Merge.read (pushLimit length)
  let r ← Merge.read get
  let count := f.packedCount length r
  Watch.reserve count
  Watch.packed count (f.readToLimit S nested (r.bytesLeft + 1))
  Merge.read (popLimit limit)

end Field

/-! ### Records -/

def atSlot {α : Type} (index : Nat) (x : Merge (Slot Message) α) : Merge Message α := do
  match (← Merge.target).slots[index]? with
  | some slot => Merge.within slot (fun slot m => m.setSlot index slot) x
  | none => throw .indexOutOfBounds

abbrev PlacedField := Field × Nat

namespace PlacedField

variable [Watch] (S : Schema) (nested : Nested)

/-- Reads the value of a singular field and stores it. A number that an enum without default does
not declare leaves the field alone. -/
def decodeSingular (L : Layout) (p : PlacedField) : Merge Message Unit := do
  match p.1.element with
  | .enum declared none =>
    let value ← Merge.read readInt32
    if declared.any (·.2 == value) then
      Merge.update fun m =>
        ((m.prepare S L p.1).setSlot p.2 (.scalar .int32 value)).markPresent p.1
  | _ =>
    Merge.update (Message.prepare S L p.1)
    atSlot p.2 (p.1.readSingular S nested)
    Merge.update (Message.markPresent p.1)

/-- Reads the records in a row that carry a tag, and answers the next tag. -/
def decodeRun (p : PlacedField) (tag : UInt32) : Merge Message UInt32 := do
  let r ← Merge.read get
  atSlot p.2 (p.1.readRun S nested tag (r.bytesLeft + 1))

/-- Reads a packed run, and answers the next tag. -/
def decodePacked (p : PlacedField) : Merge Message UInt32 := do
  atSlot p.2 (p.1.readPacked S nested)
  Merge.read readTag

/-- Reads the payload of a record with the field's primary tag, and answers the next tag. -/
def decodePrimary (L : Layout) (p : PlacedField) : Merge Message UInt32 := do
  match p.1.placement with
  | .repeated true => p.decodePacked S nested
  | .repeated false => p.decodeRun S nested p.1.primaryTag
  | .singular _ | .member _ _ =>
    p.decodeSingular S nested L
    Merge.read readTag

/-- Reads the payload of a record with the field's alternate tag, and answers the next tag. -/
def decodeAlternate (p : PlacedField) (tag : UInt32) : Merge Message UInt32 :=
  match p.1.placement with
  | .repeated true => p.decodeRun S nested tag
  | .repeated false | .singular _ | .member _ _ => p.decodePacked S nested

end PlacedField

/-! ### Loops -/

section Loops

variable [Watch] (S : Schema) (nested : Nested) (L : Layout)

/-- What follows a tag that is no field's primary tag: the next tag, or nothing at the end of the
message or of the enclosing group. -/
def mergeOther (fields : List PlacedField) (tag : UInt32) :
    Merge Message (Option UInt32) := do
  match fields.find? fun p => p.1.alternateTag? == some tag with
  | some p => some <$> p.decodeAlternate S nested tag
  | none =>
    if tag = 0 then return none
    if ← Merge.read (skipField tag) then some <$> Merge.read readTag else return none

/-- Merges from a tag on, one field at a time, through less than `fuel` tags. -/
def mergeDispatch (fields : List PlacedField) : (fuel : Nat) → UInt32 → Merge Message Unit
  | 0, _ => throw (.decode .truncated)
  | fuel + 1, tag => do
    match fields.find? fun p => p.1.primaryTag == tag with
    | some p =>
      let next ← p.decodePrimary S nested L
      mergeDispatch fields fuel next
    | none =>
      if let some next ← mergeOther S nested fields tag then
        mergeDispatch fields fuel next

/-- Reads a field and those that follow it, for as long as the next tag is the one expected. -/
def decodeChain (p : PlacedField) : List PlacedField → Merge Message UInt32
  | [] => p.decodePrimary S nested L
  | expected :: rest => do
    let next ← p.decodePrimary S nested L
    if next = expected.1.primaryTag then decodeChain expected rest else return next

/-- Merges from a tag on, expecting fields in order, through less than `fuel` jumps. -/
def mergeChain (fields : List PlacedField) : (fuel : Nat) → UInt32 → Merge Message Unit
  | 0, _ => throw (.decode .truncated)
  | fuel + 1, tag => do
    match fields.dropWhile fun p => p.1.primaryTag != tag with
    | p :: rest =>
      let next ← decodeChain S nested L p rest
      mergeChain fields fuel next
    | [] =>
      if let some next ← mergeOther S nested fields tag then
        mergeChain fields fuel next

def Layout.placed (L : Layout) (order : FieldOrder) : List PlacedField :=
  order.arrange (fun p => p.1.number) L.fields.zipIdx

def mergeFields (S : Schema) (order : FieldOrder) (nested : Nested) (L : Layout) :
    Merge Message Unit := do
  let fuel := (← Merge.read get).bytesLeft + 2
  let tag ← Merge.read readTag
  match order with
  | .unordered => mergeDispatch S nested L (L.placed order) fuel tag
  | .declaration | .ascending => mergeChain S nested L (L.placed order) fuel tag

/-- What `mergeMessage` does, with less than `fuel` messages inside each other. -/
def mergeWithin (S : Schema) (order : FieldOrder) : (fuel : Nat) → Nested
  | 0, _ => throw (.decode .truncated)
  | fuel + 1, type => mergeFields S order (mergeWithin S order fuel) (S.layout type)

/-- Merges records up to the limit, or to an end-group tag. Each nested message takes a byte at
least, hence the fuel. -/
def mergeMessage (S : Schema) (order : FieldOrder) (type : TypeId) : Merge Message Unit := do
  mergeWithin S order ((← Merge.read get).bytesLeft + 1) type

end Loops

/-- Merges a whole encoded message, with a recursion limit, and answers the message left behind. -/
def Message.mergeBytes (S : Schema) (order : FieldOrder) (type : TypeId) (limit : UInt32)
    (data : Bytes) (m : Message) : Except Fault Unit × Message :=
  let start : Merging Message :=
    { target := m, reader := { Reader.ofBytes data with recursionLimit := limit } }
  match (do mergeMessage S order type; Merge.read (checkLastTag 0)) start with
  | .ok () s => (.ok (), s.target)
  | .error e s => (.error e, s.target)

def Message.parse (S : Schema) (order : FieldOrder) (type : TypeId) (data : Bytes) :
    Except Fault Message :=
  match (S.blank type).mergeBytes S order type defaultRecursionLimit data with
  | (.ok (), m) => .ok m
  | (.error e, _) => .error e

end ProtoWire
