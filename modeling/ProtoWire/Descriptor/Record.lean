import ProtoWire.Wire.Merge
import ProtoWire.Wire.Skip

/-!
# Records

A schema travels as messages of a few fixed types: files, messages, fields, enums, and what a code
generator is asked and answers. A record is a message of such a type with its fields in a row.

* `Cell`, `Record`: what is stored. A text, number or message that is absent differs from one that
  is empty or zero.
* `Record.size`, `Record.encode`: the number of bytes, and the bytes. Fields are written in the
  order of the type.
* `mergeRecord`, `Record.mergeBytes`, `Record.parse`: reading. What a type does not list, or lists
  with another wire type, is skipped.
-/

namespace ProtoWire

/-- The types a schema is described with. -/
inductive RecordType where
  | fileSet
  | file
  | message
  | field
  | oneof
  | enum
  | enumValue
  | messageOptions
  | fieldOptions
  | request
  | response
  | responseFile
deriving DecidableEq

def RecordType.name : RecordType → String
  | fileSet => "FileDescriptorSet"
  | file => "FileDescriptorProto"
  | message => "DescriptorProto"
  | field => "FieldDescriptorProto"
  | oneof => "OneofDescriptorProto"
  | enum => "EnumDescriptorProto"
  | enumValue => "EnumValueDescriptorProto"
  | messageOptions => "MessageOptions"
  | fieldOptions => "FieldOptions"
  | request => "CodeGeneratorRequest"
  | response => "CodeGeneratorResponse"
  | responseFile => "CodeGeneratorResponseFile"

def RecordType.all : List RecordType :=
  [fileSet, file, message, field, oneof, enum, enumValue, messageOptions, fieldOptions, request,
    response, responseFile]

def RecordType.ofName? (name : String) : Option RecordType :=
  all.find? fun type => type.name == name

/-- What one field of a record holds. -/
inductive CellKind where
  | text
  | int32
  | bool
  | uint64
  | texts
  | sub (type : RecordType)
  | subs (type : RecordType)
deriving DecidableEq

/-- Numbers travel as varints, and all else with a length. -/
def CellKind.wireType : CellKind → WireType
  | int32 | bool | uint64 => .varint
  | text | texts | sub _ | subs _ => .len

/-- A field of a record type. -/
structure RecordField where
  name : String
  number : UInt32
  kind : CellKind

def RecordField.tag (f : RecordField) : UInt32 :=
  Tag.make f.number f.kind.wireType

/-- The fields of a type, in the order they are written. -/
def RecordType.fields : RecordType → List RecordField
  | fileSet => [⟨"file", 1, .subs .file⟩]
  | file =>
    [⟨"name", 1, .text⟩, ⟨"package", 2, .text⟩, ⟨"dependency", 3, .texts⟩,
      ⟨"message_type", 4, .subs .message⟩, ⟨"enum_type", 5, .subs .enum⟩, ⟨"syntax", 12, .text⟩]
  | message =>
    [⟨"name", 1, .text⟩, ⟨"field", 2, .subs .field⟩, ⟨"nested_type", 3, .subs .message⟩,
      ⟨"enum_type", 4, .subs .enum⟩, ⟨"options", 7, .sub .messageOptions⟩,
      ⟨"oneof_decl", 8, .subs .oneof⟩]
  | field =>
    [⟨"name", 1, .text⟩, ⟨"number", 3, .int32⟩, ⟨"label", 4, .int32⟩, ⟨"type", 5, .int32⟩,
      ⟨"type_name", 6, .text⟩, ⟨"default_value", 7, .text⟩, ⟨"options", 8, .sub .fieldOptions⟩,
      ⟨"oneof_index", 9, .int32⟩, ⟨"json_name", 10, .text⟩, ⟨"proto3_optional", 17, .bool⟩]
  | oneof => [⟨"name", 1, .text⟩]
  | enum => [⟨"name", 1, .text⟩, ⟨"value", 2, .subs .enumValue⟩]
  | enumValue => [⟨"name", 1, .text⟩, ⟨"number", 2, .int32⟩]
  | messageOptions => [⟨"map_entry", 7, .bool⟩]
  | fieldOptions => [⟨"packed", 2, .bool⟩]
  | request =>
    [⟨"file_to_generate", 1, .texts⟩, ⟨"parameter", 2, .text⟩, ⟨"proto_file", 15, .subs .file⟩]
  | response =>
    [⟨"error", 1, .text⟩, ⟨"supported_features", 2, .uint64⟩, ⟨"file", 15, .subs .responseFile⟩]
  | responseFile =>
    [⟨"name", 1, .text⟩, ⟨"insertion_point", 2, .text⟩, ⟨"content", 15, .text⟩]

/-- What is stored of a field, with records of type `R` inside. -/
inductive Cell (R : Type) where
  | text (value : Option String)
  | int32 (value : Option Int32)
  | bool (value : Option Bool)
  | uint64 (value : Option UInt64)
  | texts (values : List String)
  | sub (value : Option R)
  | subs (values : List R)

/-- A record: a cell for each field of its type. -/
structure Record where
  cells : List (Cell Record)

def CellKind.blank : CellKind → Cell Record
  | text => .text none
  | int32 => .int32 none
  | bool => .bool none
  | uint64 => .uint64 none
  | texts => .texts []
  | sub _ => .sub none
  | subs _ => .subs []

def RecordType.blank (type : RecordType) : Record :=
  { cells := type.fields.map fun f => f.kind.blank }

/-! ### Sizes and bytes -/

mutual

def Record.size (type : RecordType) : Record → Nat
  | ⟨cells⟩ => sizeCells type.fields cells

def sizeCells : List RecordField → List (Cell Record) → Nat
  | f :: fields, cell :: cells => sizeCell f cell + sizeCells fields cells
  | _, _ => 0

/-- The number of bytes of a field; an absent one has none. -/
def sizeCell (f : RecordField) : Cell Record → Nat
  | .text (some value) => tagSize f.tag + delimitedSize value.utf8ByteSize
  | .int32 (some value) => tagSize f.tag + sizeInt32 value
  | .bool (some _) => tagSize f.tag + 1
  | .uint64 (some value) => tagSize f.tag + Varint.encodedLength value
  | .texts values =>
    totalSize (values.map fun value => tagSize f.tag + delimitedSize value.utf8ByteSize)
  | .sub (some r) =>
    match f.kind with
    | .sub type | .subs type => tagSize f.tag + delimitedSize (r.size type)
    | _ => 0
  | .subs values =>
    match f.kind with
    | .sub type | .subs type => sizeRecords f type values
    | _ => 0
  | .text none | .int32 none | .bool none | .uint64 none | .sub none => 0

/-- The number of bytes of records under the tag of a field. -/
def sizeRecords (f : RecordField) (type : RecordType) : List Record → Nat
  | [] => 0
  | r :: rs => tagSize f.tag + delimitedSize (r.size type) + sizeRecords f type rs

end

mutual

def Record.encode (type : RecordType) : Record → Bytes
  | ⟨cells⟩ => encodeCells type.fields cells

def encodeCells : List RecordField → List (Cell Record) → Bytes
  | f :: fields, cell :: cells => encodeCell f cell ++ encodeCells fields cells
  | _, _ => []

/-- The bytes of a field; an absent one has none. -/
def encodeCell (f : RecordField) : Cell Record → Bytes
  | .text (some value) => writeTag f.tag ++ writeBlob (utf8Bytes value)
  | .int32 (some value) => writeTag f.tag ++ writeInt32 value
  | .bool (some value) => writeTag f.tag ++ [value.toUInt8]
  | .uint64 (some value) => writeTag f.tag ++ Varint.encode value
  | .texts values => values.flatMap fun value => writeTag f.tag ++ writeBlob (utf8Bytes value)
  | .sub (some r) =>
    match f.kind with
    | .sub type | .subs type => writeTag f.tag ++ writeLength (r.size type) ++ r.encode type
    | _ => []
  | .subs values =>
    match f.kind with
    | .sub type | .subs type => encodeRecords f type values
    | _ => []
  | .text none | .int32 none | .bool none | .uint64 none | .sub none => []

def encodeRecords (f : RecordField) (type : RecordType) : List Record → Bytes
  | [] => []
  | r :: rs =>
    writeTag f.tag ++ writeLength (r.size type) ++ r.encode type ++ encodeRecords f type rs

end

/-! ### Reading -/

/-- Reads the payload of a field into its cell. A message goes on from what is stored; one of many
is appended once it is read. -/
def mergeCell (nested : RecordType → Merge Record Unit) : CellKind → Merge (Cell Record) Unit
  | .text => do
    let value ← Merge.read readText
    Merge.update fun _ => .text (some value)
  | .int32 => do
    let value ← Merge.read readInt32
    Merge.update fun _ => .int32 (some value)
  | .bool => do
    let value ← Merge.read (readScalar .bool)
    Merge.update fun _ => .bool (some value)
  | .uint64 => do
    let value ← Merge.read readVarint64
    Merge.update fun _ => .uint64 (some value)
  | .texts => do
    let value ← Merge.read readText
    Merge.update fun
      | .texts values => .texts (values ++ [value])
      | cell => cell
  | .sub type => do
    let stored := match ← Merge.target with
      | .sub (some r) => r
      | _ => type.blank
    Merge.within stored (fun r _ => .sub (some r)) (readMessage (nested type))
  | .subs type => do
    let r ← Merge.apart type.blank (readMessage (nested type))
    Merge.update fun
      | .subs values => .subs (values ++ [r])
      | cell => cell

/-- Runs an action on the cell at an index. -/
def atCell (index : Nat) (x : Merge (Cell Record) Unit) : Merge Record Unit := do
  match (← Merge.target).cells[index]? with
  | some cell => Merge.within cell (fun cell r => { r with cells := r.cells.set index cell }) x
  | none => throw .indexOutOfBounds

/-- Merges the fields of a type, less than `fuel` of them. -/
def mergeCells (nested : RecordType → Merge Record Unit) (fields : List RecordField) :
    (fuel : Nat) → Merge Record Unit
  | 0 => throw (.decode .truncated)
  | fuel + 1 => do
    let tag ← Merge.read readTag
    if tag = 0 then return
    match Tag.wireType tag with
    | .error e => throw (.decode e)
    | .ok wireType =>
      match fields.zipIdx.find? fun (f, _) =>
          f.number == Tag.number tag && f.kind.wireType == wireType with
      | some (f, index) =>
        atCell index (mergeCell nested f.kind)
        mergeCells nested fields fuel
      | none =>
        if ← Merge.read (skipField tag) then mergeCells nested fields fuel

/-- What `mergeRecord` does, with less than `fuel` records inside each other. -/
def mergeRecordWithin : (fuel : Nat) → RecordType → Merge Record Unit
  | 0, _ => throw (.decode .truncated)
  | fuel + 1, type => do
    mergeCells (mergeRecordWithin fuel) type.fields ((← Merge.read get).bytesLeft + 1)

/-- Merges fields up to the limit, or to an end-group tag. Each nested record takes a byte at
least, hence the fuel. -/
def mergeRecord (type : RecordType) : Merge Record Unit := do
  mergeRecordWithin ((← Merge.read get).bytesLeft + 1) type

/-- Merges a whole encoded record, and answers the record left behind. -/
def Record.mergeBytes (type : RecordType) (data : Bytes) (r : Record) :
    Except Fault Unit × Record :=
  match (do mergeRecord type; Merge.read (checkLastTag 0))
      { target := r, reader := Reader.ofBytes data } with
  | .ok () s => (.ok (), s.target)
  | .error e s => (.error e, s.target)

def Record.parse (type : RecordType) (data : Bytes) : Except Fault Record :=
  match type.blank.mergeBytes type data with
  | (.ok (), r) => .ok r
  | (.error e, _) => .error e

end ProtoWire
