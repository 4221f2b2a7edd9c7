import ProtoWire.Descriptor.Record
import ProtoWire.Field.Strategy

/-!
# Declarations

The records of a schema as structures with named fields.

* `toRecord`, `ofRecord` of each: the record, and back.
-/

namespace ProtoWire

/-- A named number of an enum. -/
structure EnumValueDecl where
  name : Option String := none
  number : Option Int32 := none
deriving DecidableEq

structure EnumDecl where
  name : Option String := none
  values : List EnumValueDecl := []
deriving DecidableEq

structure FieldOptions where
  packed : Option Bool := none
deriving DecidableEq

structure FieldDecl where
  name : Option String := none
  number : Option Int32 := none
  label : Option Int32 := none
  type : Option Int32 := none
  /-- Fully qualified, with a leading dot, for fields of messages, groups and enums. -/
  typeName : Option String := none
  /-- The default as text; bytes are escaped. -/
  defaultValue : Option String := none
  options : Option FieldOptions := none
  /-- The place of its oneof in the message. -/
  oneofIndex : Option Int32 := none
  jsonName : Option String := none
  /-- Whether its oneof only stands for explicit presence. -/
  proto3Optional : Option Bool := none
deriving DecidableEq

structure OneofDecl where
  name : Option String := none
deriving DecidableEq

structure MessageOptions where
  /-- Set on the entry messages that stand for map fields. -/
  mapEntry : Option Bool := none
deriving DecidableEq

structure MessageDecl where
  name : Option String := none
  fields : List FieldDecl := []
  messages : List MessageDecl := []
  enums : List EnumDecl := []
  options : Option MessageOptions := none
  oneofs : List OneofDecl := []

structure FileDecl where
  /-- The path relative to the include root. -/
  name : Option String := none
  package : Option String := none
  dependencies : List String := []
  messages : List MessageDecl := []
  enums : List EnumDecl := []
  /-- The dialect named in the file; without one it is the second. -/
  dialect : Option String := none

/-- What a code generator is asked. -/
structure Request where
  /-- The files to generate code for. -/
  filesToGenerate : List String := []
  parameter : Option String := none
  /-- These files and all they import. -/
  files : List FileDecl := []

/-- A file that a code generator made. -/
structure ResponseFile where
  name : Option String := none
  insertionPoint : Option String := none
  content : Option String := none
deriving DecidableEq

/-- What a code generator answers. -/
structure Response where
  /-- Why nothing was generated. -/
  error : Option String := none
  supportedFeatures : Option UInt64 := none
  files : List ResponseFile := []
deriving DecidableEq

/-! ### Records of declarations -/

namespace EnumValueDecl

def toRecord (v : EnumValueDecl) : Record :=
  ⟨[.text v.name, .int32 v.number]⟩

def ofRecord : Record → EnumValueDecl
  | ⟨[.text name, .int32 number]⟩ => { name, number }
  | _ => {}

end EnumValueDecl

namespace EnumDecl

def toRecord (e : EnumDecl) : Record :=
  ⟨[.text e.name, .subs (e.values.map EnumValueDecl.toRecord)]⟩

def ofRecord : Record → EnumDecl
  | ⟨[.text name, .subs values]⟩ => { name, values := values.map EnumValueDecl.ofRecord }
  | _ => {}

end EnumDecl

namespace FieldOptions

def toRecord (o : FieldOptions) : Record :=
  ⟨[.bool o.packed]⟩

def ofRecord : Record → FieldOptions
  | ⟨[.bool packed]⟩ => { packed }
  | _ => {}

end FieldOptions

namespace FieldDecl

def toRecord (f : FieldDecl) : Record :=
  ⟨[.text f.name, .int32 f.number, .int32 f.label, .int32 f.type, .text f.typeName,
    .text f.defaultValue, .sub (f.options.map FieldOptions.toRecord), .int32 f.oneofIndex,
    .text f.jsonName, .bool f.proto3Optional]⟩

def ofRecord : Record → FieldDecl
  | ⟨[.text name, .int32 number, .int32 label, .int32 type, .text typeName, .text defaultValue,
      .sub options, .int32 oneofIndex, .text jsonName, .bool proto3Optional]⟩ =>
    { name, number, label, type, typeName, defaultValue,
      options := options.map FieldOptions.ofRecord, oneofIndex, jsonName, proto3Optional }
  | _ => {}

end FieldDecl

namespace OneofDecl

def toRecord (o : OneofDecl) : Record :=
  ⟨[.text o.name]⟩

def ofRecord : Record → OneofDecl
  | ⟨[.text name]⟩ => { name }
  | _ => {}

end OneofDecl

namespace MessageOptions

def toRecord (o : MessageOptions) : Record :=
  ⟨[.bool o.mapEntry]⟩

def ofRecord : Record → MessageOptions
  | ⟨[.bool mapEntry]⟩ => { mapEntry }
  | _ => {}

end MessageOptions

namespace MessageDecl

mutual

def toRecord : MessageDecl → Record
  | ⟨name, fields, messages, enums, options, oneofs⟩ =>
    ⟨[.text name, .subs (fields.map FieldDecl.toRecord), .subs (toRecords messages),
      .subs (enums.map EnumDecl.toRecord), .sub (options.map MessageOptions.toRecord),
      .subs (oneofs.map OneofDecl.toRecord)]⟩

def toRecords : List MessageDecl → List Record
  | [] => []
  | m :: ms => toRecord m :: toRecords ms

end

mutual

def ofRecord : Record → MessageDecl
  | ⟨[.text name, .subs fields, .subs messages, .subs enums, .sub options, .subs oneofs]⟩ =>
    { name, fields := fields.map FieldDecl.ofRecord, messages := ofRecords messages,
      enums := enums.map EnumDecl.ofRecord, options := options.map MessageOptions.ofRecord,
      oneofs := oneofs.map OneofDecl.ofRecord }
  | _ => {}

def ofRecords : List Record → List MessageDecl
  | [] => []
  | r :: rs => ofRecord r :: ofRecords rs

end

end MessageDecl

namespace FileDecl

def toRecord (f : FileDecl) : Record :=
  ⟨[.text f.name, .text f.package, .texts f.dependencies,
    .subs (f.messages.map MessageDecl.toRecord), .subs (f.enums.map EnumDecl.toRecord),
    .text f.dialect]⟩

def ofRecord : Record → FileDecl
  | ⟨[.text name, .text package, .texts dependencies, .subs messages, .subs enums,
      .text dialect]⟩ =>
    { name, package, dependencies, messages := messages.map MessageDecl.ofRecord,
      enums := enums.map EnumDecl.ofRecord, dialect }
  | _ => {}

def setRecord (files : List FileDecl) : Record :=
  ⟨[.subs (files.map toRecord)]⟩

def ofSetRecord : Record → List FileDecl
  | ⟨[.subs files]⟩ => files.map ofRecord
  | _ => []

end FileDecl

namespace Request

def toRecord (r : Request) : Record :=
  ⟨[.texts r.filesToGenerate, .text r.parameter, .subs (r.files.map FileDecl.toRecord)]⟩

def ofRecord : Record → Request
  | ⟨[.texts filesToGenerate, .text parameter, .subs files]⟩ =>
    { filesToGenerate, parameter, files := files.map FileDecl.ofRecord }
  | _ => {}

end Request

namespace ResponseFile

def toRecord (f : ResponseFile) : Record :=
  ⟨[.text f.name, .text f.insertionPoint, .text f.content]⟩

def ofRecord : Record → ResponseFile
  | ⟨[.text name, .text insertionPoint, .text content]⟩ => { name, insertionPoint, content }
  | _ => {}

end ResponseFile

namespace Response

def toRecord (r : Response) : Record :=
  ⟨[.text r.error, .uint64 r.supportedFeatures, .subs (r.files.map ResponseFile.toRecord)]⟩

def ofRecord : Record → Response
  | ⟨[.text error, .uint64 supportedFeatures, .subs files]⟩ =>
    { error, supportedFeatures, files := files.map ResponseFile.ofRecord }
  | _ => {}

end Response

/-! ### Types and labels -/

/-- The category that the number of a field type stands for. -/
def Category.ofNumber? : Int32 → Option Category
  | 1 => some (.scalar .double)
  | 2 => some (.scalar .float)
  | 3 => some (.scalar .int64)
  | 4 => some (.scalar .uint64)
  | 5 => some (.scalar .int32)
  | 6 => some (.scalar .fixed64)
  | 7 => some (.scalar .fixed32)
  | 8 => some (.scalar .bool)
  | 9 => some .text
  | 10 => some .group
  | 11 => some .message
  | 12 => some .blob
  | 13 => some (.scalar .uint32)
  | 14 => some .enum
  | 15 => some (.scalar .sfixed32)
  | 16 => some (.scalar .sfixed64)
  | 17 => some (.scalar .sint32)
  | 18 => some (.scalar .sint64)
  | _ => none

/-- How many values a field is declared to have. -/
inductive Label where
  | optional
  | required
  | repeated
deriving DecidableEq

def Label.name : Label → String
  | optional => "optional"
  | required => "required"
  | repeated => "repeated"

def Label.ofNumber? : Int32 → Option Label
  | 1 => some .optional
  | 2 => some .required
  | 3 => some .repeated
  | _ => none

namespace FieldDecl

/-- The label; a missing or unknown one reads as optional. -/
def labelKind (f : FieldDecl) : Label :=
  (f.label.bind Label.ofNumber?).getD .optional

def type? (f : FieldDecl) : Option Category :=
  f.type.bind Category.ofNumber?

def packed? (f : FieldDecl) : Option Bool :=
  f.options.bind (·.packed)

/-- The oneof of the field, unless it only stands for explicit presence. -/
def oneof? (f : FieldDecl) : Option Nat :=
  if f.proto3Optional.getD false then none
  else f.oneofIndex.bind fun index => if 0 ≤ index then some index.toInt.toNat else none

end FieldDecl

/-- Whether a message stands for the entries of a map field. -/
def MessageDecl.isMapEntry (m : MessageDecl) : Bool :=
  (m.options.bind (·.mapEntry)).getD false

/-- Whether a file is of the third dialect, where repeated numbers are packed by default. -/
def FileDecl.isProto3 (f : FileDecl) : Bool :=
  f.dialect == some "proto3"

end ProtoWire
