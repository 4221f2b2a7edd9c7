import ProtoWire.Descriptor.Decl
import ProtoWire.Proofs.Descriptor.Codec

/-!
# Declarations are read back

* `Descriptor`: a value of any type that a schema is described with.
* `Descriptor.fits_toRecord`, `Descriptor.ofRecord_toRecord`: its record is one of its type, and
  gives the value back.
* `descriptor_round_trip`: what is encoded is parsed as the same value.
-/

namespace ProtoWire

variable {α : Type}

/-- A value of one of the types that a schema is described with. -/
inductive Descriptor where
  | fileSet (files : List FileDecl)
  | file (decl : FileDecl)
  | message (decl : MessageDecl)
  | field (decl : FieldDecl)
  | oneof (decl : OneofDecl)
  | enum (decl : EnumDecl)
  | enumValue (decl : EnumValueDecl)
  | messageOptions (options : MessageOptions)
  | fieldOptions (options : FieldOptions)
  | request (asked : Request)
  | response (answer : Response)
  | responseFile (made : ResponseFile)

namespace Descriptor

/-- The type of a value. -/
def type : Descriptor → RecordType
  | fileSet _ => .fileSet
  | file _ => .file
  | message _ => .message
  | field _ => .field
  | oneof _ => .oneof
  | enum _ => .enum
  | enumValue _ => .enumValue
  | messageOptions _ => .messageOptions
  | fieldOptions _ => .fieldOptions
  | request _ => .request
  | response _ => .response
  | responseFile _ => .responseFile

/-- The record of a value. -/
def toRecord : Descriptor → Record
  | fileSet files => FileDecl.setRecord files
  | file decl => decl.toRecord
  | message decl | field decl | oneof decl | enum decl | enumValue decl => decl.toRecord
  | messageOptions options => options.toRecord
  | fieldOptions options => options.toRecord
  | request asked => asked.toRecord
  | response answer => answer.toRecord
  | responseFile made => made.toRecord

/-- The value of a type that a record stands for. -/
def ofRecord : RecordType → Record → Descriptor
  | .fileSet, r => fileSet (FileDecl.ofSetRecord r)
  | .file, r => file (.ofRecord r)
  | .message, r => message (.ofRecord r)
  | .field, r => field (.ofRecord r)
  | .oneof, r => oneof (.ofRecord r)
  | .enum, r => enum (.ofRecord r)
  | .enumValue, r => enumValue (.ofRecord r)
  | .messageOptions, r => messageOptions (.ofRecord r)
  | .fieldOptions, r => fieldOptions (.ofRecord r)
  | .request, r => request (.ofRecord r)
  | .response, r => response (.ofRecord r)
  | .responseFile, r => responseFile (.ofRecord r)

end Descriptor

/-! ### Records of declarations -/

section Fits

theorem forall_mem_map_fits {type : RecordType} {toRecord : α → Record}
    (h : ∀ a, (toRecord a).Fits type) (as : List α) : ∀ r ∈ as.map toRecord, r.Fits type := by
  simpa using fun a _ => h a

theorem forall_mem_option_fits {type : RecordType} {toRecord : α → Record}
    (h : ∀ a, (toRecord a).Fits type) (value : Option α) :
    ∀ r ∈ value.map toRecord, r.Fits type := by
  simpa using fun a _ => h a

theorem EnumValueDecl.fits_toRecord (v : EnumValueDecl) : v.toRecord.Fits .enumValue :=
  .intro (.cons .text (.cons .int32 .nil))

theorem EnumDecl.fits_toRecord (e : EnumDecl) : e.toRecord.Fits .enum :=
  .intro (.cons .text
    (.cons (.subs (forall_mem_map_fits EnumValueDecl.fits_toRecord _)) .nil))

theorem FieldOptions.fits_toRecord (o : FieldOptions) : o.toRecord.Fits .fieldOptions :=
  .intro (.cons .bool .nil)

theorem FieldDecl.fits_toRecord (f : FieldDecl) : f.toRecord.Fits .field :=
  .intro (.cons .text (.cons .int32 (.cons .int32 (.cons .int32 (.cons .text (.cons .text
    (.cons (.sub (forall_mem_option_fits FieldOptions.fits_toRecord _)) (.cons .int32
      (.cons .text (.cons .bool .nil))))))))))

theorem OneofDecl.fits_toRecord (o : OneofDecl) : o.toRecord.Fits .oneof :=
  .intro (.cons .text .nil)

theorem MessageOptions.fits_toRecord (o : MessageOptions) : o.toRecord.Fits .messageOptions :=
  .intro (.cons .bool .nil)

mutual

theorem MessageDecl.fits_toRecord : (m : MessageDecl) → m.toRecord.Fits .message
  | ⟨name, fields, messages, enums, options, oneofs⟩ => by
    rw [MessageDecl.toRecord]
    exact .intro (.cons .text
      (.cons (.subs (forall_mem_map_fits FieldDecl.fits_toRecord _))
      (.cons (.subs (fits_toRecords messages))
      (.cons (.subs (forall_mem_map_fits EnumDecl.fits_toRecord _))
      (.cons (.sub (forall_mem_option_fits MessageOptions.fits_toRecord _))
      (.cons (.subs (forall_mem_map_fits OneofDecl.fits_toRecord _)) .nil))))))

theorem MessageDecl.fits_toRecords :
    (ms : List MessageDecl) → ∀ r ∈ MessageDecl.toRecords ms, r.Fits .message
  | [] => by simp [MessageDecl.toRecords]
  | m :: ms => by
    rw [MessageDecl.toRecords, List.forall_mem_cons]
    exact ⟨fits_toRecord m, fits_toRecords ms⟩

end

theorem FileDecl.fits_toRecord (f : FileDecl) : f.toRecord.Fits .file :=
  .intro (.cons .text (.cons .text (.cons .texts
    (.cons (.subs (forall_mem_map_fits MessageDecl.fits_toRecord _))
    (.cons (.subs (forall_mem_map_fits EnumDecl.fits_toRecord _)) (.cons .text .nil))))))

theorem ResponseFile.fits_toRecord (f : ResponseFile) : f.toRecord.Fits .responseFile :=
  .intro (.cons .text (.cons .text (.cons .text .nil)))

theorem Request.fits_toRecord (r : Request) : r.toRecord.Fits .request :=
  .intro (.cons .texts (.cons .text
    (.cons (.subs (forall_mem_map_fits FileDecl.fits_toRecord _)) .nil)))

theorem Response.fits_toRecord (r : Response) : r.toRecord.Fits .response :=
  .intro (.cons .text (.cons .uint64
    (.cons (.subs (forall_mem_map_fits ResponseFile.fits_toRecord _)) .nil)))

theorem Descriptor.fits_toRecord (d : Descriptor) : d.toRecord.Fits d.type := by
  cases d with
  | fileSet files =>
    exact .intro (.cons (.subs (forall_mem_map_fits FileDecl.fits_toRecord _)) .nil)
  | file decl | message decl | field decl | oneof decl | enum decl | enumValue decl =>
    exact decl.fits_toRecord
  | messageOptions options | fieldOptions options => exact options.fits_toRecord
  | request asked => exact asked.fits_toRecord
  | response answer => exact answer.fits_toRecord
  | responseFile made => exact made.fits_toRecord

end Fits

/-! ### Declarations of records -/

section OfRecord

theorem map_ofRecord_toRecord {toRecord : α → Record} {ofRecord : Record → α}
    (h : ∀ a, ofRecord (toRecord a) = a) (as : List α) : (as.map toRecord).map ofRecord = as := by
  rw [List.map_map]
  exact (List.map_congr_left fun a _ => h a).trans (List.map_id as)

theorem option_ofRecord_toRecord {toRecord : α → Record} {ofRecord : Record → α}
    (h : ∀ a, ofRecord (toRecord a) = a) (value : Option α) :
    (value.map toRecord).map ofRecord = value := by
  cases value with
  | none => rfl
  | some a => exact congrArg some (h a)

theorem EnumDecl.ofRecord_toRecord (e : EnumDecl) : EnumDecl.ofRecord e.toRecord = e := by
  rw [toRecord, ofRecord, map_ofRecord_toRecord fun _ => rfl]

theorem FieldDecl.ofRecord_toRecord (f : FieldDecl) : FieldDecl.ofRecord f.toRecord = f := by
  rw [toRecord, ofRecord, option_ofRecord_toRecord fun _ => rfl]

mutual

theorem MessageDecl.ofRecord_toRecord :
    (m : MessageDecl) → MessageDecl.ofRecord m.toRecord = m
  | ⟨name, fields, messages, enums, options, oneofs⟩ => by
    rw [MessageDecl.toRecord, MessageDecl.ofRecord,
      map_ofRecord_toRecord FieldDecl.ofRecord_toRecord,
      ofRecords_toRecords messages, map_ofRecord_toRecord EnumDecl.ofRecord_toRecord,
      option_ofRecord_toRecord fun _ => rfl, map_ofRecord_toRecord fun _ => rfl]

theorem MessageDecl.ofRecords_toRecords :
    (ms : List MessageDecl) → MessageDecl.ofRecords (MessageDecl.toRecords ms) = ms
  | [] => by rw [MessageDecl.toRecords, MessageDecl.ofRecords]
  | m :: ms => by
    rw [MessageDecl.toRecords, MessageDecl.ofRecords, ofRecord_toRecord m, ofRecords_toRecords ms]

end

theorem FileDecl.ofRecord_toRecord (f : FileDecl) : FileDecl.ofRecord f.toRecord = f := by
  rw [toRecord, ofRecord, map_ofRecord_toRecord MessageDecl.ofRecord_toRecord,
    map_ofRecord_toRecord EnumDecl.ofRecord_toRecord]

theorem Request.ofRecord_toRecord (r : Request) : Request.ofRecord r.toRecord = r := by
  rw [toRecord, ofRecord, map_ofRecord_toRecord FileDecl.ofRecord_toRecord]

theorem Response.ofRecord_toRecord (r : Response) : Response.ofRecord r.toRecord = r := by
  rw [toRecord, ofRecord, map_ofRecord_toRecord fun _ => rfl]

/-- The record of a value gives the value back. -/
theorem Descriptor.ofRecord_toRecord (d : Descriptor) :
    Descriptor.ofRecord d.type d.toRecord = d := by
  cases d with
  | fileSet files => exact congrArg fileSet (map_ofRecord_toRecord FileDecl.ofRecord_toRecord files)
  | file decl => exact congrArg file decl.ofRecord_toRecord
  | message decl => exact congrArg message decl.ofRecord_toRecord
  | field decl => exact congrArg field decl.ofRecord_toRecord
  | enum decl => exact congrArg enum decl.ofRecord_toRecord
  | oneof | enumValue | messageOptions | fieldOptions | responseFile => rfl
  | request asked => exact congrArg request asked.ofRecord_toRecord
  | response answer => exact congrArg response answer.ofRecord_toRecord

end OfRecord

/-- A value with at most a hundred levels of values inside, and less than 2 GiB, has as many bytes
as its size says, and is parsed from them as it was. What is absent stays apart from what is empty,
zero or false, since these are different values. -/
theorem descriptor_round_trip (d : Descriptor) (hnesting : d.toRecord.nesting ≤ 100)
    (hlength : (d.toRecord.encode d.type).length < 2 ^ 31) :
    (d.toRecord.encode d.type).length = d.toRecord.size d.type ∧
      Record.parse d.type (d.toRecord.encode d.type) = .ok d.toRecord ∧
      Descriptor.ofRecord d.type d.toRecord = d :=
  ⟨Record.length_encode d.type d.toRecord, d.fits_toRecord.parse_encode hnesting hlength,
    d.ofRecord_toRecord⟩

/-- A field with an empty name, the number zero, options in which nothing is set, and a mark that is
false. All of it is there again. -/
theorem descriptor_round_trip_field :
    let d : Descriptor := .field
      { name := some "", number := some 0, options := some {}, proto3Optional := some false }
    d.toRecord.nesting = 1 ∧ d.toRecord.encode .field = [10, 0, 24, 0, 66, 0, 136, 1, 0] ∧
      Record.parse .field [10, 0, 24, 0, 66, 0, 136, 1, 0] = .ok d.toRecord := by
  intro d
  have hnesting : d.toRecord.nesting = 1 := by cbv
  have hencode : d.toRecord.encode .field = [10, 0, 24, 0, 66, 0, 136, 1, 0] := by
    decide +kernel
  have hlength : (d.toRecord.encode .field).length = 9 := congrArg List.length hencode
  obtain ⟨-, hparse, -⟩ := descriptor_round_trip d (hnesting ▸ by decide) (hlength ▸ by decide)
  exact ⟨hnesting, hencode, hencode ▸ hparse⟩

end ProtoWire
