import ProtoWire.Decimal.Binary
import ProtoWire.Generator.Registry
import ProtoWire.Text.Unescape

/-!
# Declared defaults

* `scalarDefault?`: the value of a kind that a text spells.
* `defaultValue?`: the declared default of a field.
-/

namespace ProtoWire.Generator

/-- A declared default. -/
inductive DefaultValue where
  | scalar (kind : Scalar) (value : kind.Value)
  /-- The number of a named value. -/
  | enum (number : Int32)
  | text (value : String)
  | blob (value : Bytes)

/-- The bit pattern of a floating-point number that a text spells: finite, or one of three words. -/
def floatBits? (format : Decimal.BinaryFormat) (text : String) : Option Nat :=
  match text with
  | "inf" => some (format.infinity false)
  | "-inf" => some (format.infinity true)
  | "nan" => some format.notANumber
  | _ => (Decimal.Numeral.read? text).bind format.round?

def scalarDefault? (kind : Scalar) (text : String) : Option kind.Value :=
  let int32? : Option Int32 :=
    (Decimal.signed? Int32.minValue.toInt Int32.maxValue.toInt text).map Int32.ofInt
  let int64? : Option Int64 :=
    (Decimal.signed? Int64.minValue.toInt Int64.maxValue.toInt text).map Int64.ofInt
  let uint32? : Option UInt32 := (Decimal.unsigned? (UInt32.size - 1) text).map Nat.toUInt32
  let uint64? : Option UInt64 := (Decimal.unsigned? (UInt64.size - 1) text).map Nat.toUInt64
  match kind with
  | .int32 | .sint32 | .sfixed32 => int32?
  | .int64 | .sint64 | .sfixed64 => int64?
  | .uint32 | .fixed32 => uint32?
  | .uint64 | .fixed64 => uint64?
  | .bool =>
    match text with
    | "true" => some true
    | "false" => some false
    | _ => none
  | .float => (floatBits? .single text).map Nat.toUInt32
  | .double => (floatBits? .double text).map Nat.toUInt64

/-- The default that a text spells for a field of a category. Messages and groups have none. -/
def defaultOf? (registry : Registry) (f : FieldDecl) (category : Category) (text : String) :
    Option DefaultValue :=
  match category with
  | .scalar kind => (scalarDefault? kind text).map (.scalar kind)
  | .enum => do
    let values ← registry.enumValues? (f.typeName.getD "")
    .enum <$> values.lookup text
  | .text => some (.text text)
  | .blob => (Text.unescape? (utf8Bytes text)).map .blob
  | .message | .group => none

def defaultValue? (registry : Registry) (f : FieldDecl) (category : Category) :
    Except GenerateError (Option DefaultValue) :=
  match f.defaultValue with
  | none => .ok none
  | some text =>
    match defaultOf? registry f category text with
    | some value => .ok (some value)
    | none => .error (.invalidDefault (f.name.getD "") text)

end ProtoWire.Generator
