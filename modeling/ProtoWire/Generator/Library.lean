import ProtoWire.Code.Build
import ProtoWire.Decimal.Shortest
import ProtoWire.Generator.Classify
import ProtoWire.Generator.Default

/-!
# What generated code refers to

Paths of the core library, and of the library that generated code calls at run time.
-/

namespace ProtoWire

namespace Scalar

/-- The type that holds a kind. -/
def codeType : Scalar → String
  | double => "f64"
  | float => "f32"
  | int64 | sfixed64 | sint64 => "i64"
  | uint64 | fixed64 => "u64"
  | int32 | sfixed32 | sint32 => "i32"
  | uint32 | fixed32 => "u32"
  | bool => "bool"

/-- The method that reads a value. -/
def readName (kind : Scalar) : String :=
  "read_" ++ kind.name

def writeName (kind : Scalar) : String :=
  "write_" ++ kind.name ++ "_no_tag"

/-- The function that computes the size of a value. Kinds of one fixed width share theirs. -/
def sizeName (kind : Scalar) : String :=
  match kind.wireType with
  | .i64 => "compute_fixed64_size_no_tag"
  | .i32 => "compute_fixed32_size_no_tag"
  | _ => "compute_" ++ kind.name ++ "_size_no_tag"

def zeroText : Scalar → String
  | double => "0.0f64"
  | float => "0.0f32"
  | bool => "false"
  | _ => "0"

end Scalar

namespace Generator

open Code

/-! ### Paths -/

/-- A function that writes, or computes a size. -/
def sink (name : String) : Expr :=
  item ["tightbuf", "sink", name]

/-- An item of the library that every message or enum has. -/
def libraryPath (name : String) : Path :=
  .root ["tightbuf", name]

def bytesTy : Ty :=
  (libraryPath "ProtoBytes").toTy

def textTy : Ty :=
  (Path.root ["std", "string", "String"]).toTy

def byteSliceTy : Ty :=
  .ref (.slice (.ofName "u8"))

def optionTy (type : Ty) : Ty :=
  (Path.root ["core", "option", "Option"]).applied false [.type type]

def defaultFn : Expr :=
  item ["core", "default", "Default", "default"]

def somePath : Path :=
  .root ["core", "option", "Option", "Some"]

def noneExpr : Expr :=
  item ["core", "option", "Option", "None"]

def okUnit : Expr :=
  (item ["core", "result", "Result", "Ok"]).applied [.unit]

def messageClear : Expr :=
  item ["tightbuf", "ProtoMessage", "clear"]

/-- The function that finds the value of an enum for a number. -/
def fromNumber (element : Path) : Expr :=
  .assoc element.toTy (libraryPath "ProtoEnum") "from_i32"

/-! ### Literals -/

def suffixed (value : Int) (type : String) : Expr :=
  let magnitude := Expr.literal (toString value.natAbs ++ type)
  if value < 0 then .unary .negate magnitude else magnitude

/-- A floating-point number with a type behind it. The shortest digits that read back are written,
without exponent; what is not finite has a name. -/
def floatExpr (format : Decimal.BinaryFormat) (bits : Nat) (type : String) : Expr :=
  match format.finite? bits with
  | some x =>
    let magnitude := Expr.literal ((format.shortest x).positional ++ type)
    if x.negative then .unary .negate magnitude else magnitude
  | none =>
    let name :=
      if bits == format.infinity false then "INFINITY"
      else if bits == format.infinity true then "NEG_INFINITY"
      else "NAN"
    .path ((Path.ofName type).child name)

def scalarExpr : (kind : Scalar) → kind.Value → Expr
  | .double, bits => floatExpr .double (UInt64.toNat bits) "f64"
  | .float, bits => floatExpr .single (UInt32.toNat bits) "f32"
  | .int64, value | .sfixed64, value | .sint64, value => suffixed (Int64.toInt value) "i64"
  | .int32, value | .sfixed32, value | .sint32, value => suffixed (Int32.toInt value) "i32"
  | .uint64, value | .fixed64, value => suffixed (UInt64.toNat value) "u64"
  | .uint32, value | .fixed32, value => suffixed (UInt32.toNat value) "u32"
  | .bool, value => .literal (if value then "true" else "false")

/-- A declared default as an expression: of an enum its number, and of text or bytes a literal. -/
def DefaultValue.expr : DefaultValue → Expr
  | scalar kind value => scalarExpr kind value
  | enum number => suffixed number.toInt "i32"
  | text value => .literal (Text.literal value)
  | blob value => .literal (Text.bytesLiteral value)

end Generator

end ProtoWire
