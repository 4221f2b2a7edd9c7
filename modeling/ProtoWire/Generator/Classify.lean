import ProtoWire.Descriptor.Decl
import ProtoWire.Generator.Error

/-!
# Classification of fields

* `classify`: the strategy of a field, or why there is none.
-/

namespace ProtoWire.Generator

def needsTypeName : Category → Bool
  | .enum | .message | .group => true
  | .scalar _ | .text | .blob => false

/-- The strategy of a field of a message. The first thing wrong is reported. -/
def classify (message : String) (f : FieldDecl) (isProto3 : Bool) :
    Except GenerateError Strategy := do
  let refuse (reason : String) : GenerateError :=
    .unhandled message (f.name.getD "<unnamed>") reason
  let category ← match f.type?, f.type with
    | some category, _ => .ok category
    | none, some raw => .error (refuse ("unknown field type " ++ toString raw.toInt))
    | none, none => .error (refuse "missing field type")
  if needsTypeName category && f.typeName.getD "" == "" then
    throw (refuse (category.name.capitalize ++ " field has no type name"))
  if f.packed? == some true && !category.isPackable then
    throw (refuse (category.name.capitalize ++ " fields cannot be packed"))
  match f.labelKind, f.oneof? with
  | .repeated, some _ => throw (refuse "repeated field inside a oneof")
  | .repeated, none =>
    return { cardinality := .repeated (category.isPackable && f.packed?.getD isProto3), category }
  | _, some index => return { cardinality := .oneof index, category }
  | _, none => return { cardinality := .singular, category }

end ProtoWire.Generator
