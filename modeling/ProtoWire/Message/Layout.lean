import ProtoWire.Field.Order
import ProtoWire.Field.Presence

/-!
# Layouts

A layout says what a message of a type stores, field by field in declaration order.

* `Field`: name, number, element, and where its presence is kept.
* `Layout`: the fields of a message type. `Layout.ofSpecs` deals out its presence bits.
-/

namespace ProtoWire

/-- A message type, by its place in the schema. -/
abbrev TypeId := Nat

/-- What one value of a field is. -/
inductive Element where
  | scalar (kind : Scalar) (default : kind.Value)
  /-- An enum with its declared names and numbers. Without a declared default, a number that is not
  declared is dropped when read. -/
  | enum (declared : List (String × Int32)) (default : Option Int32)
  | text (default : String)
  | blob (default : Bytes)
  | message (type : TypeId)
  | group (type : TypeId)

def Element.category : Element → Category
  | scalar kind _ => .scalar kind
  | enum _ _ => .enum
  | text _ => .text
  | blob _ => .blob
  | message _ => .message
  | group _ => .group

/-- Where the presence of a field is kept. -/
inductive Placement where
  /-- In a bit. -/
  | singular (bit : PresenceBit)
  /-- In its values. -/
  | repeated (packed : Bool)
  /-- In the case of a oneof, and a bit shared by its members. -/
  | member (oneof : Nat) (bit : PresenceBit)

def Placement.cardinality : Placement → Cardinality
  | singular _ => .singular
  | repeated packed => .repeated packed
  | member oneof _ => .oneof oneof

structure Field where
  name : String
  number : UInt32
  element : Element
  placement : Placement

namespace Field

/-- How the field is stored and how it travels. -/
def strategy (f : Field) : Strategy :=
  { cardinality := f.placement.cardinality, category := f.element.category }

def primaryTag (f : Field) : UInt32 :=
  f.strategy.primaryTag f.number

def alternateTag? (f : Field) : Option UInt32 :=
  f.strategy.alternateTag? f.number

def isMemberOf (f : Field) (oneof : Nat) : Bool :=
  match f.placement with
  | .member index _ => index == oneof
  | .singular _ | .repeated _ => false

end Field

/-- What the messages of a type store. -/
structure Layout where
  name : String
  fields : List Field
  /-- How many words of presence bits. -/
  words : Nat
  /-- The names of the oneofs. -/
  oneofs : List String

/-- A field before its presence bit is known. -/
structure FieldSpec where
  name : String
  number : UInt32
  element : Element
  cardinality : Cardinality

def FieldSpec.place (s : FieldSpec) (bit : Option PresenceBit) : Field :=
  { name := s.name, number := s.number, element := s.element,
    placement :=
      match s.cardinality with
      | .singular => .singular (bit.getD ⟨0⟩)
      | .repeated packed => .repeated packed
      | .oneof index => .member index (bit.getD ⟨0⟩) }

/-- The layout of fields and oneofs, with presence bits dealt out in order. -/
def Layout.ofSpecs (name : String) (oneofs : List String) (specs : List FieldSpec) : Layout :=
  let bits := allocate (specs.map (·.cardinality)) oneofs.length
  { name, oneofs, words := bits.wordCount,
    fields := List.zipWith FieldSpec.place specs bits.fields }

/-- The layouts of all message types. -/
structure Schema where
  layouts : List Layout

def Schema.layout (S : Schema) (type : TypeId) : Layout :=
  S.layouts.getD type { name := "", fields := [], words := 0, oneofs := [] }

end ProtoWire
