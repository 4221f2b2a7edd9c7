import ProtoWire.Wire.Scalar

/-!
# Field strategies

How a field is stored and how it travels follows from two choices.
-/

namespace ProtoWire

/-- What one value of a field is. An enum is stored as its raw number. -/
inductive Category where
  | scalar (kind : Scalar)
  | enum
  | text
  | blob
  | message
  | group
deriving DecidableEq

namespace Category

/-- The name of a category, as reports and the names of functions spell it. -/
def name : Category → String
  | scalar kind => kind.name
  | enum => "enum"
  | text => "string"
  | blob => "bytes"
  | message => "message"
  | group => "group"

def isPackable : Category → Bool
  | scalar _ | enum => true
  | text | blob | message | group => false

def isMessageLike : Category → Bool
  | message | group => true
  | scalar _ | enum | text | blob => false

def wireType : Category → WireType
  | scalar kind => kind.wireType
  | enum => .varint
  | text | blob | message => .len
  | group => .startGroup

end Category

/-- How many values a field has. -/
inductive Cardinality where
  /-- One value with a presence bit of its own. -/
  | singular
  /-- Any number of values; `packed` is the form written, and both forms are read. -/
  | repeated (packed : Bool)
  /-- At most one value among the members of the oneof at `index`. -/
  | oneof (index : Nat)
deriving DecidableEq

def Cardinality.isRepeated : Cardinality → Bool
  | repeated _ => true
  | singular | oneof _ => false

def Cardinality.isPacked : Cardinality → Bool
  | repeated packed => packed
  | singular | oneof _ => false

/-- How a field is stored and how it travels. -/
structure Strategy where
  cardinality : Cardinality
  category : Category
deriving DecidableEq

namespace Strategy

def primaryTag (s : Strategy) (number : UInt32) : UInt32 :=
  if s.cardinality.isPacked then Tag.make number .len else Tag.make number s.category.wireType

/-- The tag of the other form of a packable repeated field, which is read as well. -/
def alternateTag? (s : Strategy) (number : UInt32) : Option UInt32 :=
  if s.cardinality.isRepeated && s.category.isPackable then
    if s.cardinality.isPacked then some (Tag.make number s.category.wireType)
    else some (Tag.make number .len)
  else none

end Strategy

end ProtoWire
