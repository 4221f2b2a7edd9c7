import ProtoWire.Repeated.Step
import ProtoWire.Text.Quoted

/-!
# Elements of containers

The size of an element bounds the capacity of its container.
-/

namespace ProtoWire

/-- A type of values in a container. -/
inductive ElementType where
  | int32
  | byte
  | uint64
  | bool
  | text
  | blob
deriving DecidableEq

namespace ElementType

abbrev Value : ElementType → Type
  | int32 => Int32
  | byte => UInt8
  | uint64 => UInt64
  | bool => Bool
  | text => String
  | blob => Bytes

/-- How many bytes an element takes. Of a text or blob that is the part that refers to its
contents. -/
def size : ElementType → Nat
  | int32 => 4
  | byte => 1
  | uint64 => 8
  | bool => 1
  | text => 24
  | blob => 32

def default : (type : ElementType) → type.Value
  | int32 => (0 : Int32)
  | byte => (0 : UInt8)
  | uint64 => (0 : UInt64)
  | bool => false
  | text => ""
  | blob => []

def beq : (type : ElementType) → type.Value → type.Value → Bool
  | int32, a, b => decide ((a : Int32) = b)
  | byte, a, b => decide ((a : UInt8) = b)
  | uint64, a, b => decide ((a : UInt64) = b)
  | bool, a, b => decide ((a : Bool) = b)
  | text, a, b => decide ((a : String) = b)
  | blob, a, b => decide ((a : Bytes) = b)

instance (type : ElementType) : BEq type.Value := ⟨type.beq⟩

def listing (texts : List String) : String :=
  "[" ++ ", ".intercalate texts ++ "]"

def describe : (type : ElementType) → type.Value → String
  | int32, v => toString (Int32.toInt v)
  | byte, v => toString (UInt8.toNat v)
  | uint64, v => toString (UInt64.toNat v)
  | bool, v => if v then "true" else "false"
  | text, v => Text.quoted v
  | blob, v => listing (v.map fun byte => toString (UInt8.toNat byte))

end ElementType

/-- The values of a container as text. -/
def Repeated.describe (type : ElementType) (c : Repeated type.Value) : String :=
  ElementType.listing (c.values.map type.describe)

end ProtoWire
