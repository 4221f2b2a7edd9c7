/-!
# The order of fields

Fields are expected on the wire, and written, in an order of their own.
-/

namespace ProtoWire

/-- The order in which fields are expected on the wire, and written. -/
inductive FieldOrder where
  /-- Expected and written as declared. -/
  | declaration
  /-- Expected and written by number. -/
  | ascending
  /-- No order is expected; written as declared. -/
  | unordered
deriving DecidableEq

/-- Puts an entry before the first one with a greater number. -/
def insertByNumber {α : Type} (number : α → UInt32) (entry : α) : List α → List α
  | [] => [entry]
  | head :: rest =>
    if number entry < number head then entry :: head :: rest
    else head :: insertByNumber number entry rest

/-- Sorts by number; equal numbers stay in order. -/
def sortByNumber {α : Type} (number : α → UInt32) (entries : List α) : List α :=
  entries.foldl (fun sorted entry => insertByNumber number entry sorted) []

def FieldOrder.arrange {α : Type} (order : FieldOrder) (number : α → UInt32)
    (entries : List α) : List α :=
  match order with
  | declaration | unordered => entries
  | ascending => sortByNumber number entries

end ProtoWire
