import ProtoWire.Message.Access

/-!
# The conformance schema

One message type for each thing a schema can ask for: every scalar kind, declared defaults, a oneof,
recursion, groups, packed and unpacked runs, floats, fields out of number order, and lists.
-/

namespace ProtoWire.Conformance

/-! ### Places in the schema -/

abbrev Scalars : TypeId := 0
abbrev Sample : TypeId := 1
abbrev Defaults : TypeId := 2
abbrev Choice : TypeId := 3
abbrev Tree : TypeId := 4
abbrev WithGroup : TypeId := 5
abbrev Inner : TypeId := 6
abbrev Item : TypeId := 7
abbrev Unpacked : TypeId := 8
abbrev Packed : TypeId := 9
abbrev Floats : TypeId := 10
abbrev Ordered : TypeId := 11
abbrev Lists : TypeId := 12

/-! ### Fields -/

def color : List (String × Int32) :=
  [("ColorUnknown", 0), ("Red", 1), ("Green", 2), ("Blue", 3)]

def one (name : String) (number : UInt32) (element : Element) : FieldSpec :=
  { name, number, element, cardinality := .singular }

def many (name : String) (number : UInt32) (element : Element) : FieldSpec :=
  { name, number, element, cardinality := .repeated false }

def run (name : String) (number : UInt32) (element : Element) : FieldSpec :=
  { name, number, element, cardinality := .repeated true }

/-- A member of the first oneof. -/
def pick (name : String) (number : UInt32) (element : Element) : FieldSpec :=
  { name, number, element, cardinality := .oneof 0 }

def plain (kind : Scalar) : Element :=
  .scalar kind kind.zero

/-! ### Layouts -/

def scalars : Layout :=
  .ofSpecs "Scalars" []
    [one "int32" 1 (plain .int32), one "int64" 2 (plain .int64), one "uint32" 3 (plain .uint32),
      one "uint64" 4 (plain .uint64), one "sint32" 5 (plain .sint32),
      one "sint64" 6 (plain .sint64), one "fixed32" 7 (plain .fixed32),
      one "fixed64" 8 (plain .fixed64), one "sfixed32" 9 (plain .sfixed32),
      one "sfixed64" 10 (plain .sfixed64), one "float" 11 (plain .float),
      one "double" 12 (plain .double), one "flag" 13 (plain .bool), one "text" 14 (.text ""),
      one "data" 15 (.blob []), one "color" 16 (.enum color none)]

def sample : Layout :=
  .ofSpecs "Sample" []
    [one "id" 1 (plain .int32), run "values" 2 (plain .int32), one "name" 3 (.text "")]

def defaults : Layout :=
  .ofSpecs "Defaults" []
    [one "count" 1 (.scalar .int32 (42 : Int32)), one "label" 2 (.text "hi"),
      one "blob" 3 (.blob [1, 2]), one "color" 4 (.enum color (some 3)),
      one "ratio" 5 (.scalar .double (0x7ff0000000000000 : UInt64)),
      one "flag" 6 (.scalar .bool true)]

def choice : Layout :=
  .ofSpecs "Choice" ["pick"]
    [pick "number" 1 (plain .int32), pick "text" 2 (.text ""), pick "sample" 3 (.message Sample),
      one "after" 4 (plain .int32)]

def tree : Layout :=
  .ofSpecs "Tree" []
    [one "child" 1 (.message Tree), one "value" 2 (plain .int32),
      many "children" 3 (.message Tree)]

def withGroup : Layout :=
  .ofSpecs "WithGroup" [] [one "inner" 1 (.group Inner), many "items" 3 (.group Item)]

def inner : Layout :=
  .ofSpecs "WithGroup.Inner" [] [one "x" 2 (plain .int32)]

def item : Layout :=
  .ofSpecs "WithGroup.Item" [] [one "y" 4 (plain .int32)]

def unpacked : Layout :=
  .ofSpecs "Unpacked" []
    [many "values" 1 (plain .int32), many "colors" 2 (.enum color none),
      many "ratios" 3 (plain .double)]

def packed : Layout :=
  .ofSpecs "Packed" []
    [run "values" 1 (plain .int32), run "colors" 2 (.enum color none),
      run "ratios" 3 (plain .double)]

def floats : Layout :=
  .ofSpecs "Floats" [] [one "value" 1 (plain .double), many "values" 2 (plain .float)]

def ordered : Layout :=
  .ofSpecs "Ordered" []
    [one "c" 3 (plain .int32), one "a" 1 (plain .int32), one "b" 2 (.text ""),
      many "d" 4 (plain .sint64)]

def lists : Layout :=
  .ofSpecs "Lists" []
    [many "names" 1 (.text ""), many "blobs" 2 (.blob []), many "samples" 3 (.message Sample)]

/-- All layouts, in the order of their places. -/
def schema : Schema :=
  { layouts :=
      [scalars, sample, defaults, choice, tree, withGroup, inner, item, unpacked, packed, floats,
        ordered, lists] }

/-! ### Variants -/

/-- How messages are generated: the order of fields, and whether getters insist on presence. -/
structure Variant where
  order : FieldOrder
  strict : Bool

/-- Fields in declaration order. -/
def Variant.declaration : Variant := ⟨.declaration, false⟩

/-- Fields by number. -/
def Variant.ascending : Variant := ⟨.ascending, false⟩

/-- Fields in no expected order. -/
def Variant.unordered : Variant := ⟨.unordered, false⟩

/-- Fields in declaration order, with getters that insist on presence. -/
def Variant.insistent : Variant := ⟨.declaration, true⟩

end ProtoWire.Conformance
