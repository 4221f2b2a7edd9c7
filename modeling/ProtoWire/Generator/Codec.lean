import ProtoWire.Generator.Accessor

/-!
# Code that reads and writes fields

A value is read behind its tag, and the next tag is left behind. A field is written if present.
-/

namespace ProtoWire.Generator.FieldPlan

open Code

variable (f : FieldPlan)

def readInput (name : String) (args : List Expr) : Expr :=
  .attempt ((var "input").on name args)

def nextTag : Stmt :=
  (Expr.assign (var "tag") (readInput "read_tag" [])).run

/-! ### Reading -/

/-- A new element of a repeated field, one of old ones if there are any. -/
def recycled (clear : List String) : Expr :=
  f.storedCall "push_recycled" [item clear]

def readElement : Stmt :=
  match f.strategy.category with
  | .scalar kind => (f.storedCall "add" [readInput kind.readName []]).run
  | .enum => (f.storedCall "add_value" [readInput "read_enum" []]).run
  | .text => (readInput "read_string_into" [f.recycled ["std", "string", "String", "clear"]]).run
  | .blob => (readInput "read_bytes_into" [f.recycled ["tightbuf", "ProtoBytes", "clear"]]).run
  | .message => (readInput "read_message" [f.recycled ["tightbuf", "ProtoMessage", "clear"]]).run
  | .group =>
    (Expr.attempt (.method (var "input") "read_group" []
      [f.numberExpr, f.recycled ["tightbuf", "ProtoMessage", "clear"]] true)).run

def readSingular : Stmt :=
  let target :=
    if f.boxed then .reference true (.unary .deref (.unary .deref f.madeBox))
    else .reference true f.stored
  match f.strategy.category with
  | .scalar kind => (Expr.assign f.stored (readInput kind.readName [])).run
  | .enum => (Expr.assign f.stored (readInput "read_enum" [])).run
  | .text => (readInput "read_string_into" [.reference true f.stored]).run
  | .blob => (readInput "read_bytes_into" [.reference true f.stored]).run
  | .message => (readInput "read_message" [target]).run
  | .group => (readInput "read_group" [f.numberExpr, target]).run

/-- Reads a singular field. A number that an enum without default does not declare is dropped. -/
def decodeSingular : List Stmt :=
  let store (stmt : Stmt) : List Stmt := f.prepare ++ stmt :: f.markPresent
  match f.strategy.category, f.default with
  | .enum, none =>
    [.define false "value" (readInput "read_enum" []),
     (Expr.cond (((fromNumber f.element).applied [var "value"]).on "is_some" [])
      (store (Expr.assign f.stored (var "value")).run)).value,
     nextTag]
  | _, _ => store f.readSingular ++ [nextTag]

def decodeRun (tag : UInt32) : List Stmt :=
  let tag := nat tag.toNat
  [(Expr.loop none
    [(Expr.cond (.binary .eq (f.storedCall "remaining_capacity" []) (nat 0))
      [.define false "count" (readInput "repeated_field_array_length" [tag]),
       (f.storedCall "reserve" [var "count"]).run]).value,
     f.readElement,
     nextTag,
     (Expr.cond (.binary .ne (var "tag") tag) [(Expr.leave none).run]).value]).value]

/-- How many values to make room for, before a packed run. -/
def packedCount : Expr :=
  let counted := (var "input").on "count_packed_varints" []
  match f.strategy.category with
  | .scalar kind =>
    match kind.fixedSize with
    | some size => .binary .div (var "length") (nat size)
    | none => counted
  | _ => counted

def decodePacked : List Stmt :=
  [.define false "length" (readInput "read_length" []),
   .define false "limit" (readInput "push_limit" [var "length"]),
   (f.storedCall "reserve" [f.packedCount]).run,
   (Expr.during ((var "input").on "is_at_end" []).not [f.readElement]).value,
   ((var "input").on "pop_limit" [var "limit"]).run,
   nextTag]

/-- Reads a value that carries the primary tag. -/
def decodePrimary : List Stmt :=
  match f.strategy.cardinality with
  | .repeated true => f.decodePacked
  | .repeated false => f.decodeRun f.primaryTag
  | .singular | .oneof _ => f.decodeSingular

/-- Reads a value that carries the alternate tag. -/
def decodeAlternate? : Option (List Stmt) :=
  f.alternateTag?.map fun tag => if f.isPacked then f.decodeRun tag else f.decodePacked

/-! ### Writing -/

/-- The functions that compute the size of a scalar or enum value and write it. -/
def scalarFunctions? : Option (String × String) :=
  match f.strategy.category with
  | .scalar kind => some (kind.sizeName, kind.writeName)
  | .enum => some ("compute_enum_size_no_tag", "write_enum_no_tag")
  | .text | .blob | .message | .group => none

def values : Expr :=
  f.storedCall (if f.strategy.category == .enum then "values" else "as_slice") []

def singularValue : Expr :=
  match f.strategy.category with
  | .scalar _ | .enum => f.stored
  | .text | .blob | .message | .group =>
    if f.boxed then f.boxedOrBlank else .reference false f.stored

def writeTagStmt : Stmt :=
  ((sink "write_tag").applied [var "buf", f.tagExpr]).run

def writeValue (value : Expr) : List Stmt :=
  match f.strategy.category with
  | .group => [((sink "write_group").applied [var "buf", f.numberExpr, value]).run]
  | category =>
    [f.writeTagStmt,
     ((sink ("write_" ++ category.name ++ "_no_tag")).applied [var "buf", value]).run]

def write : List Stmt :=
  if f.isRepeated then
    match f.scalarFunctions? with
    | some (sizeName, writeName) =>
      if f.isPacked then
        [(Expr.call (sink "write_packed")
          [var "buf", f.tagExpr, f.values, sink sizeName, sink writeName] true).run]
      else
        [(Expr.each (.binding "value") f.values
          (f.writeValue (.unary .deref (var "value")))).value]
    | none =>
      [(Expr.each (.binding "value") (f.storedCall "iter" []) (f.writeValue (var "value"))).value]
  else [(Expr.cond f.has (f.writeValue f.singularValue)).value]

/-! ### Sizes -/

def tagSizeExpr : Expr :=
  nat (tagSize f.primaryTag)

/-- The size of one value, with a tag only if it is a group. -/
def valueSize (value : Expr) : Expr :=
  match f.strategy.category with
  | .group => (sink "compute_group_size").applied [f.numberExpr, value]
  | .scalar kind =>
    match kind.fixedSize with
    | some size => nat size
    | none => (sink kind.sizeName).applied [value]
  | category => (sink ("compute_" ++ category.name ++ "_size_no_tag")).applied [value]

def payloadSize (sizeName : String) : Expr :=
  let summed := (sink "compute_packed_size").applied [f.values, sink sizeName]
  match f.strategy.category with
  | .scalar kind =>
    match kind.fixedSize with
    | some size => .binary .mul (nat size) (f.values.on "len" [])
    | none => summed
  | _ => summed

def addLength (e : Expr) : Stmt :=
  (Expr.binary .addAssign (var "len") e).run

def elementSizes : Expr :=
  .method
    ((f.storedCall "iter" []).on "map" [.closure [.binding "value"] (f.valueSize (var "value"))])
    "sum" [.ofName "usize"] [] false

def size : List Stmt :=
  if f.isRepeated then
    match f.scalarFunctions? with
    | some (sizeName, _) =>
      if f.isPacked then
        [(Expr.cond (f.values.on "is_empty" []).not
          [addLength (.binary .add f.tagSizeExpr
            ((sink "compute_length_delimited_size").applied [f.payloadSize sizeName]))]).value]
      else
        [addLength (.binary .add (.binary .mul f.tagSizeExpr (f.values.on "len" []))
          (f.payloadSize sizeName))]
    | none =>
      match f.strategy.category with
      | .group => [addLength f.elementSizes]
      | _ =>
        [addLength (.binary .add (.binary .mul f.tagSizeExpr (f.storedCall "len" []))
          f.elementSizes)]
  else
    let added :=
      match f.strategy.category with
      | .group => f.valueSize f.singularValue
      | _ => .binary .add f.tagSizeExpr (f.valueSize f.singularValue)
    [(Expr.cond f.has [addLength added]).value]

end ProtoWire.Generator.FieldPlan
