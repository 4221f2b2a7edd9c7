import ProtoWire.Field.Presence
import ProtoWire.Generator.InlineGraph
import ProtoWire.Generator.Library

/-!
# Fields of generated messages

* `FieldPlan.storage`, `FieldPlan.init`, `FieldPlan.reset`, `FieldPlan.has`, `FieldPlan.equality`:
  the stored field, and code that resets, tests and compares it.
-/

namespace ProtoWire.Generator

open Code

/-- What generation knows beyond the declaration at hand. -/
structure Setting where
  options : Options
  registry : Registry
  graph : InlineGraph

def Setting.ofFiles (options : Options) (files : List FileDecl) : Setting :=
  { options, registry := .ofFiles files, graph := .ofFiles files }

/-- The names of a oneof that its members use. -/
structure OneofNames where
  /-- The stored number of the member that is set. -/
  case : String
  /-- The method that clears the oneof. -/
  clear : String
deriving DecidableEq

/-- All that the code of a field depends on. -/
structure FieldPlan where
  protoName : String
  number : UInt32
  strategy : Strategy
  /-- The name of the stored field and of its getter. -/
  ident : String
  /-- The type of a value; not used for text and bytes. -/
  element : Path
  bit : Option PresenceBit
  oneof : Option OneofNames
  /-- Whether a message is stored behind a box. -/
  boxed : Bool
  default : Option DefaultValue
  enforceHasChecks : Bool
  optionalAccessors : Bool

namespace FieldPlan

variable (f : FieldPlan)

def number? (f : FieldDecl) : Option UInt32 :=
  f.number.bind fun n => if 0 < n then some n.toUInt32 else none

def elementOf (setting : Setting) (scope : Scope) (f : FieldDecl) : Category → Generate Path
  | .scalar kind => .ok (.ofName kind.codeType)
  | .text | .blob => .ok ⟨false, []⟩
  | .enum | .message | .group =>
    setting.registry.resolve setting.options scope (f.typeName.getD "")

/-- The plan of a field declared in a message of a qualified name. -/
def ofDecl (setting : Setting) (scope : Scope) (message : String) (f : FieldDecl)
    (strategy : Strategy) (bit : Option PresenceBit) (oneof : Option OneofNames) :
    Generate FieldPlan := do
  let protoName ← orFail .missingName f.name
  let number ← orFail (.missingNumber protoName) (number? f)
  let ident ← identifier (fieldName protoName)
  let element ← elementOf setting scope f strategy.category
  let default ← (defaultValue? setting.registry f strategy.category).mapError .error
  return {
    protoName, number, strategy, ident, element, bit, oneof, default
    boxed := strategy.category.isMessageLike && !strategy.cardinality.isRepeated &&
      setting.graph.isRecursive message protoName
    enforceHasChecks := setting.options.enforceHasChecks
    optionalAccessors := setting.options.optionalAccessors }

def base : String :=
  Source.bareName f.ident

def hasName : String :=
  "has_" ++ f.base

def isRepeated : Bool :=
  f.strategy.cardinality.isRepeated

def isPacked : Bool :=
  f.strategy.cardinality.isPacked

def primaryTag : UInt32 :=
  f.strategy.primaryTag f.number

def alternateTag? : Option UInt32 :=
  f.strategy.alternateTag? f.number

/-- The names that a field takes up in its message: its storage and every method. -/
def memberNames : List String :=
  let base := f.base
  [base, "has_" ++ base, "clear_" ++ base] ++
    if f.isRepeated then
      ["add_" ++ base, base ++ "_mut"] ++
        (if f.strategy.category.isPackable then ["set_" ++ base] else [])
    else
      ["set_" ++ base] ++
        (match f.strategy.category with
          | .scalar _ => []
          | .enum => [base ++ "_value", "set_" ++ base ++ "_value"]
          | .text | .blob | .message | .group => [base ++ "_mut"]) ++
        (if f.optionalAccessors then ["try_" ++ base] else [])

/-! ### Expressions -/

def stored : Expr :=
  .ofThis f.ident

def numberExpr : Expr :=
  nat f.number.toNat

def tagExpr : Expr :=
  nat f.primaryTag.toNat

def storedCall (method : String) (args : List Expr) : Expr :=
  f.stored.on method args

def maskText (bit : PresenceBit) : String :=
  let digits := Text.hexDigits bit.mask.toNat
  "0x" ++ String.ofList (List.replicate (8 - digits.length) '0' ++ digits)

def bitWord (bit : PresenceBit) : Expr :=
  .index (.ofThis "has_bits") (toString bit.word)

def bitTest (bit : PresenceBit) : Expr :=
  .binary .ne (.paren (.binary .bitAnd (bitWord bit) (.literal (maskText bit)))) (nat 0)

def bitSet (bit : PresenceBit) : Stmt :=
  (Expr.binary .orAssign (bitWord bit) (.literal (maskText bit))).run

def bitClear (bit : PresenceBit) : Stmt :=
  (Expr.binary .andAssign (bitWord bit) (Expr.not (.literal (maskText bit)))).run

/-! ### Storage -/

def singleTy : Ty :=
  match f.strategy.category with
  | .scalar _ => f.element.toTy
  | .enum => .ofName "i32"
  | .text => textTy
  | .blob => bytesTy
  | .message | .group =>
    if f.boxed then
      optionTy ((Path.root ["std", "boxed", "Box"]).applied true [.type f.element.toTy])
    else f.element.toTy

/-- The type of the stored field. -/
def storage : Ty :=
  if f.isRepeated then
    match f.strategy.category with
    | .enum => (libraryPath "RepeatedEnum").applied false [.type f.element.toTy]
    | _ => (libraryPath "RepeatedField").applied false [.type f.singleTy]
  else f.singleTy

/-- What a new message stores. -/
def init : Expr :=
  let standard := defaultFn.applied []
  if f.isRepeated then standard
  else
    match f.default with
    | some (.text value) =>
      (item ["std", "string", "String", "from"]).applied [(DefaultValue.text value).expr]
    | some (.blob value) =>
      (item ["tightbuf", "ProtoBytes", "from"]).applied
        [(DefaultValue.blob value).expr.on "to_vec" []]
    | some value => value.expr
    | none => standard

/-- Restores the default, and keeps what is allocated. -/
def reset : List Stmt :=
  let clear := (f.storedCall "clear" []).run
  if f.isRepeated then [clear]
  else
    match f.strategy.category, f.default with
    | .scalar kind, none => [(Expr.assign f.stored (.literal kind.zeroText)).run]
    | .enum, none => [(Expr.assign f.stored (nat 0)).run]
    | .scalar _, some value | .enum, some value => [(Expr.assign f.stored value.expr).run]
    | .text, some value => [clear, (f.storedCall "push_str" [value.expr]).run]
    | .blob, some value => [(f.storedCall "copy_from" [value.expr]).run]
    | .text, none | .blob, none => [clear]
    | .message, _ | .group, _ =>
      if f.boxed then
        [(Expr.cond
          (.fits (.constructor somePath [.binding "value"]) (f.storedCall "as_deref_mut" []))
          [(messageClear.applied [var "value"]).run]).value]
      else [(messageClear.applied [.reference true f.stored]).run]

def has : Expr :=
  match f.oneof, f.bit with
  | some oneof, _ => .binary .eq (.ofThis oneof.case) f.numberExpr
  | none, some bit => bitTest bit
  | none, none => (f.storedCall "is_empty" []).not

/-- What comes before a value is stored: a member of a oneof clears another one that is set. -/
def prepare : List Stmt :=
  match f.oneof with
  | some oneof =>
    [(Expr.cond (.binary .ne (.ofThis oneof.case) f.numberExpr)
      [(this.on oneof.clear []).run]).value]
  | none => []

def markPresent : List Stmt :=
  (match f.oneof with
    | some oneof => [(Expr.assign (.ofThis oneof.case) f.numberExpr).run]
    | none => []) ++ f.bit.toList.map bitSet

def clearPresence : List Stmt :=
  match f.oneof, f.bit with
  | some oneof, _ =>
    [(Expr.cond (.binary .eq (.ofThis oneof.case) f.numberExpr)
      [(this.on oneof.clear []).run]).value]
  | none, some bit => bitClear bit :: f.reset
  | none, none => f.reset

/-- Whether the values of a field are floating-point numbers, which are compared by bit pattern. -/
def isFloat : Bool :=
  match f.strategy.category with
  | .scalar kind => kind.isFloat
  | _ => false

/-- Whether a field is equal in two messages whose presence is the same. -/
def equality : Expr :=
  let other := Expr.field (var "other") f.ident
  if f.isRepeated then
    if f.isFloat then
      let bits (name : String) : Expr := (var name).on "to_bits" []
      .paren (.binary .and
        (.binary .eq (f.storedCall "len" []) (other.on "len" []))
        (((f.storedCall "iter" []).on "zip" [other.on "iter" []]).on "all"
          [.closure [.tuple [.binding "a", .binding "b"]] (.binary .eq (bits "a") (bits "b"))]))
    else .paren (.binary .eq f.stored other)
  else
    let same :=
      if f.isFloat then .binary .eq (f.storedCall "to_bits" []) (other.on "to_bits" [])
      else .binary .eq f.stored other
    .paren (.binary .or (Expr.not (.paren f.has)) same)

end FieldPlan

end ProtoWire.Generator
