import ProtoWire.Generator.Codec
import ProtoWire.Generator.Enum
import ProtoWire.Generator.Oneof

/-!
# Generated messages

* `MessagePlan`, `MessagePlan.ofDecl`: the fields and oneofs of a message, with their presence bits.
* `MessagePlan.mergeBody`: the loop that reads a message, as a plain dispatch or as a chain of
  fields in the expected order.
-/

namespace ProtoWire.Generator

open Code

/-- All that the code of a message depends on. -/
structure MessagePlan where
  ident : String
  fields : List FieldPlan
  oneofs : List OneofPlan
  wordCount : Nat
  order : FieldOrder

/-! ### Names -/

def reservedMembers : List String :=
  ["new", "default_instance", "has_bits", "merge_from", "merge_from_bytes", "parse_from",
   "write_to", "encoded_len", "to_vec", "clear", "clone", "eq", "ne"]

/-- The owner and reason of the first member that is reserved, or that an earlier one has taken. -/
def clashFrom (taken : List (String × String)) : List (String × String) → Option (String × String)
  | [] => none
  | (member, owner) :: rest =>
    if reservedMembers.contains member then
      some (owner, "generated member `" ++ member ++ "` is already defined on every message")
    else
      match taken.lookup member with
      | some other =>
        some (owner, "generated member `" ++ member ++ "` is also generated for `" ++ other ++ "`")
      | none => clashFrom ((member, owner) :: taken) rest

def ownedMembers (fields : List FieldPlan) (oneofs : List OneofPlan) : List (String × String) :=
  (fields.flatMap fun f => f.memberNames.map fun member => (member, f.protoName)) ++
    oneofs.flatMap fun o => o.memberNames.map fun member => (member, o.base)

/-- The owner and reason of the first clash among the members of a message. -/
def memberClash? (fields : List FieldPlan) (oneofs : List OneofPlan) : Option (String × String) :=
  clashFrom [] (ownedMembers fields oneofs)

namespace MessagePlan

variable (plan : MessagePlan)

/-! ### Plans -/

def oneofNames? (oneofs : List OneofPlan) (strategy : Strategy) : Option OneofNames :=
  match strategy.cardinality with
  | .oneof index => (oneofs.find? (·.index == index)).map (·.names)
  | .singular | .repeated _ => none

def planFields (setting : Setting) (scope : Scope) (message : String) (oneofs : List OneofPlan) :
    List (FieldDecl × Strategy × Option PresenceBit) → Generate (List FieldPlan)
  | [] => .ok []
  | (f, strategy, bit) :: rest => do
    let plan ←
      FieldPlan.ofDecl setting scope message f strategy bit (oneofNames? oneofs strategy)
    let plans ← planFields setting scope message oneofs rest
    return plan :: plans

def ofDecl (setting : Setting) (scope : Scope) (isProto3 : Bool) (m : MessageDecl) :
    Generate MessagePlan := do
  let name ← orFail .missingName m.name
  let ident ← identifier (typeName name)
  let strategies ← (m.fields.mapM (classify name · isProto3)).mapError .error
  let bits := allocate (strategies.map (·.cardinality)) m.oneofs.length
  let oneofs ← OneofPlan.collect m bits
  let fields ← planFields setting scope (scope.qualify name) oneofs
    (m.fields.zip (strategies.zip bits.fields))
  match memberClash? fields oneofs with
  | some (owner, reason) => fail (.unhandled name owner reason)
  | none =>
    return { ident, fields, oneofs, wordCount := bits.wordCount, order := setting.options.order }

def ordered : List FieldPlan :=
  plan.order.arrange (·.number) plan.fields

/-! ### Reading -/

def tagArm (tag : UInt32) (body : Expr) : Arm :=
  .mk (.literal false (toString tag.toNat)) body

/-- The arms for tags that are no field's primary one: other forms of repeated fields, the end, and
unknown fields. -/
def otherArms (fields : List FieldPlan) (goOn : List Stmt) : List Arm :=
  let alternates := fields.filterMap fun f =>
    match f.alternateTag?, f.decodeAlternate? with
    | some tag, some body => some (tagArm tag (.block none (body ++ goOn)))
    | _, _ => none
  alternates ++
    [tagArm 0 (.result okUnit),
     .mk .wild (.block none
      ([(Expr.cond (Expr.not (FieldPlan.readInput "skip_field" [var "tag"]))
          [(Expr.result okUnit).run]).value,
        FieldPlan.nextTag] ++ goOn))]

def firstTag : Stmt :=
  .define true "tag" (FieldPlan.readInput "read_tag" [])

def dispatchLoop (fields : List FieldPlan) : List Stmt :=
  let arms := fields.map fun f => tagArm f.primaryTag (.block none f.decodePrimary)
  [firstTag, (Expr.loop none [(Expr.select (var "tag") (arms ++ otherArms fields [])).value]).value]

def label (f : FieldPlan) : String :=
  "'field_" ++ toString f.number.toNat

def goOn : Stmt :=
  (Expr.again (some "'merge")).run

/-- Statements with fields behind them. Leaving the labelled block of a field runs that field, and
those behind it for as long as the next tag is theirs. -/
def chain (inner : List Stmt) : List FieldPlan → List Stmt
  | [] => inner
  | f :: rest =>
    let next := match rest with
      | g :: _ =>
        [(Expr.cond (.binary .ne (var "tag") (nat g.primaryTag.toNat)) [goOn]).value]
      | [] => []
    chain ((Expr.block (some (label f)) inner).value :: f.decodePrimary ++ next) rest

def chainLoop (fields : List FieldPlan) : List Stmt :=
  let entries := fields.map fun f => tagArm f.primaryTag (.leave (some (label f)))
  let entry := (Expr.select (var "tag") (entries ++ otherArms fields [goOn])).value
  [firstTag, (Expr.loop (some "'merge") (chain [entry] fields)).value]

def mergeBody : List Stmt :=
  if plan.order == .unordered || plan.fields.isEmpty then dispatchLoop plan.ordered
  else chainLoop plan.ordered

/-! ### Declarations -/

def whenBits {α : Type} (value : α) : List α :=
  if 0 < plan.wordCount then [value] else []

def zeroBits : Expr :=
  .replicate (nat 0) (toString plan.wordCount)

def storage : List (String × Ty) :=
  plan.whenBits ("has_bits", .array (.ofName "u32") plan.wordCount) ++
    plan.fields.map (fun f => (f.ident, f.storage)) ++
    plan.oneofs.map fun o => (o.names.case, .ofName "u32")

def inits : List (String × Expr) :=
  plan.whenBits ("has_bits", plan.zeroBits) ++
    plan.fields.map (fun f => (f.ident, f.init)) ++
    plan.oneofs.map fun o => (o.names.case, nat 0)

def methods : List Function :=
  plan.fields.flatMap FieldPlan.accessors ++
    plan.oneofs.flatMap fun o => o.methods (plan.fields.filter o.hasMember)

/-- The terms that must all hold for two messages to be equal. -/
def equalityTerms : List Expr :=
  let same (name : String) : Expr := .binary .eq (.ofThis name) (.field (var "other") name)
  plan.whenBits (same "has_bits") ++ plan.oneofs.map (fun o => same o.names.case) ++
    plan.fields.map FieldPlan.equality

def equalityMethod : Function :=
  let method (param : String) (test : Expr) : Function :=
    { isPublic := false, name := "eq", params := [(param, .ref .self)]
      result := some (.ofName "bool"), body := [test.value] }
  match plan.equalityTerms with
  | [] => method "_other" (.literal "true")
  | first :: rest => method "other" (rest.foldl (.binary .and) first)

def mergeMethod : Function :=
  { isPublic := false, name := "merge_from", receiver := some .exclusive
    params := [("input", .refMut ((libraryPath "ProtoSource").applied false [.lifetime "'_"]))]
    trailingComma := true
    result := some ((Path.root ["core", "result", "Result"]).applied false
      [.type .unit, .type (libraryPath "DecodeError").toTy])
    body := plan.mergeBody }

def writeMethod : Function :=
  { isPublic := false, name := "write_to"
    generics := [("B", .root ["tightbuf", "bytes", "BufMut"])]
    params := [(if plan.fields.isEmpty then "_buf" else "buf", .refMut (.ofName "B"))]
    body := plan.ordered.flatMap FieldPlan.write }

def sizeMethod : Function :=
  { isPublic := false, name := "encoded_len", result := some (.ofName "usize")
    body :=
      if plan.fields.isEmpty then [(nat 0).value]
      else
        .define true "len" (nat 0) :: plan.ordered.flatMap FieldPlan.size ++
          [(var "len").value] }

def clearMethod : Function :=
  { isPublic := false, name := "clear", receiver := some .exclusive
    body := plan.whenBits (Expr.assign (.ofThis "has_bits") plan.zeroBits).run ++
      plan.oneofs.map (fun o => (Expr.assign (.ofThis o.names.case) (nat 0)).run) ++
      plan.fields.flatMap FieldPlan.reset }

def constructors : List Function :=
  let type := Ty.ofName plan.ident
  [{ name := "new", receiver := none, result := some .self
     body := [(defaultFn.applied []).value] },
   { attributes := [.doc "A shared instance with every field unset."], name := "default_instance"
     receiver := none, result := some (.reference (some "'static") false type)
     body :=
      [.shared "DEFAULT" ((Path.root ["std", "sync", "OnceLock"]).applied false [.type type])
        ((item ["std", "sync", "OnceLock", "new"]).applied []),
       ((var "DEFAULT").on "get_or_init"
        [.path ((Path.ofName plan.ident).child "new")]).value] }]

def items : List Item :=
  let type := Ty.ofName plan.ident
  [.struct [.list "derive" ["Debug", "Clone"]] plan.ident plan.storage,
   .implementation [] (some (.root ["core", "default", "Default"])) type
    [.function
      { isPublic := false, name := "default", receiver := none, result := some .self
        body := [(Expr.record (.ofName "Self") plan.inits).value] }],
   .implementation [] none type ((plan.constructors ++ plan.methods).map .function),
   .implementation [] (some (.root ["core", "cmp", "PartialEq"])) type
    [.function plan.equalityMethod],
   .implementation [] (some (libraryPath "ProtoMessage")) type
    ([plan.mergeMethod, plan.writeMethod, plan.sizeMethod, plan.clearMethod].map .function)]

end MessagePlan

/-! ### Nested declarations -/

def enumsItems : List EnumDecl → Generate (List Item)
  | [] => .ok []
  | e :: rest => do
    let items ← enumItems e
    let more ← enumsItems rest
    return items ++ more

def nestedModule (name : String) (nested : List Item) : Generate (List Item) :=
  if nested.isEmpty then .ok []
  else do
    let ident ← identifier (moduleName name)
    return [.submodule ident nested]

mutual

/-- The code of a message, and a module with the types nested in it. -/
def messageItems (setting : Setting) (scope : Scope) (isProto3 : Bool) :
    MessageDecl → Generate (List Item)
  | ⟨name, fields, messages, enums, options, oneofs⟩ => do
    let plan ←
      MessagePlan.ofDecl setting scope isProto3 ⟨name, fields, messages, enums, options, oneofs⟩
    let name := name.getD ""
    let nestedEnums ← enumsItems enums
    let nestedMessages ← messagesItems setting (scope.nested name) isProto3 messages
    let nested ← nestedModule name (nestedEnums ++ nestedMessages)
    return plan.items ++ nested

def messagesItems (setting : Setting) (scope : Scope) (isProto3 : Bool) :
    List MessageDecl → Generate (List Item)
  | [] => .ok []
  | m :: rest => do
    let items ← messageItems setting scope isProto3 m
    let more ← messagesItems setting scope isProto3 rest
    return items ++ more

end

end ProtoWire.Generator
