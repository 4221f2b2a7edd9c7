import ProtoWire.Generator.Field

/-!
# Accessors of fields

* `FieldPlan.accessors`: the methods of a field, in the order they are written.
-/

namespace ProtoWire.Generator.FieldPlan

open Code

variable (f : FieldPlan)

/-- A parameter of the name `value`. -/
def valueParam (type : Ty) : List (String × Ty) :=
  [("value", type)]

/-- A method that changes the message and answers it. -/
def mutator (name : String) (params : List (String × Ty)) (body : List Stmt) : Function :=
  { name, receiver := some .exclusive, params, result := some (.refMut .self)
    body := body ++ [this.value] }

def getter (name : String) (result : Ty) (body : List Stmt) : Function :=
  { name, result := some result, body }

/-- A method that answers a part of the message for change. -/
def partGetter (name : String) (result : Ty) (body : List Stmt) : Function :=
  { name, receiver := some .exclusive, result := some (.refMut result), body }

def hasMethod (test : Expr) : Function :=
  { getter f.hasName (.ofName "bool") [test.value] with attributes := [.flag "inline"] }

/-- The check that a getter makes first, if checks are asked for. -/
def hasCheck : List Stmt :=
  if f.enforceHasChecks then
    [.check (this.on f.hasName []) ("field `" ++ f.protoName ++ "` is not set")]
  else []

def madeBox : Expr :=
  f.storedCall "get_or_insert_with" [defaultFn]

def boxedOrBlank : Expr :=
  (f.storedCall "as_deref" []).on "unwrap_or_else"
    [.closure [] ((Expr.path (f.element.child "default_instance")).applied [])]

/-- The type that the getter of a singular field answers. -/
def readTy : Ty :=
  match f.strategy.category with
  | .scalar _ | .enum => f.element.toTy
  | .text => .ref (.ofName "str")
  | .blob => byteSliceTy
  | .message | .group => .ref f.element.toTy

def readExpr : Expr :=
  match f.strategy.category with
  | .scalar _ => f.stored
  | .enum =>
    let known := (fromNumber f.element).applied [f.stored]
    match f.default with
    | some value =>
      known.on "unwrap_or_else"
        [.closure [] (.block none
          [(((fromNumber f.element).applied [value.expr]).on "unwrap_or_default" []).value])]
    | none => known.on "unwrap_or_default" []
  | .text | .blob => .reference false f.stored
  | .message | .group => if f.boxed then f.boxedOrBlank else .reference false f.stored

/-- The getters of a singular field; an enum has a second one for the number. -/
def getters : List Function :=
  getter f.ident f.readTy (f.hasCheck ++ [f.readExpr.value]) ::
    match f.strategy.category with
    | .enum =>
      [{ getter (f.base ++ "_value") (.ofName "i32") [f.stored.value] with
          attributes :=
            [.doc "The raw value, including values this schema does not declare."] }]
    | _ => []

/-- The type that the setter of a singular field takes. -/
def writeTy : Ty :=
  match f.strategy.category with
  | .text => .ref (.ofName "str")
  | .blob => byteSliceTy
  | .scalar _ | .enum | .message | .group => f.element.toTy

def storeStmts : List Stmt :=
  match f.strategy.category with
  | .text => [(f.storedCall "clear" []).run, (f.storedCall "push_str" [var "value"]).run]
  | .blob => [(f.storedCall "copy_from" [var "value"]).run]
  | .scalar _ | .enum => [(Expr.assign f.stored (var "value")).run]
  | .message | .group =>
    if f.boxed then
      [(Expr.assign (.unary .deref (.unary .deref f.madeBox)) (var "value")).run]
    else [(Expr.assign f.stored (var "value")).run]

/-- The setters of a singular field; an enum has a second one for the number. -/
def setters : List Function :=
  let store := f.prepare ++ f.storeStmts ++ f.markPresent
  match f.strategy.category with
  | .enum =>
    let setValue := "set_" ++ f.base ++ "_value"
    [{ name := "set_" ++ f.base, receiver := some .exclusive, params := valueParam f.writeTy
       result := some (.refMut .self)
       body := [(this.on setValue
        [(item ["tightbuf", "ProtoEnum", "value"]).applied [var "value"]]).value] },
     mutator setValue (valueParam (.ofName "i32")) store]
  | _ => [mutator ("set_" ++ f.base) (valueParam f.writeTy) store]

/-- The method that answers the stored part of a singular field for change. -/
def partGetters : List Function :=
  let name := f.base ++ "_mut"
  let ready := f.prepare ++ f.markPresent
  match f.strategy.category with
  | .scalar _ | .enum => []
  | .text => [partGetter name textTy (ready ++ [(Expr.reference true f.stored).value])]
  | .blob => [partGetter name bytesTy (ready ++ [(Expr.reference true f.stored).value])]
  | .message | .group =>
    [partGetter name f.element.toTy
      (ready ++ [(if f.boxed then f.madeBox else .reference true f.stored).value])]

/-- The getter that answers nothing for an absent field. -/
def tryGetters : List Function :=
  if f.optionalAccessors then
    [getter ("try_" ++ f.base) (optionTy f.readTy)
      [(Expr.either (this.on f.hasName [])
        [((Expr.path somePath).applied [this.on f.ident []]).value]
        [noneExpr.value]).value]]
  else []

def clearMethod : Function :=
  mutator ("clear_" ++ f.base) [] f.clearPresence

def singularAccessors : List Function :=
  f.hasMethod f.has :: f.getters ++ f.tryGetters ++ f.setters ++ f.partGetters ++ [f.clearMethod]

def repeatedMutators : List Function :=
  let add (type : Ty) (call : Expr) : Function :=
    mutator ("add_" ++ f.base) (valueParam type) [call.run]
  let replace (body : List Stmt) : Function :=
    { mutator ("set_" ++ f.base) [("values", .ref (.slice f.element.toTy))] body with
      attributes := [.doc "Replace every value."] }
  let plain := add f.element.toTy (f.storedCall "add" [var "value"])
  match f.strategy.category with
  | .scalar _ => [plain, replace [(f.storedCall "copy_from" [var "values"]).run]]
  | .enum =>
    [plain, replace
      [(f.storedCall "clear" []).run,
       (Expr.each (.binding "value") (var "values")
        [(f.storedCall "add" [.unary .deref (var "value")]).run]).value]]
  | .text =>
    [add (.ref (.ofName "str"))
      ((f.storedCall "push_recycled" [item ["std", "string", "String", "clear"]]).on "push_str"
        [var "value"])]
  | .blob =>
    [add byteSliceTy
      ((f.storedCall "push_recycled" [item ["tightbuf", "ProtoBytes", "clear"]]).on "copy_from"
        [var "value"])]
  | .message | .group => [plain]

def repeatedAccessors : List Function :=
  [f.hasMethod (f.storedCall "is_empty" []).not,
   getter f.ident (.ref f.storage) [(Expr.reference false f.stored).value],
   partGetter (f.base ++ "_mut") f.storage [(Expr.reference true f.stored).value]] ++
    f.repeatedMutators ++ [mutator ("clear_" ++ f.base) [] [(f.storedCall "clear" []).run]]

def accessors : List Function :=
  if f.isRepeated then f.repeatedAccessors else f.singularAccessors

end ProtoWire.Generator.FieldPlan
