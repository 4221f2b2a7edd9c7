import ProtoWire.Generator.Field

/-!
# Oneofs of generated messages

Only a oneof that has members becomes code: methods that inspect and clear it.
-/

namespace ProtoWire.Generator

open Code

/-- All that the code of a oneof depends on. -/
structure OneofPlan where
  /-- Its place in the message. -/
  index : Nat
  /-- Its name without escape mark. -/
  base : String
  bit : PresenceBit
  names : OneofNames

namespace OneofPlan

/-- The plan of a declared oneof, unless it has no members. -/
def ofDecl? (index : Nat) (o : OneofDecl) (bit : Option PresenceBit) :
    Generate (Option OneofPlan) :=
  match bit with
  | none => .ok none
  | some bit => do
    let name ← orFail .missingName o.name
    let base := Source.bareName (fieldName name)
    let case ← identifier (base ++ "_case")
    let clear ← identifier ("clear_" ++ base)
    return some { index, base, bit, names := { case, clear } }

def collectFrom (bits : List (Option PresenceBit)) (index : Nat) :
    List OneofDecl → Generate (List OneofPlan)
  | [] => .ok []
  | o :: rest => do
    let plan? ← ofDecl? index o ((bits[index]?).join)
    let plans ← collectFrom bits (index + 1) rest
    return plan?.toList ++ plans

def collect (m : MessageDecl) (bits : BitAllocation) : Generate (List OneofPlan) :=
  collectFrom bits.oneofs 0 m.oneofs

def memberNames (o : OneofPlan) : List String :=
  [o.base ++ "_case", "has_" ++ o.base, "clear_" ++ o.base]

def hasMember (o : OneofPlan) (f : FieldPlan) : Bool :=
  f.strategy.cardinality == .oneof o.index

/-- The methods that inspect and clear a oneof with some members. -/
def methods (o : OneofPlan) (members : List FieldPlan) : List Function :=
  let case := Expr.ofThis o.names.case
  let arms := members.map fun f =>
    Arm.mk (.literal false (toString f.number.toNat)) (.block none f.reset)
  [{ attributes := [.doc "Field number of the member that is set, or 0.", .flag "inline"]
     name := o.names.case, result := some (.ofName "u32"), body := [case.value] },
   { attributes := [.flag "inline"], name := "has_" ++ o.base, result := some (.ofName "bool")
     body := [(FieldPlan.bitTest o.bit).value] },
   { attributes := [.doc "Clear whichever member is set."]
     name := o.names.clear, receiver := some .exclusive, result := some (.refMut .self)
     body := [(Expr.select case (arms ++ [.mk .wild (.block none [])])).value,
       (Expr.assign case (nat 0)).run, FieldPlan.bitClear o.bit, this.value] }]

end OneofPlan

end ProtoWire.Generator
