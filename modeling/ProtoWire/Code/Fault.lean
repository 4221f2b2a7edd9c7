import ProtoWire.Code.Tree
import ProtoWire.Source.Name

/-!
# Faults of generated code

Code whose names come from a schema need not be well formed: a declaration may have a keyword or a
bare underscore for its name, or a configured path may mean something else in an expression.
-/

namespace ProtoWire.Code

open Source (isKeyword misplaced)

/-- What is wrong with the name of a declaration. -/
def nameFault? (name : String) : Option String :=
  if isKeyword name || name == "_" then some (misplaced name) else none

/-- What is wrong with the name of a field. A bare underscore can be declared, but not be given a
value. -/
def fieldFault? (name : String) : Option String :=
  if name == "_" then some "expected identifier or integer" else nameFault? name

/-- What is wrong with the name of a constant. A bare underscore is none, and one keyword makes it
the start of a function. -/
def constantFault? (name : String) : Option String :=
  if name == "fn" then some "expected identifier"
  else if isKeyword name then some "expected identifier or `_`"
  else none

def Member.fault? : Member → Option String
  | function f => nameFault? f.name
  | constant name _ _ => constantFault? name

mutual

/-- What is wrong with the names that a declaration brings in, in order. -/
def Item.faults : Item → List String
  | .struct _ name fields => (nameFault? name).toList ++ fields.filterMap (fieldFault? ·.1)
  | .enum _ name variants => (nameFault? name).toList ++ variants.filterMap (nameFault? ·.1)
  | .implementation _ _ _ members => members.filterMap Member.fault?
  | .submodule name items => (nameFault? name).toList ++ itemsFaults items

/-- What is wrong with the names that declarations bring in. -/
def itemsFaults : List Item → List String
  | [] => []
  | i :: rest => i.faults ++ itemsFaults rest

end

/-- What is wrong with declarations that are not well formed: a name, or else a path in an
expression. -/
def itemsFault (items : List Item) : String :=
  (itemsFaults items).head?.getD "comparison operators cannot be chained"

end ProtoWire.Code
