import ProtoWire.Code.Path
import ProtoWire.Descriptor.Decl
import ProtoWire.Generator.Name
import ProtoWire.Generator.Options

/-!
# Declared types and where they are found

Each package becomes a module, and packages are siblings. The types nested in a message are in a
module of their own below it.
-/

namespace ProtoWire.Generator

/-- The place where code is being written. -/
structure Scope where
  /-- The module of the package. -/
  module : String
  /-- How many message modules deep. -/
  depth : Nat
  /-- The qualified name of the enclosing message, or of the package. -/
  protoPath : String
deriving DecidableEq

namespace Scope

def file (module package : String) : Scope :=
  { module, depth := 0, protoPath := if package == "" then "" else "." ++ package }

def qualify (scope : Scope) (name : String) : String :=
  scope.protoPath ++ "." ++ name

def nested (scope : Scope) (name : String) : Scope :=
  { scope with depth := scope.depth + 1, protoPath := scope.qualify name }

end Scope

/-! ### Modules of files -/

/-- The last part of a path that names something: empty parts and dots for the same place are
passed over, and a step upwards, or nothing, has no name. -/
def baseName? (path : String) : Option String :=
  let parts := (Text.split '/' path).filter fun part => part != "" && part != "."
  match parts.getLast? with
  | some last => if last == ".." then none else some last
  | none => none

/-- A file name up to its last dot. A dot in front is part of the name. -/
def stem (name : String) : String :=
  let reversed := name.toList.reverse
  match reversed.dropWhile (· != '.') with
  | _ :: c :: rest => String.ofList (c :: rest).reverse
  | _ => name

/-- The module of a file: its package with underscores for dots, or the stem of its name. -/
def fileModule (f : FileDecl) : String :=
  match f.package with
  | some package =>
    if package != "" then String.ofList (package.toList.map fun c => if c == '.' then '_' else c)
    else unpackaged
  | none => unpackaged
where
  unpackaged : String :=
    match baseName? (f.name.getD "unknown") with
    | some name => snakeCase (stem name)
    | none => "unknown"

def Scope.ofFile (f : FileDecl) : Scope :=
  Scope.file (fileModule f) (f.package.getD "")

/-! ### The registry -/

/-- What a declared type is. -/
inductive TypeKind where
  | message
  | enum (values : List (String × Int32))
deriving DecidableEq

structure TypeInfo where
  /-- The module of its package. -/
  module : String
  /-- The path below that module. -/
  path : List String
  kind : TypeKind
deriving DecidableEq

/-- Every declared type by its qualified name, in the order of declaration. -/
abbrev Registry := List (String × TypeInfo)

/-- The named numbers of an enum; a value that lacks either is left out. -/
def namedValues (e : EnumDecl) : List (String × Int32) :=
  e.values.filterMap fun v =>
    match v.name, v.number with
    | some name, some number => some (name, number)
    | _, _ => none

def registerEnum (scope : Scope) (parents : List String) (e : EnumDecl) : Registry :=
  match e.name with
  | some name =>
    [(scope.qualify name,
      { module := scope.module, path := parents ++ [typeName name],
        kind := .enum (namedValues e) })]
  | none => []

mutual

/-- The entries of a message and of everything declared inside it. Without a name there are none. -/
def registerMessage (scope : Scope) (parents : List String) : MessageDecl → Registry
  | ⟨some name, _, messages, enums, _, _⟩ =>
    (scope.qualify name,
      { module := scope.module, path := parents ++ [typeName name], kind := .message }) ::
      (registerMessages (scope.nested name) (parents ++ [moduleName name]) messages ++
        enums.flatMap (registerEnum (scope.nested name) (parents ++ [moduleName name])))
  | ⟨none, _, _, _, _, _⟩ => []

def registerMessages (scope : Scope) (parents : List String) : List MessageDecl → Registry
  | [] => []
  | m :: rest => registerMessage scope parents m ++ registerMessages scope parents rest

end

def registerFile (f : FileDecl) : Registry :=
  let scope := Scope.ofFile f
  registerMessages scope [] f.messages ++ f.enums.flatMap (registerEnum scope [])

namespace Registry

def ofFiles (files : List FileDecl) : Registry :=
  files.flatMap registerFile

/-- The type of a qualified name. Of several, the latest counts. -/
def find? (registry : Registry) (name : String) : Option TypeInfo :=
  registry.reverse.lookup name

def enumValues? (registry : Registry) (name : String) : Option (List (String × Int32)) :=
  match registry.find? name with
  | some { kind := .enum values, .. } => some values
  | _ => none

end Registry

/-- The segments of the path of a type as seen from a scope: up to the package, over to another one
if need be, and down. -/
def TypeInfo.segmentsFrom (info : TypeInfo) (scope : Scope) : List String :=
  List.replicate scope.depth "super" ++
    (if info.module == scope.module then [] else ["super", info.module]) ++ info.path

/-- The path of a type as seen from a scope, or as configured for a type defined elsewhere. -/
def Registry.resolve (registry : Registry) (options : Options) (scope : Scope) (name : String) :
    Generate Code.Path :=
  match options.externPaths.lookup name with
  | some text => orFail (.illFormedCode (Code.pathFault text)) (Code.Path.read? text)
  | none => do
    let info ← orFail (.unresolvedType name) (registry.find? name)
    let names := info.segmentsFrom scope
    orFail (.illFormedCode (Code.pathFault ("::".intercalate names))) (Code.Path.ofNames? names)

end ProtoWire.Generator
