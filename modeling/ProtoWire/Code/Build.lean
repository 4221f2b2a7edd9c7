import ProtoWire.Code.Tree

/-!
# Building code

Short forms of the trees that generators use most.
-/

namespace ProtoWire.Code

namespace Path

def ofName (name : String) : Path :=
  ⟨false, [.name name]⟩

def root (names : List String) : Path :=
  ⟨true, names.map .name⟩

def child (p : Path) (name : String) : Path :=
  { p with segments := p.segments ++ [.name name] }

def toTy (p : Path) : Ty :=
  .named p.rooted p.segments

/-- A path with generic arguments on its last segment, as a type. -/
def applied (p : Path) (glued : Bool) (args : List GenericArg) : Ty :=
  match p.segments.getLast? with
  | some (.name name) => .named p.rooted (p.segments.dropLast ++ [.generic name glued args])
  | _ => p.toTy

end Path

namespace Ty

def ofName (name : String) : Ty :=
  (Path.ofName name).toTy

def self : Ty :=
  .ofName "Self"

def ref (target : Ty) : Ty :=
  .reference none false target

def refMut (target : Ty) : Ty :=
  .reference none true target

end Ty

def var (name : String) : Expr :=
  .path (.ofName name)

def item (names : List String) : Expr :=
  .path (.root names)

def this : Expr :=
  var "self"

def nat (n : Nat) : Expr :=
  .literal (toString n)

namespace Expr

def ofThis (name : String) : Expr :=
  .field this name

def applied (function : Expr) (args : List Expr) : Expr :=
  .call function args false

def on (receiver : Expr) (name : String) (args : List Expr) : Expr :=
  .method receiver name [] args false

def not (operand : Expr) : Expr :=
  .unary .not operand

def run (e : Expr) : Stmt :=
  .expr e true

def value (e : Expr) : Stmt :=
  .expr e false

end Expr

end ProtoWire.Code
