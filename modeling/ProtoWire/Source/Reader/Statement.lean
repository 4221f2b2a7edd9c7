import ProtoWire.Source.Reader.Expr

/-!
# Reading statements

* `Node.takesSemicolon`: whether an expression as a statement has a semicolon behind it.
* `Reader.stmt`, `Reader.stmts`: a statement, and those of a block.
-/

namespace ProtoWire.Source

namespace Node

/-- Whether an expression as a statement has a semicolon behind it. -/
def takesSemicolon (node : Node) : Bool :=
  match node.bare with
  | .expansion _ bracket _ => bracket != .curly
  | _ => node.takesComma

def attachAttributes (attributes : List Node) : Node → Node
  | .assign target value => .assign (target.attachAttributes attributes) value
  | .binary op left right => .binary op (left.attachAttributes attributes) right
  | .cast operand type => .cast (operand.attachAttributes attributes) type
  | node => node.withAttributes attributes

end Node

namespace Reader

open Read

variable (read : Reader)

def startsDecl (trees : List TokenTree) : Bool :=
  let behind := trees.tail
  startsAny ["pub", "extern", "use", "fn", "mod", "type", "struct", "enum", "trait", "impl",
    "macro"] trees ||
    (startsWord "crate" trees && !startsMarks "::" behind) ||
    (startsWord "static" trees && (startsWord "mut" behind || startsName behind)) ||
    (startsWord "const" trees &&
      !(startsGroup .curly behind || startsAny ["static", "move"] behind ||
        startsMarks "|" behind ||
        (startsWord "async" behind && !startsAny ["unsafe", "extern", "fn"] behind.tail))) ||
    (startsWord "unsafe" trees && !startsGroup .curly behind) ||
    (startsWord "async" trees && startsAny ["unsafe", "extern", "fn"] behind) ||
    (startsWord "union" trees && startsName behind) ||
    (startsWord "auto" trees && startsWord "trait" behind) ||
    (startsWord "default" trees && startsAny ["unsafe", "impl"] behind)

/-- What a path with an exclamation mark is, at the start of a statement. -/
inductive ExpansionKind where
  | none
  /-- The declaration of something to be expanded. -/
  | decl
  /-- A call that ends the statement. -/
  | whole
deriving DecidableEq

def expansionKind : Read ExpansionKind := fun place =>
  some (match plainPath place with
    | some (_, behind) =>
      match behind.ahead with
      | .mark '!' _ :: rest =>
        if startsName rest || startsWord "try" rest then .decl
        else if startsGroup .curly rest && !(startsDot rest.tail || startsMarks "?" rest.tail) then
          .whole
        else .none
      | _ => .none
    | none => .none, place)

def define : Read Node := do
  word "let"
  let single ← read .pattern
  let pattern ← if ← takesMark ":" then pure (.typed single (← read (.type true)))
    else pure single
  if ← takesMark "=" then
    let value ← read (.expr true)
    let isClosed ← endsInCurly
    let otherwise ←
      if !isClosed && (← takesWord "else") then some <$> plainBody read else pure none
    mark ";"
    return .define pattern (some value) otherwise
  mark ";"
  return .define pattern none none

/-- Reads a call that is expanded and ends a statement. -/
def wholeExpansion : Read Node := do
  let (rooted, names) ← plainPath
  let call ← expansion (pathOf rooted names)
  return .expand call (← takesMark ";")

/-- Reads an expression as a statement, behind attributes that start at a place. -/
def exprStmt (start : Place) (attributes : List Node) : Read Node := do
  let value := (← behindAttributes start (early read)).attachAttributes attributes
  let semicolon ← takesMark ";"
  match value with
  | .expansion _ bracket _ =>
    if semicolon || bracket = .curly then return .expand value semicolon
    return .run value semicolon
  | .attributed attributes (.expansion found bracket inner) =>
    if semicolon || bracket = .curly then
      return .attributed attributes (.expand (.expansion found bracket inner) semicolon)
    return .run value semicolon
  | _ => return .run value semicolon

def stmt : Read Node := do
  let start ← get
  let attributes ← outerAttributes read
  let kind ← expansionKind
  if kind = .whole then return (← wholeExpansion).withAttributes attributes
  if ← sees (startsWord "let") then return (← define read).withAttributes attributes
  if kind = .decl || (← sees startsDecl) then
    set start
    return ← read .decl
  exprStmt read start attributes

/-- Whether a statement has to be the last of a block. -/
def isLastStmt : Node → Bool
  | .run value false => value.takesSemicolon
  | _ => false

/-- Reads statements up to the end. Every statement takes a tree, hence the fuel. -/
def stmtsWithin : (fuel : Nat) → Read (List Node)
  | 0 => failure
  | fuel + 1 => do
    if ← atEnd then return []
    if ← takesMark ";" then return .nothing :: (← stmtsWithin fuel)
    let first ← stmt read
    guard (!isLastStmt first || (← atEnd))
    return first :: (← stmtsWithin fuel)

def stmts : Read Node := do
  return .body [] (← stmtsWithin read ((← ahead).length + 1))

end Reader

end ProtoWire.Source
