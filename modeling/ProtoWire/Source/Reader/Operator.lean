import ProtoWire.Source.Reader.Pattern

/-!
# Reading operators

Operators behind an expression are read by how tightly they bind.
-/

namespace ProtoWire.Source

namespace Level

/-- An operator that assigns. -/
def assign : Level := 1

/-- The dots of a range. -/
def range : Level := 2

/-- A comparison. Comparisons do not associate. -/
def compare : Level := 6

/-- A change of type. -/
def cast : Level := 13

end Level

/-- The operators of two operands with their levels, a longer one before those that it starts
with. -/
def binaryOps : List (String × Level) :=
  [("+=", 1), ("-=", 1), ("*=", 1), ("/=", 1), ("%=", 1), ("^=", 1), ("&=", 1), ("|=", 1),
   ("<<=", 1), (">>=", 1), ("&&", 4), ("||", 3), ("<<", 10), (">>", 10), ("==", 6), ("<=", 6),
   ("!=", 6), (">=", 6), ("+", 11), ("-", 11), ("*", 12), ("/", 12), ("%", 12), ("^", 8), ("&", 9),
   ("|", 7), ("<", 6), (">", 6)]

def binaryOp? (trees : List TokenTree) : Option (String × Level) :=
  binaryOps.find? fun (op, _) => startsMarks op trees

def levelAhead (trees : List TokenTree) : Level :=
  match binaryOp? trees with
  | some (_, level) => level
  | none =>
    if startsMarks "=" trees && !startsMarks "=>" trees then .assign
    else if startsMarks ".." trees then .range
    else if startsWord "as" trees then .cast
    else 0

namespace Reader

open Read

variable (read : Reader)

/-- Reads on with operators that bind more tightly than one of a level. Every round takes a tree,
hence the fuel. -/
def tighter (braces : Bool) (level : Level) (operand : Node) :
    (fuel : Nat) → Read Node
  | 0 => failure
  | fuel + 1 => do
    let trees ← ahead
    let next := levelAhead trees
    if level < next || (next == level && level == .assign) then
      let more ← read (.operators braces next operand)
      -- A range is not read on with, whatever follows it.
      if (← ahead).length == trees.length then return more
      tighter braces level more fuel
    else return operand

/-- Reads what stands behind an operator of a level. -/
def operand (braces : Bool) (level : Level) : Read Node := do
  let first ← read (.unary braces)
  tighter read braces level first ((← ahead).length + 1)

def endsRange (braces : Bool) (trees : List TokenTree) : Bool :=
  trees.isEmpty || (startsMarks "." trees && !startsMarks ".." trees) ||
    (!braces && startsGroup .curly trees) || startsWord "as" trees ||
    [",", ";", "?", "=>", "=", "+", "/", "%", "^", ">", "<=", "!=", "-=", "*=", "&=", "|=",
     "<<="].any (startsMarks · trees)

/-- Reads a range from its dots on. -/
def range (braces : Bool) (start : Option Node) : Read Node := do
  let limits ← rangeLimits false
  if limits == ".." && (← sees (endsRange braces)) then return .range start limits none
  return .range start limits (some (← operand read braces .range))

/-- Whether what is ahead would belong to a value whose type was changed, and does not. -/
def startsTrailer (trees : List TokenTree) : Bool :=
  (startsMarks "." trees && !startsMarks ".." trees) || startsMarks "?" trees ||
    startsGroup .square trees || startsGroup .round trees

def isComparison : Node → Bool
  | .binary op _ _ => binaryOps.lookup op == some .compare
  | _ => false

/-- Reads the operators behind an expression that bind as tightly as `least` at least. -/
def operators (braces : Bool) (least : Level) (left : Node) : Read Node := do
  if let .range _ _ _ := left.bare then return left
  let trees ← ahead
  match binaryOp? trees with
  | some (op, level) =>
    if level < least then return left
    guard !(level == .compare && isComparison left)
    mark op
    let right ← operand read braces level
    read (.operators braces least (.binary op left right))
  | none =>
    if least ≤ .assign && startsMarks "=" trees && !startsMarks "=>" trees then
      mark "="
      let right ← operand read braces .assign
      read (.operators braces least (.assign left right))
    else if least ≤ .range && startsMarks ".." trees then
      read (.operators braces least (← range read braces (some left)))
    else if least ≤ .cast && startsWord "as" trees then
      word "as"
      let type ← read (.type false)
      guard !(← sees startsTrailer)
      read (.operators braces least (.cast left type))
    else return left

end Reader

end ProtoWire.Source
