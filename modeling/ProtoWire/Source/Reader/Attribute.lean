import ProtoWire.Source.Read

/-!
# Reading attributes

* `Reader.outerAttributes`, `Reader.innerAttributes`: the attributes of what follows, and of what
  they stand in.
-/

namespace ProtoWire.Source

open Read

/-- A part with more attributes in front. -/
def Node.withAttributes (attributes : List Node) : Node → Node
  | .attributed inner node => .attributed (attributes ++ inner) node
  | node => if attributes.isEmpty then node else .attributed attributes node

namespace Reader

variable (read : Reader)

def pathWords : List String :=
  ["super", "self", "Self", "crate"]

def pathOf (rooted : Bool) (names : List String) : Node :=
  .path rooted (names.map (.segment · none))

def plainPath : Read (Bool × List String) := do
  let rooted ← takesMark "::"
  let names ← chain "::" (fun _ => false) (nameOr pathWords) ((← ahead).length + 1)
  return (rooted, names)

def oneAttribute (inner : Bool) : Read Node := do
  let path ←
    if ← sees (startsWord "unsafe") then do
      let name ← anyWord
      pure (pathOf false [name])
    else do
      let (rooted, names) ← plainPath
      pure (pathOf rooted names)
  match ← ahead with
  | .group _ _ :: _ =>
    let (bracket, body) ← group
    return .arguments inner path bracket body
  | trees =>
    if startsMarks "=" trees && !startsMarks "==" trees && !startsMarks "=>" trees then
      mark "="
      match ← ahead with
      | .mark '#' _ :: .group .square _ :: _ => failure
      | _ => return .setting inner path (← read (.expr true))
    return .flag inner path

def outerAttributes : Read (List Node) :=
  while_ (startsMarks "#") do
    mark "#"
    between .square (oneAttribute read false)

def startsInner : List TokenTree → Bool
  | .mark '#' _ :: .mark '!' _ :: _ => true
  | _ => false

def innerAttributes : Read (List Node) :=
  while_ startsInner do
    mark "#"
    mark "!"
    between .square (oneAttribute read true)

def body : Read Node :=
  between .curly do
    let attributes ← innerAttributes read
    match ← read .stmts with
    | .body _ stmts => return .body attributes stmts
    | node => return node

def plainBody : Read Node :=
  between .curly (read .stmts)

end Reader

end ProtoWire.Source
