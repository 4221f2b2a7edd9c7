import ProtoWire.Source.Reader.Statement

/-!
# Reading functions

A function is read with a body or without.
-/

namespace ProtoWire.Source.Reader

open Read

variable (read : Reader)

/-! ### Visibility -/

/-- Reads a path of names and answers its text. -/
def plainPathText : Read String := do
  let (rooted, names) ← plainPath
  return (if rooted then "::" else "") ++ "::".intercalate names

def visibilityRange : Read String :=
  between .round do
    if ← sees (startsAny ["crate", "self", "super"]) then anyWord
    else
      word "in"
      let text ← plainPathText
      return if ["crate", "self", "super"].contains text then text else "in " ++ text

/-- Reads who may use a declaration, and answers it as it stands before one. -/
def visibility : Read String := do
  if ← takesWord "pub" then
    match ← ahead with
    | .group .round inner :: _ =>
      if startsWord "in" inner then return "pub(" ++ (← visibilityRange) ++ ") "
      match ← attempt visibilityRange with
      | some text => return "pub(" ++ text ++ ") "
      | none => return "pub "
    | _ => return "pub "
  return ""

/-! ### Parameters -/

def receiver : Read Node := do
  let isRef ← takesMark "&"
  let lifetime ← if isRef then lifetime? else pure none
  let isMut ← headWord "mut"
  word "self"
  let text := (if isRef then "&" else "") ++ (lifetime.map (· ++ " ")).getD "" ++ isMut ++ "self"
  if !isRef && (← takesMark ":") then return .labelled (text ++ ": ") (← read (.type true))
  return .label text

/-- Reads a parameter that is no receiver. It may be the dots for more of them. -/
def param : Read Node := do
  if ← sees fun trees => startsName trees && startsMarks "<" trees.tail then
    -- An old spelling has the type alone.
    write ["_", ":"]
    return .typed .hole (← read (.type true))
  let pattern ← read .pattern
  mark ":"
  if ← takesMark "..." then return .variadic (some pattern)
  return .typed pattern (← read (.type true))

/-- Reads parameters, and what stands for more of them. Only the first may be a receiver. Every
parameter takes a tree, hence the fuel. -/
def params (isFirst : Bool) : (fuel : Nat) → Read (List Node × Option Node)
  | 0 => failure
  | fuel + 1 => do
    if ← atEnd then return ([], none)
    let attributes ← outerAttributes read
    if ← takesMark "..." then
      let _ ← takesMark ","
      return ([], some (Node.withAttributes attributes (.variadic none)))
    match ← attempt (receiver read) with
    | some node =>
      if isFirst then next (node.withAttributes attributes) fuel else failure
    | none =>
      match ← param read with
      | .variadic label =>
        let _ ← takesMark ","
        return ([], some (Node.withAttributes attributes (.variadic label)))
      | node => next (node.withAttributes attributes) fuel
where
  /-- Reads on behind a parameter. -/
  next (node : Node) (fuel : Nat) : Read (List Node × Option Node) := do
    if ← atEnd then return ([node], none)
    mark ","
    let (rest, more) ← params false fuel
    return (node :: rest, more)

/-! ### Functions -/

/-- Reads the words before the name of a function. Some functions may be marked as safe. -/
def procedureHead (maySafe : Bool) : Read (String × Bool) := do
  let first := (← headWord "const") ++ (← headWord "async")
  let isSafe ← if maySafe then takesWord "safe" else pure false
  let second ← if isSafe then pure "" else headWord "unsafe"
  let third ← convention
  word "fn"
  return (first ++ second ++ third ++ "fn ", isSafe)

def seesProcedure (maySafe : Bool) : Read Bool :=
  wouldRead (procedureHead maySafe)

/-- Reads a function up to its body, as a function of the body, and whether it is marked as safe. -/
def procedureStart (head : String) (maySafe : Bool) :
    Read ((Option Node → Node) × Bool) := do
  let (words, isSafe) ← procedureHead maySafe
  let name ← name
  let generics ← generics read
  let (params, more) ← between .round do
    params read true ((← ahead).length + 1)
  let result ← result? read true
  let rules ← rules read
  return (.procedure (head ++ words ++ name) generics params more result rules, isSafe)

end ProtoWire.Source.Reader
