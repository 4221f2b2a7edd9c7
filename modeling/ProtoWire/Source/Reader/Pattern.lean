import ProtoWire.Source.Reader.Type

/-!
# Reading patterns

A pattern is a single one, or several to choose from.
-/

namespace ProtoWire.Source.Reader

open Read

variable (read : Reader)

/-! ### Choices -/

def startsBar (trees : List TokenTree) : Bool :=
  startsMarks "|" trees && !startsMarks "||" trees && !startsMarks "|=" trees

/-- Reads a pattern, or several with bars between them. One more bar may stand in front. -/
def choice : Read Node := do
  let leading ← takesMark "|"
  let first ← read .pattern
  if leading || (← sees startsBar) then
    let rest ← while_ startsBar do
      mark "|"
      read .pattern
    return .choice (first :: rest)
  return first

/-! ### Ranges -/

/-- Reads what is between the ends of a range. Three dots are an old spelling. -/
def rangeLimits (mayOld : Bool) : Read String := do
  if ← takesMark "..=" then return "..="
  if ← sees (startsMarks "...") then
    guard mayOld
    let _ ← dropped (takesMark "...")
    write ["..="]
    return "..="
  mark ".."
  return ".."

def endsRangePattern (trees : List TokenTree) : Bool :=
  trees.isEmpty || startsMarks "|" trees || startsMarks "=" trees ||
    (startsMarks ":" trees && !startsMarks "::" trees) || startsMarks "," trees ||
    startsMarks ";" trees || startsWord "if" trees

def rangeEnd? : Read (Option Node) := do
  let trees ← ahead
  if endsRangePattern trees then return none
  if startsLiteral trees then return some (.literal (← literal))
  if startsWord "const" trees then
    word "const"
    return some (.block .constant (← body read))
  guard (startsName trees || startsAny pathWords trees || startsMarks "::" trees ||
    startsMarks "<" trees)
  return some (.item (← qualified read true))

def rangeFrom (start : Node) : Read Node := do
  let limits ← rangeLimits true
  let stop ← rangeEnd? read
  guard (limits == ".." || stop.isSome)
  return .range (some start) limits stop

/-- Reads a range without a start, or the dots that stand for the rest. -/
def openRange : Read Node := do
  let limits ← rangeLimits false
  match ← rangeEnd? read with
  | some stop => return .range none limits (some stop)
  | none =>
    guard (limits == "..")
    return .rest

/-! ### Parts -/

def memberName : Read String := do
  if ← sees startsName then name
  else
    match ← ahead with
    | .literal text :: rest =>
      let number := toString (← memberIndex? text)
      advance rest [.plain number]
      return number
    | _ => failure

def fieldPattern : Read Node := do
  let start ← get
  let isBoxed ← takesWord "box"
  let head := (← headWord "ref") ++ (← headWord "mut")
  if isBoxed || head != "" then
    let name ← name
    if isBoxed then verbatim start else return .binding head name none
  else
    let isNamed ← sees startsName
    let name ← memberName
    if !isNamed || (← sees (startsMarks ":")) then
      mark ":"
      return .labelled (name ++ ": ") (← choice read)
    return .binding "" name none

/-- Reads the fields of a record pattern, and the dots that stand for the rest. Every field takes a
tree, hence the fuel. -/
def fieldPatterns : (fuel : Nat) → Read (List Node × Option Node)
  | 0 => failure
  | fuel + 1 => do
    if ← atEnd then return ([], none)
    let attributes ← outerAttributes read
    if ← takesMark ".." then return ([], some (Node.withAttributes attributes .rest))
    let field := (← fieldPattern read).withAttributes attributes
    if ← atEnd then return ([field], none)
    mark ","
    let (fields, rest) ← fieldPatterns fuel
    return (field :: fields, rest)

def pathPattern : Read Node := do
  let found ← qualified read true
  if ← seesExpansion found then return ← expansion found
  match ← ahead with
  | .group .curly _ :: _ =>
    let (fields, rest) ← between .curly do
      fieldPatterns read ((← ahead).length + 1)
    return .recordPattern found fields rest
  | .group .round _ :: _ =>
    let (elements, _) ← listIn .round (choice read)
    return .constructor found elements
  | trees => if startsMarks ".." trees then rangeFrom read (.item found) else return .item found

def parenPattern : Read Node := do
  let (elements, trailing) ← listIn .round (choice read)
  match elements, trailing with
  | [.rest], false => return .tuplePattern elements false
  | [inner], false => return .paren inner
  | _, _ => return .tuplePattern elements trailing

def isOpenRange : Node → Bool
  | .range start _ stop => start.isNone || stop.isNone
  | _ => false

/-- Reads a name that is bound. -/
def binding : Read Node := do
  let head := (← headWord "ref") ++ (← headWord "mut")
  let name ← nameOr ["self"]
  let inner ← if ← takesMark "@" then some <$> read .pattern else pure none
  return .binding head name inner

def startsPathPattern (trees : List TokenTree) : Bool :=
  let behind := trees.tail
  (startsName trees &&
    (startsMarks "::" behind || startsMarks "!" behind || startsGroup .curly behind ||
      startsGroup .round behind || startsMarks ".." behind)) ||
    (startsWord "self" trees && startsMarks "::" behind) || startsMarks "::" trees ||
    startsMarks "<" trees || startsAny ["Self", "super", "crate"] trees

def pattern : Read Node := do
  let start ← get
  let trees := start.ahead
  if startsPathPattern trees then pathPattern read
  else if startsWord "_" trees then
    word "_"
    return .hole
  else if startsWord "box" trees then
    word "box"
    let _ ← read .pattern
    verbatim start
  else if startsMarks "-" trees || startsLiteral trees || startsWord "const" trees then
    match ← rangeEnd? read with
    | some first => if ← sees (startsMarks "..") then rangeFrom read first else return first
    | none => failure
  else if startsAny ["ref", "mut", "self"] trees || startsName trees then binding read
  else if startsMarks "&" trees then
    mark "&"
    let isMut ← takesWord "mut"
    return .reference none isMut (← read .pattern)
  else if startsGroup .round trees then parenPattern read
  else if startsGroup .square trees then
    let (elements, _) ← listIn .square (choice read)
    guard !(elements.any isOpenRange)
    return .slicePattern elements
  else
    guard (startsMarks ".." trees && !startsMarks "..." trees)
    openRange read

end ProtoWire.Source.Reader
