import ProtoWire.Source.Reader.Operator
import ProtoWire.Text.Split

/-!
# Reading expressions

Expressions without operators, those with operators in front, and those where a statement may end.
-/

namespace ProtoWire.Source

def Node.takesComma (node : Node) : Bool :=
  match node.bare with
  | .cond _ _ _ | .select _ _ _ | .during _ _ _ | .loop _ _ | .each _ _ _ _ => false
  | .block kind _ =>
    match kind with
    | .future _ => true
    | .plain _ | .constant | .unchecked | .attempt => false
  | _ => true

/-- Whether the leftmost operand of an expression is kept as it is. -/
def Node.startsVerbatim : Node → Bool
  | .verbatim => true
  | .assign target _ => target.startsVerbatim
  | .binary _ left _ => left.startsVerbatim
  | .cast operand _ => operand.startsVerbatim
  | _ => false

namespace Reader

open Read

variable (read : Reader)

/-! ### Trailers -/

/-- The parts of a number that names fields of fields, and whether a dot ends it. -/
def indexParts (text : String) : List String × Bool :=
  let parts := (Text.split '.' text)
  if parts.getLast? == some "" then (parts.dropLast, true) else (parts, false)

/-- Reads the fields that a number with dots names, and whether a dot ends it. -/
def indices (base : Node) (text : String) : Read (Node × Bool) := do
  let (parts, dotted) := indexParts text
  let numbers ← parts.mapM fun part => (memberIndex? part).map (toString ·)
  advance (← ahead).tail (words (numbers.intersperse "."))
  if dotted then write ["."]
  return (numbers.foldl .field base, dotted)

/-- Reads a field or a method, from behind the dot. -/
def member (base : Node) : Read Node := do
  if ← takesWord "await" then return .wait base
  let isNamed ← sees startsName
  let name ← memberName
  let generics ←
    if isNamed && (← sees (startsMarks "::")) then some <$> angles read else pure none
  if generics.isSome || (isNamed && (← sees (startsGroup .round))) then
    let (args, _) ← listIn .round (read (.expr true))
    return .method base name generics args
  return .field base name

def startsDot (trees : List TokenTree) : Bool :=
  startsMarks "." trees && !startsMarks ".." trees

def isRange : Node → Bool
  | .range _ _ _ => true
  | _ => false

/-- Reads calls, fields and positions behind an expression. Every round takes a tree, hence the
fuel. -/
def trailersWithin (base : Node) : (fuel : Nat) → Read Node
  | 0 => failure
  | fuel + 1 => do
    let trees ← ahead
    match trees with
    | .group .round _ :: _ =>
      let (args, _) ← listIn .round (read (.expr true))
      trailersWithin (.call base args) fuel
    | .group .square _ :: _ =>
      let position ← between .square (read (.expr true))
      trailersWithin (.index base position) fuel
    | _ =>
      if isRange base then return base
      else if startsDot trees then
        mark "."
        match ← ahead with
        | .literal text :: _ =>
          if literalKind text == .float then
            let (base, dotted) ← indices base text
            let base ← if dotted then member read base else pure base
            trailersWithin base fuel
          else trailersWithin (← member read base) fuel
        | _ => trailersWithin (← member read base) fuel
      else if ← takesMark "?" then trailersWithin (.attempt base) fuel
      else return base

/-- Reads calls, fields and positions behind an expression. -/
def trailers (base : Node) : Read Node := do
  trailersWithin read base ((← ahead).length + 1)

/-! ### Control flow -/

/-- Reads a test and the blocks after it. Every alternative takes a tree, hence the fuel. -/
def condWithin : (fuel : Nat) → Read Node
  | 0 => failure
  | fuel + 1 => do
    word "if"
    let test ← read (.expr false)
    let yes ← plainBody read
    if ← takesWord "else" then
      if ← sees (startsWord "if") then return .cond test yes (some (← condWithin fuel))
      return .cond test yes (some (.block (.plain none) (← plainBody read)))
    return .cond test yes none

def cond : Read Node := do
  condWithin read ((← ahead).length + 1)

/-- Reads a loop with a test. -/
def during (label : Option String) : Read Node := do
  word "while"
  let test ← read (.expr false)
  return .during label test (← body read)

/-- Reads a loop over values. -/
def each (label : Option String) : Read Node := do
  word "for"
  let pattern ← choice read
  word "in"
  let values ← read (.expr false)
  return .each label pattern values (← body read)

def loop (label : Option String) : Read Node := do
  word "loop"
  return .loop label (← body read)

def withLabel : Read Node := do
  let label := some (← lifetime)
  mark ":"
  let trees ← ahead
  if startsWord "while" trees then during read label
  else if startsWord "for" trees then each read label
  else if startsWord "loop" trees then loop read label
  else return .block (.plain label) (← body read)

/-- Reads a block with a word in front. -/
def wordBlock (text : String) (kind : BlockKind) : Read Node := do
  word text
  return .block kind (← body read)

/-- Reads a block that is run later. -/
def future : Read Node := do
  word "async"
  let isMove ← takesWord "move"
  return .block (.future isMove) (← plainBody read)

/-- Reads a block that errors leave. -/
def attemptBlock : Read Node := do
  word "try"
  return .block .attempt (← plainBody read)

def startsBinder (trees : List TokenTree) : Bool :=
  startsGenerics trees.tail

/-- Reads an expression behind attributes that start at a place. An operand that is kept as it is
loses them. -/
def behindAttributes (start : Place) (expr : Read Node) : Read Node := do
  let (value, tokens) ← captured expr
  if value.startsVerbatim then modify fun place => { place with written := start.written }
  advance (← ahead) tokens
  return value

/-- Reads an expression where a statement may end: a block ends one, unless a dot or a question mark
follows. -/
def early : Read Node := do
  let start ← get
  let attributes ← outerAttributes read
  let trees ← ahead
  let isBlock (kind : String) := startsWord kind trees && startsGroup .curly trees.tail
  let blocklike : Option (Read Node) :=
    if startsWord "if" trees then some (cond read)
    else if startsWord "while" trees then some (during read none)
    else if startsWord "for" trees && !startsBinder trees then some (each read none)
    else if startsWord "loop" trees then some (loop read none)
    else if startsWord "match" trees then some (read .select)
    else if isBlock "try" then some (attemptBlock read)
    else if startsWord "unsafe" trees then some (wordBlock read "unsafe" .unchecked)
    else if isBlock "const" then some (wordBlock read "const" .constant)
    else if startsGroup .curly trees then some (do return .block (.plain none) (← body read))
    else if startsLifetime trees then some (withLabel read)
    else none
  match blocklike with
  | some blocklike =>
    let first ← blocklike
    if ← sees fun trees => startsDot trees || startsMarks "?" trees then
      let whole ← trailers read first
      read (.operators true 0 (whole.withAttributes attributes))
    else return first.withAttributes attributes
  | none =>
    let first ← behindAttributes start (read (.unary true))
    read (.operators true 0 (first.withAttributes attributes))

def arm : Read Node := do
  let attributes ← outerAttributes read
  let pattern ← choice read
  let guard? ← if ← takesWord "if" then some <$> read (.expr true) else pure none
  mark "=>"
  let body ← early read
  if body.takesComma && !(← atEnd) then mark ","
  else
    let _ ← takesMark ","
  return Node.withAttributes attributes (.arm pattern guard? body)

def select : Read Node := do
  word "match"
  let value ← read (.expr false)
  between .curly do
    let attributes ← innerAttributes read
    return .select value attributes (← upTo List.isEmpty (arm read))

/-! ### Closures and jumps -/

def isVerbatim : Node → Bool
  | .verbatim => true
  | _ => false

/-- Reads a parameter of a closure. What is kept as it is and has no type loses its attributes. -/
def closureParam : Read Node := do
  let (attributes, marks) ← captured (outerAttributes read)
  let (pattern, tokens) ← captured (read .pattern)
  let isTyped ← sees (startsMarks ":")
  advance (← ahead) (if isVerbatim pattern && !isTyped then tokens else marks ++ tokens)
  if isTyped then
    mark ":"
    return Node.withAttributes attributes (.typed pattern (← read (.type true)))
  return pattern.withAttributes attributes

def closure (braces : Bool) : Read Node := do
  let binder ← binder? read
  let head := (← headWord "const") ++ (← headWord "static") ++ (← headWord "async") ++
    (← headWord "move")
  mark "|"
  let (params, _) ← separated "," (startsMarks "|") (closureParam read)
  mark "|"
  if ← takesMark "->" then
    let result ← read (.type true)
    return .closure binder head params (some result) (.block (.plain none) (← plainBody read))
  return .closure binder head params none (← read (.expr braces))

def startsExpr (trees : List TokenTree) : Bool :=
  let mark (text : String) (but : List String) : Bool :=
    startsMarks text trees && !(but.any (startsMarks · trees))
  (startsWords trees && !startsWord "as" trees) || Bracket.all.any (startsGroup · trees) ||
    startsLiteral trees || mark "!" ["!="] || mark "-" ["-=", "->"] || mark "*" ["*="] ||
    mark "|" ["|="] || mark "&" ["&="] || mark ".." [] || mark "<" ["<=", "<<="] || mark "::" [] ||
    startsLifetime trees || mark "#" []

/-- Reads a jump out of a loop or block. -/
def leave (braces : Bool) : Read Node := do
  word "break"
  let label ← lifetime?
  guard !(label.isSome && (← sees (startsMarks ":")))
  let trees ← ahead
  if startsExpr trees && (braces || !startsGroup .curly trees) then
    return .leave label (some (← read (.expr true)))
  return .leave label none

/-- Reads a jump out of a function. -/
def result : Read Node := do
  word "return"
  if ← sees startsExpr then return .result (some (← read (.expr true)))
  return .result none

/-- Reads what hands out a value. -/
def produce : Read Node := do
  word "yield"
  if ← sees startsExpr then return .produce (some (← read (.expr true)))
  return .produce none

/-! ### Values -/

def fieldValue : Read Node := do
  let attributes ← outerAttributes read
  let isNamed ← sees startsName
  let name ← memberName
  if !isNamed || (← sees (startsMarks ":")) then
    mark ":"
    let value ← read (.expr true)
    return Node.withAttributes attributes (.labelled (name ++ ": ") value)
  return Node.withAttributes attributes (.label name)

/-- Reads the fields of a record, and what the others are taken from. Every field takes a tree,
hence the fuel. -/
def fieldValues : (fuel : Nat) → Read (List Node × Option Node)
  | 0 => failure
  | fuel + 1 => do
    if ← atEnd then return ([], none)
    if ← takesMark ".." then
      if ← atEnd then return ([], none)
      return ([], some (← read (.expr true)))
    let field ← fieldValue read
    if ← atEnd then return ([field], none)
    mark ","
    let (fields, rest) ← fieldValues fuel
    return (field :: fields, rest)

/-- Reads an expression that starts with a path. -/
def pathExpr (braces : Bool) : Read Node := do
  let found ← qualified read true
  if ← seesExpansion found then return ← expansion found
  if braces && (← sees (startsGroup .curly)) then
    let (fields, rest) ← between .curly do
      fieldValues read ((← ahead).length + 1)
    return .record found fields rest
  return .item found

def parenExpr : Read Node := do
  let (elements, trailing) ← listIn .round (read (.expr true))
  match elements, trailing with
  | [inner], false => return .paren inner
  | _, _ => return .tuple elements

def listExpr : Read Node :=
  between .square do
    if ← atEnd then return .list []
    let first ← read (.expr true)
    if ← takesMark ";" then return .replicate first (← read (.expr true))
    if ← atEnd then return .list [first]
    mark ","
    let (rest, _) ← separated "," List.isEmpty (read (.expr true))
    return .list (first :: rest)

/-- Reads a pattern match as a test. -/
def fits (braces : Bool) : Read Node := do
  word "let"
  let pattern ← choice read
  mark "="
  let first ← read (.unary braces)
  return .fits pattern (← read (.operators braces .compare first))

def startsClosure (trees : List TokenTree) : Bool :=
  startsMarks "|" trees || startsAny ["move", "static"] trees ||
    (startsWord "for" trees && startsBinder trees) ||
    (startsWord "const" trees && !startsGroup .curly trees.tail) ||
    (startsWord "async" trees &&
      (startsMarks "|" trees.tail || startsWord "move" trees.tail))

/-- Whether a block that is run later is ahead. -/
def startsFuture (trees : List TokenTree) : Bool :=
  startsWord "async" trees &&
    (startsGroup .curly trees.tail ||
      (startsWord "move" trees.tail && startsGroup .curly trees.tail.tail))

def startsPathExpr (trees : List TokenTree) : Bool :=
  startsName trees || startsAny pathWords trees || startsMarks "::" trees ||
    startsMarks "<" trees ||
    (startsWord "try" trees && (startsMarks "!" trees.tail || startsMarks "::" trees.tail))

def atom (braces : Bool) : Read Node := do
  let start ← get
  let trees := start.ahead
  if startsLiteral trees then return .literal (← literal)
  else if startsFuture trees then future read
  else if startsWord "try" trees && startsGroup .curly trees.tail then attemptBlock read
  else if startsClosure trees then closure read braces
  else if startsBuiltin trees then builtin start
  else if startsPathExpr trees then pathExpr read braces
  else
    match trees with
    | .group .round _ :: _ => parenExpr read
    | .group .square _ :: _ => listExpr read
    | .group .curly _ :: _ => return .block (.plain none) (← body read)
    | .lifetime _ :: _ => withLabel read
    | .word "break" :: _ => leave read braces
    | .word "continue" :: _ =>
      word "continue"
      return .again (← lifetime?)
    | .word "return" :: _ => result read
    | .word "become" :: _ =>
      word "become"
      let _ ← read (.expr true)
      verbatim start
    | .word "let" :: _ => fits read braces
    | .word "if" :: _ => cond read
    | .word "while" :: _ => during read none
    | .word "for" :: _ => each read none
    | .word "loop" :: _ => loop read none
    | .word "match" :: _ => read .select
    | .word "yield" :: _ => produce read
    | .word "unsafe" :: _ => wordBlock read "unsafe" .unchecked
    | .word "const" :: _ => wordBlock read "const" .constant
    | .word "_" :: _ =>
      word "_"
      return .hole
    | _ =>
      guard (startsMarks ".." trees)
      range read braces none

def unary (braces : Bool) : Read Node := do
  let start ← get
  let attributes ← outerAttributes read
  let trees ← ahead
  if startsMarks "&" trees then
    mark "&"
    let isRaw ← sees fun trees => startsWord "raw" trees && startsAny ["mut", "const"] trees.tail
    if isRaw then
      word "raw"
      let isMut ← takesWord "mut"
      if !isMut then word "const"
      let operand ← read (.unary braces)
      return Node.withAttributes attributes (.address isMut operand)
    let isMut ← takesWord "mut"
    let operand ← read (.unary braces)
    return Node.withAttributes attributes (.reference none isMut operand)
  match ["*", "!", "-"].find? (startsMarks · trees) with
  | some op =>
    mark op
    let operand ← read (.unary braces)
    return Node.withAttributes attributes (.unary op operand)
  | none =>
    let first ← atom read braces
    let whole ← trailers read first
    match whole with
    | .verbatim => verbatim start
    | .range _ _ _ =>
      guard attributes.isEmpty
      return whole
    | _ => return whole.withAttributes attributes

def expr (braces : Bool) : Read Node := do
  let first ← read (.unary braces)
  read (.operators braces 0 first)

end Reader

end ProtoWire.Source
