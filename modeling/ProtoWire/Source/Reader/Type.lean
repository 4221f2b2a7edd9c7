import ProtoWire.Source.Reader.Path

/-!
# Reading types

* `Reader.bound`, `Reader.bounds`: bounds, one or a sum of them.
* `Reader.functionType`, `Reader.parenType`, `Reader.pathType`: kinds of types.
-/

namespace ProtoWire.Source.Reader

open Read

variable (read : Reader)

/-! ### Bounds -/

def result? (plus : Bool) : Read (Option Node) := do
  if ← takesMark "->" then some <$> read (.type plus) else return none

def withArguments (args : Node) : Node → Node
  | .path rooted segments =>
    match segments.getLast? with
    | some (.segment name _) => .path rooted (segments.dropLast ++ [.segment name (some args)])
    | _ => .path rooted segments
  | node => node

/-- Whether the last segment of a path is without arguments, and whether it has empty angles. -/
def lastArguments : Node → Bool × Bool
  | .path _ segments =>
    match segments.getLast? with
    | some (.segment _ none) => (true, false)
    | some (.segment _ (some (.angles []))) => (true, true)
    | _ => (false, false)
  | _ => (false, false)

/-- Takes empty angles back from the tokens left behind. -/
def dropAngles : Read Unit :=
  modify fun place =>
    let written := place.written.drop 2
    { place with written := match written with
        | .plain "::" :: rest => rest
        | _ => written }

def traitPath : Read Node := do
  let found ← path read false
  let (isBare, hasAngles) := lastArguments found
  if isBare && (← sees fun trees => startsGroup .round trees || startsRoundItem trees) then
    if hasAngles then dropAngles
    let _ ← dropped (takesMark "::")
    let (params, _) ← listIn .round (read (.type true))
    return withArguments (.signature params (← result? read false)) found
  return found

/-- Reads a trait as a bound, and whether it is to hold for constants. -/
def traitBound (mayConst isParen : Bool) : Read (Node × Bool) := do
  let binder ← binder? read
  let forConst ← match ← ahead with
    | .group .square _ :: _ => do
      between .square (word "const")
      pure true
    | _ => takesWord "const"
  guard (!forConst || mayConst)
  let maybe ← takesMark "?"
  guard (!maybe || (binder.isNone && !(← sees (startsWord "for"))))
  return (.trait isParen maybe binder (← traitPath read), forConst)

/-- Reads which parameters are captured. -/
def capture : Read Node := do
  word "use"
  mark "<"
  let entry : Read Node := do
    if ← sees startsLifetime then .lifetime <$> lifetime else .label <$> nameOr ["Self"]
  let params ← ordered entry
  mark ">"
  return .capture (params.filterMap fun
    | .lifetime name | .label name => some name
    | _ => none)

def bound (mayCapture mayConst : Bool) : Read Node := do
  if ← sees startsLifetime then return .lifetime (← lifetime)
  if ← sees (startsWord "use") then
    guard mayCapture
    return ← capture
  let start ← get
  let (trait, forConst) ←
    if ← sees (startsGroup .round) then between .round (traitBound read mayConst true)
    else traitBound read mayConst false
  if forConst then verbatim start else return trait

def startsBound (mayConst : Bool) (trees : List TokenTree) : Bool :=
  startsWords trees || startsMarks "::" trees || startsMarks "?" trees || startsLifetime trees ||
    startsGroup .round trees || (mayConst && startsGroup .square trees)

/-- Reads one bound, or with `plus` a sum of them, which a sign may end. Every bound takes a tree,
hence the fuel. -/
def boundSum (plus mayCapture mayConst : Bool) : (fuel : Nat) → Read (List Node)
  | 0 => failure
  | fuel + 1 => do
    let first ← read (.bound mayCapture mayConst)
    if plus && (← takesMark "+") then
      if ← sees (startsBound mayConst) then
        return first :: (← boundSum plus mayCapture mayConst fuel)
    return [first]

/-- Reads one bound, or with `plus` a sum of them. -/
def bounds (plus mayCapture mayConst : Bool) : Read (List Node) := do
  boundSum read plus mayCapture mayConst ((← ahead).length + 1)

def isTraitBound : Node → Bool
  | .trait _ _ _ _ | .verbatim => true
  | _ => false

/-- Reads bounds of an object, of which one at least is a trait. -/
def objectBounds (plus : Bool) : Read (List Node) := do
  let found ← bounds read plus false false
  guard (found.any isTraitBound)
  return found

/-! ### Functions -/

/-- Reads a calling convention, if there is one, and answers it as it stands before a function. -/
def convention : Read String := do
  if ← takesWord "extern" then
    if ← sees (startsKind .text) then return "extern " ++ (← literal) ++ " "
    return "extern "
  return ""

def startsLabel (words : List String) (trees : List TokenTree) : Bool :=
  (startsName trees || startsAny words trees) && startsMarks ":" trees.tail &&
    !startsMarks "::" trees.tail

def startsMutSelf (trees : List TokenTree) : Bool :=
  startsWord "mut" trees && startsWord "self" trees.tail

/-- Reads a parameter of a function type. The first may be a receiver. One that may change is kept
as it is, also behind another name. -/
def bareParam (isFirst : Bool) : Read Node := do
  let start ← get
  let isMut ← sees fun trees => isFirst && startsMutSelf trees
  if isMut then word "mut"
  if ← sees (startsLabel (if isFirst then ["_", "self"] else ["_"])) then
    let name ← anyWord
    mark ":"
    if isFirst && name != "self" && (← sees startsMutSelf) then
      word "mut"
      word "self"
      return ← verbatim start
    let type ← read (.type true)
    if isMut then verbatim start else return .labelled (name ++ ": ") type
  else if isMut then
    word "self"
    verbatim start
  else read (.type true)

/-- Whether dots for more parameters are ahead. -/
def startsDots (trees : List TokenTree) : Bool :=
  startsMarks "..." trees ||
    ((startsName trees || startsWord "_" trees) && startsMarks ":" trees.tail &&
      startsMarks "..." trees.tail.tail)

/-- Reads the parameters of a function type, and what stands for more of them. Every parameter takes
a tree, hence the fuel. -/
def bareParams (isFirst : Bool) : (fuel : Nat) → Read (List Node × Option Node)
  | 0 => failure
  | fuel + 1 => do
    if ← atEnd then return ([], none)
    let attributes ← outerAttributes read
    if ← sees startsDots then
      let label ←
        if ← sees startsWords then do
          let name ← anyWord
          mark ":"
          pure (some (.label name))
        else pure none
      mark "..."
      let _ ← takesMark ","
      return ([], some (Node.withAttributes attributes (.variadic label)))
    let param := (← bareParam read isFirst).withAttributes attributes
    if ← atEnd then return ([param], none)
    mark ","
    let (params, more) ← bareParams false fuel
    return (param :: params, more)

def functionType (binder : Option Node) : Read Node := do
  let head := (← headWord "unsafe") ++ (← convention) ++ "fn"
  word "fn"
  let (params, more) ← between .round do
    bareParams read true ((← ahead).length + 1)
  return .function binder head params more (← result? read false)

/-! ### Other types -/

/-- Reads bounds behind the first one of an object, each after a plus sign. -/
def moreBounds : Read (List Node) :=
  while_ (startsMarks "+") do
    mark "+"
    read (.bound false false)

/-- Whether trees are bounds with a keyword before them or a sign behind them, which is no single
bound. -/
def areMarkedBounds (trees : List TokenTree) : Bool :=
  startsWord "dyn" trees || startsMarks "+" (trees.drop (trees.length - 1))

def boundOf? : Node → Option Node
  | .named found => if isPath found then some (.trait true false none found) else none
  | .object [.trait _ maybe binder found] => some (.trait true maybe binder found)
  | _ => none
where
  isPath : Node → Bool
    | .path _ _ => true
    | _ => false

/-- Whether a type is a bound in round brackets already. -/
def isParenBound : Node → Bool
  | .object [.trait true _ _ _] => true
  | _ => false

def parenType (plus : Bool) : Read Node := do
  match ← ahead with
  | .group .round inner :: _ =>
    if inner.isEmpty then
      between .round (pure ())
      return .tuple []
    if startsLifetime inner then
      return .paren (.object (← between .round (objectBounds read true)))
    if startsMarks "?" inner then
      let (first, _) ← between .round (traitBound read false true)
      return .object (first :: (← moreBounds read))
    let ((elements, trailing), tokens) ← captured (between .round do
      let first ← read (.type true)
      if ← takesMark "," then
        let (rest, _) ← separated "," List.isEmpty (read (.type true))
        return (first :: rest, true)
      return ([first], false))
    match elements, trailing with
    | [first], false =>
      if plus && !areMarkedBounds inner && (← sees (startsMarks "+")) then
        match boundOf? first with
        | some bound =>
          -- Brackets around a bound that has some of its own are dropped.
          advance (← ahead) (if isParenBound first then tokens.tail.dropLast else tokens)
          return .object (bound :: (← moreBounds read))
        | none => pure ()
      advance (← ahead) tokens
      return .paren first
    | _, _ =>
      advance (← ahead) tokens
      return .tuple elements
  | _ => failure

def startsBuiltin (trees : List TokenTree) : Bool :=
  startsWord "builtin" trees && startsMarks "#" trees.tail

/-- Reads a call to the compiler, which is kept as it is. -/
def builtin (start : Place) : Read Node := do
  word "builtin"
  mark "#"
  let _ ← name
  match ← group with
  | (.round, _) => verbatim start
  | _ => failure

def pathType (plus : Bool) (start : Place) (binder : Option Node) : Read Node := do
  let found ← qualified read false
  match found with
  | .member _ _ _ => return .named found
  | _ =>
    if ← seesExpansion found then
      -- Parameters bound before such a type are dropped.
      set { start with ahead := (← dropBinder start) : Place }
      let found ← path read false
      return ← expansion found
    if binder.isSome || (plus && (← sees (startsMarks "+"))) then
      let first := Node.trait false false binder found
      if plus && (← takesMark "+") then
        if ← sees (startsBound false) then
          return .object (first :: (← bounds read true false false))
      return .object [first]
    return .named found
where
  /-- The trees behind bound parameters. -/
  dropBinder (start : Place) : Read (List TokenTree) := do
    set start
    let _ ← binder? read
    ahead

def startsBoundType (trees : List TokenTree) : Bool :=
  startsName trees || startsAny (["fn", "unsafe", "extern"] ++ pathWords) trees

/-- Reads a type. A sum of bounds is one only with `plus`. -/
def type (plus : Bool) : Read Node := do
  let start ← get
  let binder ← binder? read
  guard (binder.isNone || (← sees startsBoundType))
  let trees ← ahead
  match trees with
  | .group .round _ :: _ => parenType read plus
  | .group .square _ :: _ => between .square do
    let element ← read (.type true)
    if ← takesMark ";" then return .replicate element (← read (.expr true))
    return .slice element
  | .lifetime _ :: _ => return .object (← objectBounds read true)
  | .mark '*' _ :: _ =>
    mark "*"
    let isMut ← sees (startsWord "mut")
    if isMut then word "mut" else word "const"
    return .pointer isMut (← read (.type false))
  | .mark '&' _ :: _ =>
    mark "&"
    let lifetime ← lifetime?
    let isMut ← takesWord "mut"
    return .reference lifetime isMut (← read (.type false))
  | .mark '!' _ :: _ =>
    mark "!"
    return .never
  | _ =>
    if startsAny ["fn", "unsafe", "extern"] trees then functionType read binder
    else if startsBuiltin trees then builtin start
    else if startsWord "dyn" trees then do
      word "dyn"
      let isStar ← takesMark "*"
      let found ← objectBounds read plus
      if isStar then verbatim start else return .object found
    else if startsWord "impl" trees then do
      word "impl"
      let found ← bounds read plus true true
      guard (found.any isTraitBound)
      return .hidden found
    else if startsWord "_" trees then do
      word "_"
      return .hole
    else do
      guard (startsName trees || startsAny pathWords trees || startsMarks "::" trees ||
        startsMarks "<" trees)
      pathType read plus start binder

end ProtoWire.Source.Reader
