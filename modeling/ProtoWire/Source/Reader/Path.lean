import ProtoWire.Source.Reader.Attribute

/-!
# Reading paths and generic parameters

* `Reader.path`, `Reader.qualified`: paths, and items of a type.
* `Reader.binder?`, `Reader.generics`, `Reader.rules`: bound parameters, the parameters of a
  declaration, and what is asked of them.
-/

namespace ProtoWire.Source.Reader

open Read

variable (read : Reader)

/-! ### Order -/

/-- Whether a part of generic arguments or parameters is a lifetime. -/
def isLifetime (node : Node) : Bool :=
  match node.bare with
  | .lifetime _ | .lifetimeParam _ _ => true
  | _ => false

def commaList (trailing : Bool) : List (List Token) → List Token
  | [] => []
  | [tokens] => tokens ++ (if trailing then [.plain ","] else [])
  | tokens :: rest => tokens ++ .plain "," :: commaList trailing rest

/-- Reads entries up to a closing angle, with the lifetimes in front. If one stood last, another
entry with a comma behind it comes to stand there. -/
def ordered (entry : Read Node) : Read (List Node) := do
  let ((entries, trailing), _) ← captured (separated "," (startsMarks ">") (captured entry))
  let (lifetimes, others) := entries.partition fun (node, _) => isLifetime node
  let moved := !others.isEmpty && entries.getLast?.any fun (node, _) => isLifetime node
  let entries := lifetimes ++ others
  advance (← ahead) (commaList (trailing || moved) (entries.map Prod.snd))
  return entries.map Prod.fst

/-! ### Paths -/

/-- Whether generic arguments with a separator before them are ahead. -/
def startsTurbofish (trees : List TokenTree) : Bool :=
  (afterMarks [':', ':'] trees).any (startsMarks "<")

def startsRoundItem (trees : List TokenTree) : Bool :=
  (afterMarks [':', ':'] trees).any (startsGroup .round)

/-- Reads a constant that needs no brackets as a generic argument: a literal or a block. -/
def plainConst : Read Node := do
  if ← sees startsLiteral then return .literal (← literal)
  return .block (.plain none) (← body read)

def startsConst (trees : List TokenTree) : Bool :=
  startsLiteral trees || startsGroup .curly trees

def endsItemBounds (trees : List TokenTree) : Bool :=
  startsMarks "," trees || startsMarks ">" trees

def genericArg : Read Node := do
  match ← ahead with
  | .lifetime _ :: rest =>
    if startsMarks "+" rest then read (.type true) else .lifetime <$> lifetime
  | trees =>
    if startsConst trees then plainConst read
    else
      match ← read (.type true) with
      | .named (.path false [.segment name generics]) =>
        if ← takesMark "=" then
          let value ← if ← sees startsConst then plainConst read else read (.type true)
          return .itemValue name generics value
        if ← takesMark ":" then
          return .itemBounds name generics (← sum endsItemBounds (read (.bound false true)))
        return .named (.path false [.segment name generics])
      | type => return type

def angles : Read Node := do
  let _ ← takesMark "::"
  mark "<"
  let args ← ordered (genericArg read)
  mark ">"
  return .angles args

/-- Reads a segment. In an expression, generic arguments have a separator before them. -/
def segment (inExpr : Bool) : Read Node := do
  if ← sees (startsAny ["super", "self", "crate", "try"]) then
    return .segment (← anyWord) none
  let name ← nameOr ["Self"]
  let trees ← ahead
  if (!inExpr && startsMarks "<" trees && !startsMarks "<=" trees) || startsTurbofish trees then
    return .segment name (some (← angles read))
  return .segment name none

def path (inExpr : Bool) : Read Node := do
  let rooted ← takesMark "::"
  let first ← segment read inExpr
  let rest ← while_ (fun trees => startsMarks "::" trees && !startsRoundItem trees) do
    mark "::"
    segment read inExpr
  return .path rooted (first :: rest)

def qualified (inExpr : Bool) : Read Node := do
  if ← takesMark "<" then
    let type ← read (.type true)
    let through ← if ← takesWord "as" then some <$> path read false else pure none
    mark ">"
    mark "::"
    let first ← segment read inExpr
    let rest ← while_ (startsMarks "::") do
      mark "::"
      segment read inExpr
    return .member type through (first :: rest)
  path read inExpr

/-- Whether a path has names alone. -/
def isPlain : Node → Bool
  | .path _ segments => segments.all fun
    | .segment _ generics => generics.isNone
    | _ => false
  | _ => false

/-- Whether what follows a path makes it a call that is expanded. -/
def seesExpansion (found : Node) : Read Bool :=
  sees fun trees => isPlain found && startsMarks "!" trees && !startsMarks "!=" trees

def expansion (found : Node) : Read Node := do
  mark "!"
  let (bracket, inner) ← group
  return .expansion found bracket inner

/-! ### Generic parameters -/

def lifetimeParam : Read Node := do
  let name ← lifetime
  let bounds ← unlessEmpty do
    if ← takesMark ":" then sum endsItemBounds lifetime else return []
  return .lifetimeParam name bounds

def endsParamBounds (trees : List TokenTree) : Bool :=
  endsItemBounds trees || startsMarks "=" trees

def typeParam : Read Node := do
  let name ← name
  let bounds ← unlessEmpty do
    if ← takesMark ":" then sum endsParamBounds (read (.bound false true)) else return []
  let default ← if ← takesMark "=" then some <$> read (.type true) else pure none
  return .typeParam name bounds default

/-- Reads the default of a constant, which may be a name too. -/
def defaultConst : Read Node := do
  if ← sees startsName then return .item (pathOf false [← name])
  plainConst read

def constParam : Read Node := do
  word "const"
  let name ← name
  mark ":"
  let type ← read (.type true)
  let default ← if ← takesMark "=" then some <$> defaultConst read else pure none
  return .constParam name type default

def genericParam : Read Node := do
  let attributes ← outerAttributes read
  let param ←
    if ← sees startsLifetime then lifetimeParam
    else if ← sees (startsWord "const") then constParam read
    else typeParam read
  return param.withAttributes attributes

/-- Reads a generic parameter of a declaration, which may be nameless. -/
def declaredParam : Read Node := do
  let attributes ← outerAttributes read
  if ← takesWord "_" then return Node.withAttributes attributes (.typeParam "_" [] none)
  return Node.withAttributes attributes (← genericParam read)

/-- Reads bound parameters, if there are any. -/
def binder? : Read (Option Node) := do
  if ← takesWord "for" then
    mark "<"
    let (params, _) ← separated "," (startsMarks ">") (genericParam read)
    mark ">"
    return some (.binder params)
  return none

/-- Reads the generic parameters of a declaration, if there are any. -/
def generics : Read (List Node) :=
  unlessEmpty do
    if ← takesMark "<" then
      let params ← ordered (declaredParam read)
      mark ">"
      return params
    return []

/-- Whether generic parameters are ahead, and no item of a type. -/
def startsGenerics : List TokenTree → Bool
  | .mark '<' _ :: rest =>
    startsMarks ">" rest || startsMarks "#" rest || startsWord "const" rest ||
      ((startsLifetime rest || startsName rest) &&
        let behind := rest.tail
        startsMarks ">" behind || startsMarks "," behind || startsMarks "=" behind ||
          (startsMarks ":" behind && !startsMarks "::" behind))
  | _ => false

def endsRules (trees : List TokenTree) : Bool :=
  trees.isEmpty || startsGroup .curly trees || startsMarks "," trees || startsMarks ";" trees ||
    (startsMarks ":" trees && !startsMarks "::" trees) || startsMarks "=" trees

/-- Reads a rule for parameters. -/
def rule : Read Node := do
  match ← ahead with
  | .lifetime _ :: .mark ':' _ :: _ =>
    let name ← lifetime
    mark ":"
    return .lifetimeRule name (← sum (fun t => endsRules t || startsMarks ":" t) lifetime)
  | _ =>
    let binder ← binder? read
    let type ← read (.type true)
    mark ":"
    return .typeRule binder type (← sum endsRules (read (.bound false true)))

def rules : Read (List Node) :=
  unlessEmpty do
    if ← takesWord "where" then
      guard !(← sees startsGenerics)
      chain "," endsRules (rule read) ((← ahead).length + 1)
    else return []

end ProtoWire.Source.Reader
