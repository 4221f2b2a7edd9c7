import ProtoWire.Source.Reader.Function

/-!
# Reading declarations

A declaration that the language knows and that has no layout is kept as it is.
-/

namespace ProtoWire.Source.Reader

open Read

variable (read : Reader)

/-! ### Parts -/

def declsOf (entry : Read Node) : Read Node :=
  between .curly do
    let attributes ← innerAttributes read
    return .body attributes (← upTo List.isEmpty entry)

/-- Reads the bounds behind a colon, if there is one, up to where `ends` holds. -/
def colonBounds (ends : List TokenTree → Bool) : Read (List Node) :=
  unlessEmpty do
    if ← takesMark ":" then
      let (found, _) ← separated "+" ends (read (.bound false true))
      return found
    return []

/-- Reads a value behind an equals sign, if there is one. -/
def value? : Read (Option Node) := do
  if ← takesMark "=" then some <$> read (.expr true) else return none

/-- Whether trees are rules by which something is expanded. The last one may break off. -/
def areRules : List TokenTree → Bool
  | .group _ _ :: .mark '=' true :: .mark '>' false :: .group _ _ :: .mark ';' false :: rest =>
    areRules rest
  | [] | [.group _ _] | [.group _ _, .mark '=' true]
  | [.group _ _, .mark '=' true, .mark '>' false]
  | [.group _ _, .mark '=' true, .mark '>' false, .group _ _] => true
  | _ => false

/-- Reads a call that is expanded to declarations, or the rules by which something is expanded. Only
rules have a layout there. -/
def expandItem (mayName : Bool) : Read Node := do
  let (rooted, names) ← plainPath
  mark "!"
  let name ←
    if mayName && (← sees fun trees => startsName trees || startsWord "try" trees) then
      some <$> anyWord
    else pure none
  let (bracket, inner) ← group
  if bracket != .curly then mark ";"
  let found := pathOf rooted names
  match name, !rooted && names == ["macro_rules"] with
  | some name, true =>
    unless areRules inner do withoutLayout
    return .expander name inner
  | _, _ => return .expandItem (.expansion found bracket inner) name

def startsExpandItem (trees : List TokenTree) : Bool :=
  startsName trees || startsAny ["self", "super", "crate"] trees || startsMarks "::" trees

/-- Reads a constant from behind its keyword. Without a value, or with parameters, it is kept as it
is. -/
def constantFrom (start : Place) (head : String) (mayLack : Bool) : Read Node := do
  let name ← nameOr ["_"]
  let isGeneric ← sees (startsMarks "<")
  let _ ← generics read
  mark ":"
  let type ← read (.type true)
  let value ← value? read
  let isRuled ← sees (startsWord "where")
  let _ ← rules read
  mark ";"
  if isGeneric || isRuled || (value.isNone && !mayLack) then verbatim start
  else return .constant (head ++ name) type value

/-- Reads a variable that is shared. -/
def shared (start : Place) (head : String) : Read Node := do
  word "static"
  let isMut ← headWord "mut"
  let name ← name
  if ← takesMark "=" then
    let _ ← read (.expr true)
    mark ";"
    return ← verbatim start
  mark ":"
  let type ← read (.type true)
  if ← takesMark ";" then return ← verbatim start
  mark "="
  let value ← read (.expr true)
  mark ";"
  return .constant (head ++ "static " ++ isMut ++ name) type (some value)

/-! ### What is brought in -/

/-- Reads what is brought in from elsewhere. A tree from the root inside another has no layout. -/
def useTree (mayRoot : Bool) : Read Node := do
  let trees ← ahead
  if startsName trees || startsAny ["self", "super", "crate", "try"] trees then
    let name ← anyWord
    if ← takesMark "::" then return .usePath name (← read (.useTree false))
    if ← takesWord "as" then return .useName (name ++ " as " ++ (← nameOr ["_"]))
    return .useName name
  if ← takesMark "*" then return .useName "*"
  let (found, _) ← listIn .curly do
    let isRooted ← if mayRoot then takesMark "::" else pure false
    let tree ← read (.useTree (mayRoot && !isRooted))
    return if isRooted then .verbatim else tree
  if found.any isVerbatim then return .verbatim
  return .useGroup found

/-- Reads a declaration of what is brought in. -/
def imports (start : Place) (head : String) : Read Node := do
  word "use"
  let isRooted ← takesMark "::"
  let tree ← read (.useTree !isRooted)
  mark ";"
  match tree with
  | .verbatim => verbatim start
  | _ => return .imported (head ++ "use " ++ if isRooted then "::" else "") tree

def library (head : String) : Read Node := do
  word "extern"
  word "crate"
  let name ← nameOr ["self"]
  let text ← if ← takesWord "as" then pure (name ++ " as " ++ (← nameOr ["_"])) else pure name
  mark ";"
  return .imported (head ++ "extern crate ") (.useName text)

/-! ### Types -/

def namedField : Read Node := do
  let attributes ← outerAttributes read
  let head ← visibility
  let name ← nameOr ["_"]
  mark ":"
  let start ← get
  let type ←
    if name == "_" && (← sees fun trees => startsWord "struct" trees ||
        (startsWord "union" trees && startsGroup .curly trees.tail)) then do
      let _ ← anyWord
      let _ ← read .fields
      verbatim start
    else read (.type true)
  return Node.withAttributes attributes (.labelled (head ++ name ++ ": ") type)

def unnamedField : Read Node := do
  let attributes ← outerAttributes read
  let head ← visibility
  return Node.withAttributes attributes (.labelled head (← read (.type true)))

def namedFields : Read (List Node) := do
  return (← listIn .curly (namedField read)).1

def unnamedFields : Read (List Node) := do
  return (← listIn .round (unnamedField read)).1

def structure? (head : String) : Read Node := do
  let head := head ++ "struct " ++ (← name)
  let generics ← generics read
  let hasRules ← sees (startsWord "where")
  let before ← rules read
  match ← ahead with
  | .group .curly _ :: _ => return .members head generics before (← namedFields read)
  | .group .round _ :: _ =>
    guard !hasRules
    let fields ← unnamedFields read
    let after ← rules read
    mark ";"
    return .positions head generics (some (.unnamedFields fields)) after
  | _ =>
    mark ";"
    return .positions head generics none before

def variant : Read Node := do
  let attributes ← outerAttributes read
  let _ ← dropped visibility
  let name ← name
  let fields ← match ← ahead with
    | .group .curly _ :: _ => some <$> (.namedFields <$> namedFields read)
    | .group .round _ :: _ => some <$> (.unnamedFields <$> unnamedFields read)
    | _ => pure none
  return Node.withAttributes attributes (.variant name fields (← value? read))

def enumeration (head : String) : Read Node := do
  let head := head ++ "enum " ++ (← name)
  let generics ← generics read
  let rules ← rules read
  return .members head generics rules (← listIn .curly (variant read)).1

def union (head : String) : Read Node := do
  let head := head ++ "union " ++ (← name)
  let generics ← generics read
  let rules ← rules read
  return .members head generics rules (← namedFields read)

def endsTypeBounds (trees : List TokenTree) : Bool :=
  startsWord "where" trees || startsMarks "=" trees || startsMarks ";" trees

/-- A type with another name, as it was read. -/
structure TypeParts where
  head : String
  generics : List Node
  hasColon : Bool
  bounds : List Node
  type : Option Node
  rules : List Node

/-- Where the rules of a type with another name stand: in front of the type, behind it, or at either
place. -/
inductive RulesSpot where
  | before
  | after
  | either
  deriving DecidableEq

/-- Reads a type with another name. At either place it has rules only once. -/
def typeParts (head : String) (spot : RulesSpot) : Read TypeParts := do
  word "type"
  let head := head ++ "type " ++ (← name)
  let generics ← generics read
  let hasColon ← sees (startsMarks ":")
  let bounds ← colonBounds read endsTypeBounds
  let isRuled ← sees (startsWord "where")
  let before ← if spot = .after then pure [] else rules read
  let type ← if ← takesMark "=" then some <$> read (.type true) else pure none
  let after ← if spot = .after || (spot = .either && !isRuled) then rules read else pure []
  mark ";"
  return { head, generics, hasColon, bounds, type, rules := before ++ after }

/-- Reads a type with another name as a declaration. -/
def typeAlias (start : Place) (head : String) : Read Node := do
  let parts ← typeParts read head .before
  match parts.type, parts.hasColon with
  | some type, false => return .typeAlias parts.head parts.generics parts.rules type
  | _, _ => verbatim start

/-! ### Implementations and interfaces -/

def implMember : Read Node := do
  let start ← get
  let attributes ← outerAttributes read
  let head ← visibility
  let isDefault ← sees fun trees => startsWord "default" trees && !startsMarks "!" trees.tail
  let head := head ++ (← if isDefault then headWord "default" else pure "")
  let found ←
    if ← seesProcedure false then do
      let (node, _) ← procedureStart read head false
      if ← takesMark ";" then verbatim start else node <$> some <$> body read
    else if ← takesWord "const" then constantFrom read start (head ++ "const ") false
    else if ← sees (startsWord "type") then do
      let parts ← typeParts read head .after
      if parts.type.isNone || parts.hasColon then verbatim start
      else pure (.itemType parts.head parts.generics [] parts.type parts.rules)
    else do
      guard (head == "" && (← sees startsExpandItem))
      expandItem false
  match found with
  | .verbatim => return found
  | _ => return found.withAttributes attributes

def implementation (start : Place) (head : String) : Read Node := do
  let isVisible := head != ""
  let head := (← headWord "default") ++ (← headWord "unsafe") ++ "impl"
  word "impl"
  let generics ← if ← sees startsGenerics then generics read else pure []
  let forConst ← match ← ahead with
    | .mark '?' _ :: .word "const" :: _ => do
      mark "?"
      takesWord "const"
    | _ => takesWord "const"
  let negative ← sees fun trees => startsMarks "!" trees && !startsGroup .curly trees.tail
  if negative then mark "!"
  let first ← read (.type true)
  let isFor ← takesWord "for"
  guard (isFor || !negative)
  let (through, type) ←
    if isFor then do
      let type ← read (.type true)
      pure (traitOf? first, type)
    else pure (none, first)
  let rules ← rules read
  let inner ← declsOf read (implMember read)
  if isVisible || forConst || (isFor && through.isNone) then verbatim start
  else return .implementation head generics negative through type rules inner
where
  /-- The path of a trait, if a type is one. -/
  traitOf? : Node → Option Node
    | .named (.path rooted segments) => some (.path rooted segments)
    | _ => none

def traitMember : Read Node := do
  let start ← get
  let attributes ← outerAttributes read
  let head ← visibility
  let head := head ++ (← headWord "default")
  let found ←
    if ← seesProcedure false then do
      let (node, _) ← procedureStart read "" false
      if ← takesMark ";" then pure (node none) else node <$> some <$> body read
    else if ← takesWord "const" then constantFrom read start "const " true
    else if ← sees (startsWord "type") then do
      let parts ← typeParts read "" .after
      pure (.itemType parts.head parts.generics parts.bounds parts.type parts.rules)
    else do
      guard (head == "" && (← sees startsExpandItem))
      expandItem false
  match found with
  | .verbatim => return found
  | _ => if head == "" then return found.withAttributes attributes else verbatim start

def endsInterfaceBounds (trees : List TokenTree) : Bool :=
  startsWord "where" trees || startsGroup .curly trees

/-- Reads an interface from behind its keyword. -/
def interfaceFrom (head : String) (mayAlias : Bool) : Read Node := do
  let head := head ++ (← name)
  let generics ← generics read
  if mayAlias && (← takesMark "=") then
    let (bounds, _) ← separated "+"
      (fun trees => startsWord "where" trees || startsMarks ";" trees) (read (.bound false true))
    let rules ← rules read
    mark ";"
    return .interfaceAlias head generics bounds rules
  let bounds ← colonBounds read endsInterfaceBounds
  let rules ← rules read
  return .interface head generics bounds rules (← declsOf read (traitMember read))

def interface (head : String) : Read Node := do
  let isUnchecked ← headWord "unsafe"
  let isAuto ← headWord "auto"
  word "trait"
  interfaceFrom read (head ++ isUnchecked ++ isAuto ++ "trait ")
    (isUnchecked == "" && isAuto == "")

/-! ### Foreign declarations and modules -/

/-- Reads a variable that is defined elsewhere. -/
def foreignShared (start : Place) (head : String) : Read Node := do
  let isUnchecked ← takesWord "unsafe"
  let isSafe ← if isUnchecked then pure false else takesWord "safe"
  word "static"
  let isMut ← headWord "mut"
  let name ← name
  mark ":"
  let type ← read (.type true)
  let value ← value? read
  mark ";"
  if isUnchecked || isSafe || value.isSome then verbatim start
  else return .constant (head ++ "static " ++ isMut ++ name) type none

/-- Whether a variable that is defined elsewhere is ahead. -/
def startsForeignShared (trees : List TokenTree) : Bool :=
  startsWord "static" trees ||
    (startsAny ["unsafe", "safe"] trees && startsWord "static" trees.tail)

/-- Reads a declaration of what is defined elsewhere. -/
def foreignMember : Read Node := do
  let start ← get
  let attributes ← outerAttributes read
  let head ← visibility
  let found ←
    if ← seesProcedure true then do
      let (node, isSafe) ← procedureStart read head true
      if ← takesMark ";" then if isSafe then verbatim start else pure (node none)
      else
        let _ ← body read
        verbatim start
    else if ← sees startsForeignShared then foreignShared read start head
    else if ← sees (startsWord "type") then do
      let parts ← typeParts read head .either
      if parts.type.isSome || parts.hasColon then verbatim start
      else pure (.foreignType parts.head parts.generics)
    else do
      guard (head == "" && (← sees startsExpandItem))
      expandItem false
  match found with
  | .verbatim => return found
  | _ => return found.withAttributes attributes

/-- Reads declarations of what is defined elsewhere. -/
def foreign : Read Node := do
  let isUnchecked ← headWord "unsafe"
  guard (← sees (startsWord "extern"))
  let text ← convention
  return .container ((isUnchecked ++ text).trimAsciiEnd.toString)
    (some (← declsOf read (foreignMember read)))

def module (head : String) : Read Node := do
  let isUnchecked ← headWord "unsafe"
  word "mod"
  let head := head ++ isUnchecked ++ "mod " ++ (← nameOr ["try"])
  if ← takesMark ";" then return .container head none
  return .container head (some (← declsOf read (read .decl)))

/-- Reads a declaration of what is to be expanded, which is kept as it is. -/
def expander (start : Place) : Read Node := do
  word "macro"
  let _ ← name
  if ← sees (startsGroup .round) then
    let _ ← group
  let (bracket, _) ← group
  guard (bracket = .curly)
  verbatim start

/-! ### Any declaration -/

def declFrom (start : Place) : Read Node := do
  let head ← visibility
  if ← seesProcedure false then
    let (node, _) ← procedureStart read head false
    if ← takesMark ";" then return ← verbatim start
    return node (some (← body read))
  let trees ← ahead
  let behind := trees.tail
  match trees with
  | .word "extern" :: _ =>
    if startsWord "crate" behind then library head
    else
      guard (head == "")
      foreign read
  | .word "use" :: _ => imports read start head
  | .word "static" :: _ => shared read start head
  | .word "const" :: _ =>
    word "const"
    constantFrom read start (head ++ "const ") false
  | .word "unsafe" :: .word kind :: _ =>
    match kind with
    | "trait" | "auto" => interface read head
    | "impl" => implementation read start head
    | "extern" =>
      guard (head == "")
      foreign read
    | "mod" => module read head
    | _ => failure
  | .word "mod" :: _ => module read head
  | .word "type" :: _ => typeAlias read start head
  | .word "struct" :: _ =>
    word "struct"
    structure? read head
  | .word "enum" :: _ =>
    word "enum"
    enumeration read head
  | .word "trait" :: _ => interface read head
  | .word "impl" :: _ => implementation read start head
  | .word "macro" :: _ => expander start
  | _ =>
    if startsWord "union" trees && startsName behind then
      word "union"
      union read head
    else if startsWord "auto" trees && startsWord "trait" behind then interface read head
    else if startsWord "default" trees && !startsMarks "!" behind then
      implementation read start head
    else
      guard (head == "" && startsExpandItem trees)
      expandItem true

def decl : Read Node := do
  let start ← get
  let attributes ← outerAttributes read
  match ← declFrom read start with
  | .verbatim => return .verbatim
  | node => return node.withAttributes attributes

end ProtoWire.Source.Reader
