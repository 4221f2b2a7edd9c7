import ProtoWire.Source.Layout.Expr

/-!
# Layouts of declarations

A declaration is laid out with its body in curly brackets.
-/

namespace ProtoWire.Source.Layout

open Doc (consistent filled space soft line lineIfNonempty noBreak)

variable (docs : Layouter)

/-- A declaration with its body in curly brackets. -/
def withBody (head inside : List Doc) : List Doc :=
  [consistent step (dedent (head ++ .text "\x7b" :: lineIfNonempty 0 :: inside)), .text "\x7d",
   line 0]

def declsDocs (block : Node) : List Doc :=
  let (attributes, items) := bodyParts block
  attributesDocs docs attributes ++ items.flatMap (docs .inner)

def procedureDocs (head : String) (generics params : List Node)
    (more result : Option Node) (rules : List Node) (block : Option Node) : List Doc :=
  let start := .text head :: declaredGenerics docs generics ++
    [.text "(", noBreak, listedWith 0 (params.map (docs .inner)) (more.map (docs .inner)),
     .text ")", consistent (-step) (behind " -> " (result.map (docs .inner)))]
  match block with
  | some block => withBody (start ++ rulesBeforeBody docs rules) (insideDocs docs block)
  | none => [consistent step (start ++ rulesAtEnd docs rules), line 0]

def unnamedDocs (fields : List Node) : List Doc :=
  bracketedDocs "(" ")" (dedent (soft 0 :: commaParts 0 (fields.map (docs .inner))))

def variantDocs (name : String) (fields value : Option Node) : List Doc :=
  .text name :: (match fields with
    | some (.namedFields fields) =>
      [.text " \x7b",
       consistent step (dedent (space 0 :: commaParts 1 (fields.map (docs .inner)))), .text "\x7d"]
    | some (.unnamedFields fields) => [consistent step (unnamedDocs docs fields)]
    | _ => []) ++ behind " = " (value.map (docs .inner))

def endsInGroup : Node → Bool
  | .usePath _ tree => endsInGroup tree
  | .useGroup _ => true
  | _ => false

def isSelf : Node → Bool
  | .useName text => text == "self" || text.startsWith "self as "
  | _ => false

def useTrees : List Node → List Doc
  | [] => []
  | [tree] => docs .inner tree
  | tree :: rest =>
    docs .inner tree ++ .text "," :: (if endsInGroup tree then line 0 else space 0) ::
      useTrees rest

/-- The tree that a list of them stands for: a single one needs no brackets, unless it is the path
before them. -/
def onlyTree? : List Node → Option Node
  | [tree] => if isSelf tree then none else some tree
  | _ => none

def useGroupDocs (trees : List Node) : List Doc :=
  match onlyTree? trees with
  | some tree => docs .inner tree
  | none =>
    [.text "\x7b", consistent step ([soft 0, filled 0 (useTrees docs trees)] ++
      dedent [trailingComma 0]), .text "\x7d"]

def valueDocs : Option Node → List Doc
  | some value => .text " = " :: noBreak :: docs .inner value
  | none => []

/-- A declaration, or a part of one. -/
def itemDocs : Node → List Doc
  | .constant head type value =>
    [consistent 0 (.text (head ++ ": ") :: docs .inner type ++ valueDocs docs value ++
      [.text ";"]), line 0]
  | .procedure head generics params more result rules block =>
    procedureDocs docs head generics params more result rules block
  | .members head generics rules parts =>
    withBody (.text head :: declaredGenerics docs generics ++ rulesBeforeBody docs rules)
      (parts.flatMap fun part => docs .inner part ++ [.text ",", line 0])
  | .positions head generics fields rules =>
    [consistent step (.text head :: declaredGenerics docs generics ++
      (match fields with
        | some (.unnamedFields fields) => unnamedDocs docs fields
        | _ => []) ++ rulesAtEnd docs rules), line 0]
  | .variant name fields value => variantDocs docs name fields value
  | .implementation head generics negative through type rules block =>
    withBody (filled (-step)
      (consistent step (.text head :: declaredGenerics docs generics) :: .text " " ::
        (match through with
          | some path =>
            (if negative then [.text "!"] else []) ++ pathDocs docs false path ++
              [space 0, .text "for "]
          | none => []) ++ docs .inner type) :: rulesBeforeBody docs rules) (declsDocs docs block)
  | .container head (some block) => withBody [.text (head ++ " ")] (declsDocs docs block)
  | .container head none => [consistent step [.text (head ++ ";")], line 0]
  | .interface head generics bounds rules block =>
    withBody (.text head :: declaredGenerics docs generics ++
      (if bounds.isEmpty then [] else .text ": " :: boundsDocs docs bounds) ++
      rulesBeforeBody docs rules) (declsDocs docs block)
  | .interfaceAlias head generics bounds rules =>
    [consistent step (.text head :: declaredGenerics docs generics ++ .text " = " :: noBreak ::
      brokenBounds docs bounds ++ rulesAtEnd docs rules), line 0]
  | .typeAlias head generics rules type =>
    [consistent step (.text head :: declaredGenerics docs generics ++ rulesOnLine docs rules ++
      [.text "= ", noBreak, filled (-step) (docs .inner type), .text ";"]), line 0]
  | .itemType head generics bounds type rules =>
    [consistent step (.text head :: declaredGenerics docs generics ++ colonBounds docs bounds ++
      (match type with
        | some type => [.text " = ", noBreak, filled (-step) (docs .inner type)]
        | none => []) ++ rulesOnLineAtEnd docs rules), line 0]
  | .foreignType head generics =>
    [consistent 0 (.text head :: declaredGenerics docs generics ++ [.text ";"]), line 0]
  | .expandItem call name =>
    let ends : Bool := match call with
      | .expansion _ bracket _ => bracket != .curly
      | _ => false
    expansionDocs name call ++ (if ends then [.text ";"] else []) ++ [line 0]
  | .expander name rules => expanderDocs name rules ++ [line 0]
  | .imported head tree => .text head :: docs .inner tree ++ [.text ";", line 0]
  | .usePath name tree => .text (name ++ "::") :: docs .inner tree
  | .useName text => [.text text]
  | .useGroup trees => useGroupDocs docs trees
  | .file attributes items =>
    attributesDocs docs attributes ++ items.flatMap (docs .inner)
  | _ => []

end ProtoWire.Source.Layout
