import ProtoWire.Source.Layout.Trees
import ProtoWire.Text.Split

/-!
# Layouts of attributes, paths and types

* `attributesDocs`: attributes. Comments are attributes too.
* `declaredGenerics`, `rulesDocs`: the parameters of a declaration, and what is asked of them.
* `typeDocs`: types.
-/

namespace ProtoWire.Source.Layout

open Doc (consistent filled space soft line noBreak)

variable (docs : Layouter)

/-! ### Paths -/

/-- The generic arguments of a path. In an expression they have a separator before them. None at all
are left out. -/
def genericsDocs (inExpr : Bool) : Option Node → List Doc
  | some (.angles (arg :: args)) =>
    (if inExpr then [.text "::"] else []) ++
      [.text "<", listed step ((arg :: args).map (docs .inner)), .text ">"]
  | some (.signature params result) =>
    [consistent step (.text "(" ::
      dedent (soft 0 :: commaParts 0 (params.map (docs .inner))) ++
        .text ")" :: behind " -> " (result.map (docs .inner)))]
  | _ => []

def segmentDocs (inExpr : Bool) : Node → List Doc
  | .segment name generics => .text name :: genericsDocs docs inExpr generics
  | _ => []

def segmentsDocs (inExpr : Bool) (segments : List Node) : List Doc :=
  joined [.text "::"] (segments.map (segmentDocs docs inExpr))

/-- A path, or an item of a type. -/
def pathDocs (inExpr : Bool) : Node → List Doc
  | .path rooted segments =>
    (if rooted then [.text "::"] else []) ++ segmentsDocs docs inExpr segments
  | .member type through segments =>
    .text "<" :: docs .inner type ++
      (match through with
        | some (.path rooted names) =>
          .text " as " :: (if rooted then [.text "::"] else []) ++ segmentsDocs docs false names
        | _ => []) ++ .text ">" :: .text "::" :: segmentsDocs docs inExpr segments
  | _ => []

/-- The text of a path of names alone. -/
def plainText : Node → String
  | .path rooted segments =>
    (if rooted then "::" else "") ++ "::".intercalate (segments.filterMap fun
      | .segment name _ => some name
      | _ => none)
  | _ => ""

/-! ### Attributes -/

/-- How the bodies of comments in a text are nested, from a depth on: whether all are closed. -/
def commentsClose : (depth : Nat) → List Char → Bool
  | depth, '/' :: '*' :: rest => commentsClose (depth + 1) rest
  | depth + 1, '*' :: '/' :: rest => commentsClose depth rest
  | 0, '*' :: '/' :: _ => false
  | depth, _ :: rest => commentsClose depth rest
  | depth, [] => depth == 0

/-- Whether a text can be the body of a comment between its own marks. -/
def fitsComment (text : String) : Bool :=
  commentsClose 0 text.toList && text.toList.getLast? != some '/'

def trimBlanks (text : String) : String :=
  String.ofList (text.toList.reverse.dropWhile (· == ' ')).reverse

/-- A text without the blanks at the ends of its lines, the last one apart. -/
def trimLines (text : String) : String :=
  match (Text.split '\n' text).reverse with
  | last :: others => "\n".intercalate ((others.map trimBlanks).reverse ++ [last])
  | [] => ""

def commentDocs? (inner : Bool) (name text : String) : Option (List Doc) :=
  let isLine := !text.contains '\n'
  let start := text.toList.head?
  let lineOf (opening : String) : Option (List Doc) :=
    some [.text (opening ++ trimBlanks text), line 0]
  let bodyOf (opening : String) : Option (List Doc) :=
    some [.text (opening ++ trimLines text ++ "*/"), line 0]
  match name, inner with
  | "doc", false =>
    if isLine && start != some '/' then lineOf "///"
    else if fitsComment text && start != some '*' && start != some '/' then bodyOf "/**"
    else none
  | "doc", true =>
    if isLine then lineOf "//!" else if fitsComment text then bodyOf "/*!" else none
  | "comment", _ =>
    if isLine then lineOf "//"
    else if fitsComment text && start != some '*' && start != some '!' then bodyOf "/*"
    else none
  | _, _ => none

def markedAttribute (inner : Bool) (parts : List Doc) : List Doc :=
  .text (if inner then "#!" else "#") :: .text "[" :: parts ++ [.text "]", space 0]

def attributeDocs : Node → List Doc
  | .flag inner path => markedAttribute inner [.text (plainText path)]
  | .arguments inner path bracket body =>
    markedAttribute inner (.text (plainText path) :: argumentsDocs bracket body)
  | .setting inner path value =>
    let comment := match value with
      | .literal text => (literalText? text).bind (commentDocs? inner (plainText path))
      | _ => none
    comment.getD (markedAttribute inner
      (.text (plainText path) :: .text " = " :: docs .inner value))
  | _ => []

def attributesDocs (attributes : List Node) : List Doc :=
  attributes.flatMap (attributeDocs docs)

/-! ### Generic parameters -/

def boundsDocs (bounds : List Node) : List Doc :=
  joined [.text " + "] (bounds.map (docs .inner))

def brokenBounds (bounds : List Node) : List Doc :=
  joined [space 0, .text "+ "] (bounds.map (docs .inner))

def colonBounds (bounds : List Node) : List Doc :=
  if bounds.isEmpty then [] else .text ": " :: brokenBounds docs bounds

def binderDocs : Option Node → List Doc
  | some (.binder params) =>
    .text "for<" :: joined [.text ", "] (params.map (docs .inner)) ++ [.text "> "]
  | _ => []

def declaredGenerics (params : List Node) : List Doc :=
  if params.isEmpty then []
  else [.text "<", listed 0 (params.map (docs .inner)), .text ">"]

def ruleDocs : Node → List Doc
  | .typeRule binder type bounds =>
    binderDocs docs binder ++ docs .inner type ++ [.text ":",
      filled (if bounds.length == 1 then 0 else step)
        ((if bounds.isEmpty then [] else [.text " "]) ++ brokenBounds docs bounds)]
  | .lifetimeRule name bounds =>
    [.text name, .text ":", filled step
      ((if bounds.isEmpty then [] else [.text " "]) ++
        joined [space 0, .text "+ "] (bounds.map fun bound => [.text bound]))]
  | _ => []

/-- The rules for parameters, each on a line of its own, before a body. -/
def rulesBeforeBody (rules : List Node) : List Doc :=
  if rules.isEmpty then [.text " "]
  else line (-step) :: .text "where" :: line 0 ::
    dedent (rules.flatMap fun rule => ruleDocs docs rule ++ [.text ",", line 0])

/-- The rules for parameters, each on a line of its own, at the end of a declaration. -/
def rulesAtEnd (rules : List Node) : List Doc :=
  if rules.isEmpty then [.text ";"]
  else line (-step) :: .text "where" :: line 0 ::
    joined [.text ",", line 0] (rules.map (ruleDocs docs)) ++ [.text ";"]

/-- The rules for parameters on the line of a declaration, before what it stands for. -/
def rulesOnLine (rules : List Node) : List Doc :=
  if rules.isEmpty then [.text " "]
  else space (-step) :: .text "where" :: space 0 ::
    dedent (commaParts 1 (rules.map (ruleDocs docs)))

/-- The rules for parameters on the line of a declaration, at its end. -/
def rulesOnLineAtEnd (rules : List Node) : List Doc :=
  if rules.isEmpty then [.text ";"]
  else space (-step) :: .text "where" :: space 0 ::
    joined [.text ",", space 0] (rules.map (ruleDocs docs)) ++ [.text ";"]

/-! ### Types -/

def expansionDocs (name : Option String) : Node → List Doc
  | .expansion path bracket body =>
    let gap := if bracket = .curly then line else soft
    .text (plainText path ++ "!") :: (name.map fun name => Doc.text (" " ++ name)).toList ++
      .text ((if bracket = .curly then " " else "") ++ bracket.opens.toString) ::
      (if body.isEmpty then []
        else [consistent step [gap 0, innerDocs false body, gap (-step)]]) ++
      [.text bracket.closes.toString]
  | _ => []

def bracketedDocs (opening closing : String) (parts : List Doc) : List Doc :=
  .text opening :: parts ++ [.text closing]

def typeDocs : Node → List Doc
  | .named path => pathDocs docs false path
  | .lifetime name => [.text name]
  | .itemValue name generics value =>
    .text name :: genericsDocs docs false generics ++ .text " = " :: docs .inner value
  | .itemBounds name generics bounds =>
    .text name :: genericsDocs docs false generics ++ [filled step (colonBounds docs bounds)]
  | .lifetimeParam name bounds =>
    [.text (name ++ if bounds.isEmpty then "" else ": " ++ " + ".intercalate bounds)]
  | .typeParam name bounds default =>
    [.text name, filled step (colonBounds docs bounds ++
      match default with
      | some type => space 0 :: .text "= " :: docs .inner type
      | none => [])]
  | .constParam name type default =>
    .text ("const " ++ name ++ ": ") :: docs .inner type ++
      behind " = " (default.map (docs .inner))
  | .trait isParen maybe binder path =>
    (if isParen then [.text "("] else []) ++ binderDocs docs binder ++
      (if maybe then [.text "?"] else []) ++ pathDocs docs false path ++
      (if isParen then [.text ")"] else [])
  | .capture names => [.text ("use<" ++ ", ".intercalate names ++ ">")]
  | .pointer isMut target => .text (if isMut then "*mut " else "*const ") :: docs .inner target
  | .slice element => bracketedDocs "[" "]" (docs .inner element)
  | .function binder head params more result =>
    binderDocs docs binder ++ .text head :: .text "(" ::
      listedWith step (params.map (docs .inner)) (more.map (docs .inner)) :: .text ")" ::
      behind " -> " (result.map (docs .inner))
  | .object bounds => .text "dyn " :: boundsDocs docs bounds
  | .hidden bounds => .text "impl " :: boundsDocs docs bounds
  | .never => [.text "!"]
  | .variadic label => (match label with
    | some label => docs .inner label ++ [.text ": "]
    | none => []) ++ [.text "..."]
  | _ => []

end ProtoWire.Source.Layout
