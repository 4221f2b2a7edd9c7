import ProtoWire.Source.Layout.Pattern
import ProtoWire.Source.Reader.Statement

/-!
# Layouts of expressions and statements

* `Node.standsAlone`, `Node.addsSemicolon`, `Node.dropsSemicolon`: expressions as statements.
* `stmtsDocs`, `smallBlock`: statements, and blocks that may stand on one line.
-/

namespace ProtoWire.Source

namespace Node

/-- Whether an expression is a name no longer than one step of indentation. -/
def isShortName : Node → Bool
  | .item (.path false [.segment name none]) => name.utf8ByteSize ≤ 4
  | _ => false

/-- Whether an expression as the only argument stands right inside the brackets. -/
def isBlocklike : Node → Bool
  | .list _ | .block _ _ | .closure _ _ _ _ _ | .record _ _ _ | .tuple _ => true
  | _ => false

/-- Whether an expression as the body of a closure needs no brackets where the line breaks. -/
def closesItself : Node → Bool
  | .select _ _ _ | .call _ _ => true
  | node => node.isBlocklike

/-- Whether the bracket after a test may go to a new line. -/
def mayWrap : Node → Bool
  | .attributed _ node => node.mayWrap
  | .assign _ _ | .wait _ | .binary _ _ _ | .cast _ _ | .field _ _ | .index _ _
  | .method _ _ _ _ => true
  | .leave _ (some value) | .result (some value) | .produce (some value) => value.mayWrap
  | .call callee _ => callee.mayWrap
  | .fits _ value => value.mayWrap
  | .paren inner | .attempt inner => inner.mayWrap
  | .range _ _ (some stop) => stop.mayWrap
  | .address _ operand | .reference _ _ operand | .unary _ operand => operand.mayWrap
  | _ => false

/-- Whether an expression can stand as a statement: no block at its start ends it early. -/
def standsAlone : Node → Bool
  | .attributed _ node => node.standsAlone
  | .assign target _ => target.standsAlone
  | .wait base | .field base _ | .attempt base => base.standsAlone
  | .method receiver _ _ _ => receiver.standsAlone
  | .binary _ left _ => left.takesSemicolon && left.standsAlone
  | .call callee _ => callee.takesSemicolon && callee.standsAlone
  | .cast operand _ => operand.takesSemicolon && operand.standsAlone
  | .index base _ => base.takesSemicolon && base.standsAlone
  | .range (some first) _ _ => first.takesSemicolon && first.standsAlone
  | _ => true

def assigns (op : String) : Bool :=
  binaryOps.lookup op == some Level.assign

/-- Whether an expression has a semicolon behind it even as the last of a block. -/
def addsSemicolon (node : Node) : Bool :=
  match node.bare with
  | .assign _ _ | .leave _ _ | .again _ | .result _ | .produce _ => true
  | .binary op _ _ => assigns op
  | _ => false

def dropsSemicolon : Node → Bool
  | .attributed _ node => node.dropsSemicolon
  | .each _ _ _ _ | .during _ _ _ | .cond _ _ none => true
  | .cond _ _ (some otherwise) => otherwise.dropsSemicolon
  | _ => false

/-- Whether a literal stands in a list without a line of its own. -/
def isSmallLiteral (node : Node) : Bool :=
  match node.bare with
  | .literal text => [.character, .integer, .truth].contains (literalKind text)
  | _ => false

/-- The body of an arm: a block of a single expression stands for it. -/
def unblocked : Node → Node
  | .block (.plain none) (.body [] [.run value false]) => value.unblocked
  | .tuple [] => .block (.plain none) (.body [] [])
  | node => node

end Node

namespace Layout

open Doc (consistent filled space soft line lineIfNonempty noBreak)

variable (docs : Layouter)

/-! ### Last texts -/

mutual

def lastText? : Doc → Option String
  | .text content => some content
  | .gap _ => none
  | .group _ _ _ parts => lastTextOf? parts

def lastTextOf? : List Doc → Option String
  | [] => none
  | d :: rest =>
    match lastTextOf? rest with
    | some content => some content
    | none => lastText? d

end

/-! ### Statements -/

def labelDocs : Option String → List Doc
  | some label => [.text (label ++ ": ")]
  | none => []

def bodyParts : Node → List Node × List Node
  | .body attributes stmts => (attributes, stmts)
  | _ => ([], [])

def expandDocs (semicolon : Bool) (call : Node) : List Doc :=
  let ends : Bool := match call with
    | .expansion _ bracket _ => semicolon && bracket != .curly
    | _ => false
  expansionDocs none call ++ (if ends then [.text ";"] else []) ++ [line 0]

def stmtDocs (isLast : Bool) : Node → List Doc
  | .attributed attributes (.expand call semicolon) =>
    attributesDocs docs attributes ++ expandDocs (semicolon || !isLast) call
  | .expand call semicolon => expandDocs (semicolon || !isLast) call
  | .run value semicolon =>
    let ends := if semicolon then !value.dropsSemicolon else value.addsSemicolon
    [filled 0 (docs .start value ++ if ends then [.text ";"] else []), line 0]
  | .nothing => []
  | node => docs .inner node

def stmtsDocs : List Node → List Doc
  | [] => []
  | [node] => stmtDocs docs true node
  | node :: rest => stmtDocs docs false node ++ stmtsDocs rest

/-- A block that may stand on one line. -/
def smallBlock (block : Node) : List Doc :=
  let (attributes, found) := bodyParts block
  if attributes.isEmpty && found.isEmpty then [.text "\x7b\x7d"]
  else
    .text "\x7b" :: dedent (space 0 :: attributesDocs docs attributes ++
      match found with
      | [.run value false] => [filled 0 (docs .start value), space 0]
      | _ => stmtsDocs docs found) ++ [.text "\x7d"]

def defineDocs (pattern : Node) (value otherwise : Option Node) : List Doc :=
  let start := .text "let " :: docs .inner pattern ++ match value with
    | some value => .text " = " :: noBreak :: docs .inner value
    | none => []
  match otherwise with
  | some block =>
    [filled 0 (start ++ [space 0, .text "else "]), noBreak,
     consistent step (smallBlock docs block), .text ";", line 0]
  | none => [filled 0 start, .text ";", line 0]

/-- A body that starts on its own line, in curly brackets that are already open. -/
def hangingBody (parts : List Doc) : List Doc :=
  [consistent step (dedent (lineIfNonempty 0 :: parts)), .text "\x7d"]

def insideDocs (block : Node) : List Doc :=
  let (attributes, found) := bodyParts block
  attributesDocs docs attributes ++ stmtsDocs docs found

/-! ### Chains -/

/-- A place before a dot where a line may break. A short name at the start of a line keeps its first
dot, and a dot never follows another one directly. -/
def dotBreak (start : Bool) (base : Node) (parts : List Doc) : List Doc :=
  if start && base.isShortName then []
  else
    let isDotted := (lastTextOf? parts).any (·.endsWith ".")
    [.gap { flat := if isDotted then some ' ' else none }]

def callArgs : List Node → List Doc
  | [arg] => if arg.isBlocklike then docs .inner arg else [listed step [docs .inner arg]]
  | args => [listed step (args.map (docs .inner))]

def linkDocs (start outdents : Bool) (base : Node) (name : String)
    (more : Option (List Doc × List Node)) : List Doc :=
  let parts := docs (.link start) base
  parts ++ dotBreak start base parts ++ .text "." :: .text name ::
    match more with
    | some (generics, args) =>
      generics ++ [consistent (if outdents then -step else 0)
        (.text "(" :: callArgs docs args ++ [.text ")"])]
    | none => []

/-- A link of a chain: the whole chain is one group. -/
def chained (spot : Spot) (parts : (start top : Bool) → List Doc) : List Doc :=
  match spot with
  | .inner => [consistent step (parts false true)]
  | .start => [consistent step (parts true true)]
  | .link start => parts start false

/-- Calls, fields and positions. -/
def chainDocs (spot : Spot) : Node → List Doc
  | .wait base => chained spot fun start _ => linkDocs docs start false base "await" none
  | .field base name => chained spot fun start _ => linkDocs docs start false base name none
  | .method receiver name generics args =>
    chained spot fun start top =>
      linkDocs docs start (top && start && receiver.isShortName) receiver name
        (some (genericsDocs docs true generics, args))
  | .attempt inner => docs spot inner ++ [.text "?"]
  | .index base position => docs spot base ++ bracketedDocs "[" "]" (docs .inner position)
  | .call callee args =>
    let spot := match spot with
      | .link _ => .link false
      | spot => spot
    docs spot callee ++ bracketedDocs "(" ")" (callArgs docs args)
  | _ => []

/-! ### Expressions -/

def tested (test : Node) : Doc :=
  consistent 0 (docs .inner test ++ [if test.mayWrap then space 0 else .text " "])

/-- What stands in brackets only where the line breaks. These are round where a block would not
hold the expression. -/
def bracedWhenBroken (node : Node) (parts : List Doc) (inArm comma : Bool) : Doc :=
  let braces := node.standsAlone
  consistent step (.gap { before := some (if braces then '\x7b' else '(') } :: parts ++
    [.gap { offset := -step
            before := if braces && node.addsSemicolon then some ';' else none
            after := if braces then "\x7d" else if inArm then ")," else ")"
            flat := if comma then some ',' else none }])

def closureDocs (params : List Node) (result : Option Node) (inner : Node) :
    List Doc :=
  let inside := if params.isEmpty then []
    else soft 0 :: joined [.text ",", space 0] (params.map (docs .inner))
  match result with
  | none =>
    consistent step (.text "|" :: inside ++ [.text "|", space (-step)]) :: noBreak ::
      if inner.closesItself then docs .inner inner
      else [bracedWhenBroken inner (docs .inner inner) false false]
  | some type =>
    consistent step (.text "|" :: inside ++
      (if params.isEmpty then [] else dedent [trailingComma 0]) ++ [.text "|"]) ::
      .text " -> " :: docs .inner type ++ .text " " :: noBreak :: docs .inner inner

def armDocs (pattern : Node) (test : Option Node) (inner : Node) : List Doc :=
  let head := docs .inner pattern ++ behind " if " (test.map (docs .inner)) ++ [.text " =>"]
  let inner := inner.unblocked
  match inner.bare with
  | .block (.plain label) block =>
    [filled 0 (head ++ .text " " :: labelDocs label ++ .text "\x7b" :: noBreak ::
      hangingBody (insideDocs docs block))]
  | _ =>
    [filled 0 (head ++ [.text " ", noBreak,
      bracedWhenBroken inner (docs .start inner) true inner.takesComma])]

def kindText : BlockKind → String
  | .plain (some label) => label ++ ": "
  | .plain none => ""
  | .future isMove => if isMove then "async move " else "async "
  | .constant => "const "
  | .unchecked => "unsafe "
  | .attempt => "try "

def otherwiseDocs : Node → List Doc
  | .cond test block otherwise =>
    .text " else " :: .text "if " :: consistent (-step) [tested docs test] ::
      smallBlock docs block ++
      match otherwise with
      | some node => otherwiseDocs node
      | none => []
  | .block _ block => .text " else " :: smallBlock docs block
  | _ => []

/-- A list of values. Small literals fill the lines. -/
def listDocs (elements : List Node) : List Doc :=
  let parts := elements.map (docs .inner)
  if elements.isEmpty then [.text "[]"]
  else if elements.all Node.isSmallLiteral then
    [consistent step ([.text "[", soft 0, filled 0 (joined [.text ",", space 0] parts)] ++
      dedent [trailingComma 0] ++ [.text "]"])]
  else [.text "[", listed step parts, .text "]"]

def fieldDocs : Node → List Doc
  | .attributed attributes node => attributesDocs docs attributes ++ fieldDocs node
  | .labelled label value => [.text label, filled 0 (docs .inner value)]
  | node => docs .inner node

def loopBody (block : Node) : List Doc :=
  .text "\x7b" :: noBreak :: hangingBody (insideDocs docs block)

def jumpDocs (words : List String) (value : Option Node) : List Doc :=
  .text (" ".intercalate words) :: behind " " (value.map (docs .inner))

/-- An expression that is no link of a chain. -/
def exprDocs : Node → List Doc
  | .list elements => listDocs docs elements
  | .assign target value =>
    [filled 0 (docs .inner target ++ .text " = " :: noBreak :: docs .inner value)]
  | .binary op left right =>
    [filled step (filled (-step) (docs .inner left) :: space 0 :: .text (op ++ " ") ::
      docs .inner right)]
  | .unary op operand => .text op :: docs .inner operand
  | .leave label value => jumpDocs docs ("break" :: label.toList) value
  | .again label => jumpDocs docs ("continue" :: label.toList) none
  | .result value => jumpDocs docs ["return"] value
  | .produce value => jumpDocs docs ["yield"] value
  | .cast operand type =>
    [filled step (filled (-step) (docs .inner operand) :: space 0 :: .text "as " ::
      docs .inner type)]
  | .address isMut operand =>
    .text (if isMut then "&raw mut " else "&raw const ") :: docs .inner operand
  | .closure binder head params result inner =>
    [filled 0 (binderDocs docs binder ++ (if head == "" then [] else [.text head]) ++
      closureDocs docs params result inner)]
  | .fits pattern value =>
    [filled 0 (.text "let " :: filled 0 (docs .inner pattern) :: .text " = " :: noBreak ::
      docs .inner value)]
  | .cond test block otherwise =>
    [consistent step (.text "if " :: consistent (-step) [tested docs test] ::
      match otherwise with
      | some node =>
        smallBlock docs block ++ otherwiseDocs docs node
      | none =>
        let stmts := (bodyParts block).2
        if stmts.isEmpty then [.text "\x7b\x7d"]
        else .text "\x7b" :: dedent (line 0 :: stmtsDocs docs stmts) ++ [.text "\x7d"])]
  | .select value attributes arms =>
    [filled 0 (.text "match " :: tested docs value :: .text "\x7b" :: noBreak ::
      hangingBody (attributesDocs docs attributes ++
        arms.flatMap fun arm => docs .inner arm ++ [line 0]))]
  | .arm pattern test inner => armDocs docs pattern test inner
  | .loop label block =>
    labelDocs label ++ .text "loop \x7b" :: hangingBody (insideDocs docs block)
  | .during label test block =>
    labelDocs label ++ .text "while " :: tested docs test :: loopBody docs block
  | .each label pattern values block =>
    [filled 0 (labelDocs label ++ .text "for " :: docs .inner pattern ++ .text " in " :: noBreak ::
      tested docs values :: loopBody docs block)]
  | .record path fields others =>
    [.group step true (some 34) (dedent (filled (-step) (pathDocs docs true path) ::
      .text " \x7b" :: spaceIfNonempty ::
      fieldsDocs (fields.map (fieldDocs docs))
        (others.map fun node => .text ".." :: docs .inner node))), .text "\x7d"]
  | _ => []

def sharedDocs : Node → List Doc
  | .hole => [.text "_"]
  | .reference lifetime isMut target =>
    .text "&" :: (lifetime.map fun name => Doc.text (name ++ " ")).toList ++
      (if isMut then [.text "mut "] else []) ++ docs .inner target
  | .tuple elements => tupled (elements.map (docs .inner))
  | .paren inner => bracketedDocs "(" ")" (docs .inner inner)
  | .replicate element length =>
    bracketedDocs "[" "]" (docs .inner element ++ .text "; " :: docs .inner length)
  | .labelled label node =>
    (if label == "" then [] else [.text label]) ++ docs .inner node
  | .label name => [.text name]
  | .literal text => [.text text]
  | .item path => pathDocs docs true path
  | .range start limits stop => optional docs start ++ .text limits :: optional docs stop
  | .block kind block =>
    (if kindText kind == "" then [] else [.text (kindText kind)]) ++
      [consistent step (smallBlock docs block)]
  | node => expansionDocs none node

end Layout

end ProtoWire.Source
