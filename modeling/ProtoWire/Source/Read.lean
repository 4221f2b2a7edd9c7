import ProtoWire.Source.Node

/-!
# Readers of token trees

A reader takes token trees from the front of those ahead, or fails. Behind it, it leaves the tokens
that it has passed, as they are written out again.
-/

namespace ProtoWire.Source

/-- Where a reader stands. -/
structure Place where
  ahead : List TokenTree
  /-- The tokens passed, the last one first. -/
  written : List Token := []
  /-- Whether all that was passed has a layout. -/
  hasLayout : Bool := true

abbrev Read := StateT Place Option

/-! ### What is ahead -/

def afterMarks : List Char → List TokenTree → Option (List TokenTree)
  | [], trees => some trees
  | [c], .mark d _ :: rest => if c = d then some rest else none
  | c :: chars, .mark d true :: rest => if c = d then afterMarks chars rest else none
  | _, _ => none

/-- Whether an operator is ahead. -/
def startsMarks (text : String) (trees : List TokenTree) : Bool :=
  (afterMarks text.toList trees).isSome

def startsWord (word : String) : List TokenTree → Bool
  | .word text :: _ => text == word
  | _ => false

def startsAny (words : List String) : List TokenTree → Bool
  | .word text :: _ => words.contains text
  | _ => false

def startsWords : List TokenTree → Bool
  | .word _ :: _ => true
  | _ => false

def isName (word : String) : Bool :=
  !isKeyword word && word != "_"

def startsName : List TokenTree → Bool
  | .word text :: _ => isName text
  | _ => false

def startsLifetime : List TokenTree → Bool
  | .lifetime _ :: _ => true
  | _ => false

def startsGroup (bracket : Bracket) : List TokenTree → Bool
  | .group found _ :: _ => found = bracket
  | _ => false

def isNumber (text : String) : Bool :=
  text.toList.head?.any Char.isDigit

def startsLiteral : List TokenTree → Bool
  | .literal _ :: _ => true
  | .word text :: _ => text == "true" || text == "false"
  | .mark '-' _ :: .literal text :: _ => isNumber text
  | _ => false

def startsKind (kind : LiteralKind) : List TokenTree → Bool
  | .literal text :: _ => literalKind text == kind
  | _ => false

namespace Read

/-! ### Leaves -/

def ahead : Read (List TokenTree) := do
  return (← get).ahead

/-- Whether a test holds of the trees ahead. -/
def sees (test : List TokenTree → Bool) : Read Bool := do
  return test (← ahead)

def atEnd : Read Bool :=
  sees List.isEmpty

def advance (trees : List TokenTree) (tokens : List Token) : Read Unit :=
  modify fun place => { place with ahead := trees, written := tokens.reverse ++ place.written }

/-- Leaves tokens behind without passing anything. -/
def write (texts : List String) : Read Unit := do
  advance (← ahead) (words texts)

/-- Passes over an operator, if it is ahead. -/
def takesMark (text : String) : Read Bool := do
  match afterMarks text.toList (← ahead) with
  | some rest =>
    advance rest [.plain text]
    return true
  | none => return false

def mark (text : String) : Read Unit := do
  guard (← takesMark text)

/-- The tree ahead, if `pick` accepts it. -/
def picked {α : Type} (pick : TokenTree → Option α) : Read α := do
  match ← ahead with
  | tree :: rest =>
    let value ← pick tree
    advance rest tree.tokens
    return value
  | [] => failure

def anyWord : Read String :=
  picked fun
    | .word text => some text
    | _ => none

/-- Passes over a word, if it is ahead. -/
def takesWord (word : String) : Read Bool := do
  if ← sees (startsWord word) then
    let _ ← anyWord
    return true
  else return false

def word (text : String) : Read Unit := do
  guard (← takesWord text)

/-- Passes over a word if it is ahead, and answers it with a blank behind it. -/
def headWord (text : String) : Read String := do
  return if ← takesWord text then text ++ " " else ""

def name : Read String :=
  picked fun
    | .word text => if isName text then some text else none
    | _ => none

/-- Reads a name that may be one of some keywords too. -/
def nameOr (words : List String) : Read String := do
  if ← sees (startsAny words) then anyWord else name

def lifetime : Read String :=
  picked fun
    | .lifetime text => some text
    | _ => none

def lifetime? : Read (Option String) := do
  if ← sees startsLifetime then some <$> lifetime else return none

def literal : Read String := do
  guard (← sees startsLiteral)
  let sign := if ← takesMark "-" then "-" else ""
  let text ← picked fun
    | .literal text | .word text => some text
    | _ => none
  return sign ++ text

/-! ### Brackets and lists -/

/-- What stands in brackets, all of which is to be read. -/
def between {α : Type} (bracket : Bracket) (inner : Read α) : Read α := do
  match ← ahead with
  | .group found trees :: rest =>
    guard (found = bracket)
    advance trees [.opens bracket]
    let value ← inner
    guard (← atEnd)
    advance rest [.closes bracket]
    return value
  | _ => failure

/-- The trees in brackets, and which brackets these are. -/
def group : Read (Bracket × List TokenTree) := do
  match ← ahead with
  | .group bracket trees :: rest =>
    advance rest (bracketed bracket (TokenTree.tokensAll trees))
    return (bracket, trees)
  | _ => failure

/-- Repeats a reader until it answers nothing. Every round takes a tree, hence the fuel. -/
def rounds {α : Type} (round : Read (Option α)) : (fuel : Nat) → Read (List α)
  | 0 => failure
  | fuel + 1 => do
    match ← round with
    | some value => return value :: (← rounds round fuel)
    | none => return []

/-- Repeats a reader until it answers nothing. -/
def repeated {α : Type} (round : Read (Option α)) : Read (List α) := do
  rounds round ((← ahead).length + 1)

/-- Reads entries up to where `ends` holds. -/
def upTo {α : Type} (ends : List TokenTree → Bool) (entry : Read α) : Read (List α) :=
  repeated do
    if ← sees ends then return none else some <$> entry

/-- Reads entries while `starts` holds. -/
def while_ {α : Type} (starts : List TokenTree → Bool) (entry : Read α) : Read (List α) :=
  upTo (!starts ·) entry

/-- Reads entries with a separator between them, up to where `ends` holds, and whether one more
stands behind the last. Every entry takes a tree, hence the fuel. -/
def entries {α : Type} (separator : String) (ends : List TokenTree → Bool) (entry : Read α) :
    (fuel : Nat) → Read (List α × Bool)
  | 0 => failure
  | fuel + 1 => do
    if ← sees ends then return ([], false)
    let first ← entry
    if ← sees ends then return ([first], false)
    mark separator
    let (rest, trailing) ← entries separator ends entry fuel
    return (first :: rest, rest.isEmpty || trailing)

/-- Reads entries with a separator between them, up to where `ends` holds. -/
def separated {α : Type} (separator : String) (ends : List TokenTree → Bool) (entry : Read α) :
    Read (List α × Bool) := do
  entries separator ends entry ((← ahead).length + 1)

def listIn {α : Type} (bracket : Bracket) (entry : Read α) : Read (List α × Bool) :=
  between bracket (separated "," List.isEmpty entry)

/-- Reads entries up to where `ends` holds or none of a separator follows. Every entry takes a tree,
hence the fuel. -/
def chain {α : Type} (separator : String) (ends : List TokenTree → Bool) (entry : Read α) :
    (fuel : Nat) → Read (List α)
  | 0 => failure
  | fuel + 1 => do
    if ← sees ends then return []
    let first ← entry
    if ← takesMark separator then return first :: (← chain separator ends entry fuel)
    return [first]

/-- Reads entries with plus signs between them, up to where `ends` holds or no sign follows. -/
def sum {α : Type} (ends : List TokenTree → Bool) (entry : Read α) : Read (List α) := do
  chain "+" ends entry ((← ahead).length + 1)

/-! ### Tokens that are left behind -/

/-- A reader that may fail without harm. -/
def attempt {α : Type} (r : Read α) : Read (Option α) := fun place =>
  match r place with
  | some (value, place) => some (some value, place)
  | none => some (none, place)

def wouldRead {α : Type} (r : Read α) : Read Bool := fun place =>
  some ((r place).isSome, place)

/-- What is read, apart from the tokens that it leaves behind. -/
def captured {α : Type} (r : Read α) : Read (α × List Token) := do
  let before := (← get).written
  modify fun place => { place with written := [] }
  let value ← r
  let tokens := (← get).written.reverse
  modify fun place => { place with written := before }
  return (value, tokens)

/-- Leaves behind no tokens of what is read. -/
def dropped {α : Type} (r : Read α) : Read α := do
  let place ← get
  let value ← r
  modify fun after => { after with written := place.written, hasLayout := place.hasLayout }
  return value

/-- Leaves behind no tokens of what is read if nothing comes of it. -/
def unlessEmpty {α : Type} (r : Read (List α)) : Read (List α) := do
  let (values, tokens) ← captured r
  unless values.isEmpty do
    advance (← ahead) tokens
  return values

/-- Whether the last token left behind is a curly bracket. -/
def endsInCurly : Read Bool := do
  return (← get).written.head? == some (.closes .curly)

def withoutLayout : Read Unit :=
  modify fun place => { place with hasLayout := false }

/-- Leaves behind as they are the trees passed since a place. They have no layout. -/
def verbatim (start : Place) : Read Node := do
  let rest ← ahead
  let passed := start.ahead.take (start.ahead.length - rest.length)
  set { ahead := rest, written := (TokenTree.tokensAll passed).reverse ++ start.written,
        hasLayout := false : Place }
  return .verbatim

end Read

/-! ### Goals -/

/-- How tightly an operator binds. -/
abbrev Level := Nat

/-- What can be read in the middle of something else. -/
inductive Goal where
  /-- A type; a sum of bounds is one only with `plus`. -/
  | type (plus : Bool)
  /-- A bound, which may name what is captured or may hold for constants only if that is allowed. -/
  | bound (mayCapture mayConst : Bool)
  /-- An expression; with `braces` a path may have the fields of a record behind it. -/
  | expr (braces : Bool)
  /-- An expression with the operators in front of it. -/
  | unary (braces : Bool)
  /-- The operators behind an expression that bind as tightly as `least` at least. -/
  | operators (braces : Bool) (least : Level) (left : Node)
  | pattern
  /-- A match. -/
  | select
  /-- The statements of a block, up to its end. -/
  | stmts
  | decl
  /-- Named fields in curly brackets. -/
  | fields
  | useTree (mayRoot : Bool)

abbrev Reader := Goal → Read Node

end ProtoWire.Source
