import ProtoWire.Source.Layout.Base

/-!
# Layouts of token trees

Token trees that are expanded, or that are the arguments of an attribute, are laid out by the look
of each token and the one before it.

* `treesDocs`: the body of what is expanded. A `matcher` says what may stand there.
* `argumentsDocs`: the arguments of an attribute.
-/

namespace ProtoWire.Source.Layout

open Doc (consistent filled space soft line lineIfNonempty noBreak)

/-! ### Bodies -/

/-- What comes before the next token. -/
inductive Before where
  | start
  | dollar
  | parameter
  | parameterColon
  | repetition
  | repetitionEnd
  | pound
  | poundBang
  | dot
  | colon
  | separator
  | name
  | nameBang
  | group
  | other
deriving DecidableEq

/-- The words that never end a name. -/
def nameless : List String :=
  ["as", "async", "await", "box", "break", "const", "continue", "dyn", "else", "enum", "extern",
   "fn", "for", "if", "impl", "in", "let", "loop", "macro", "match", "mod", "move", "mut", "pub",
   "ref", "return", "static", "struct", "trait", "type", "unsafe", "use", "where", "while", "yield"]

/-- What a word leaves for the next token. -/
def afterWord (word : String) : Before :=
  if nameless.contains word then .other else .name

/-- Whether a blank stands before a token, and what it leaves for the next one. -/
def Before.next (matcher : Bool) (before : Before) (tree : TokenTree) : Bool × Before :=
  match before, tree with
  | .parameter, .mark ':' false => (false, .parameterColon)
  | .parameterColon, .word _ => (false, .other)
  | .repetition, .mark c false =>
    (false, if "+*?".toList.contains c then .other else .repetitionEnd)
  | .repetition, .mark _ true => (false, .repetition)
  | .repetition, .word _ | .repetition, .literal _ | .repetition, .lifetime _ =>
    (false, .repetitionEnd)
  | .repetitionEnd, .mark '+' _ | .repetitionEnd, .mark '*' _ => (false, .other)
  | .pound, .mark '!' _ => (false, .poundBang)
  | .dollar, .group .round _ => (false, .repetition)
  | .pound, .group .square _ | .poundBang, .group .square _ => (false, .other)
  | .name, .group .round _ | .name, .group .square _ => (false, .group)
  | .name, .mark '!' false => (false, .nameBang)
  | .nameBang, .group .round _ | .nameBang, .group .square _ => (false, .other)
  | .colon, .mark ':' _ => (false, .separator)
  | _, .group .round _ | _, .group .square _ => (true, .group)
  | _, .group .curly _ => (true, .other)
  | _, .word word =>
    if before = .dollar && matcher then (false, .parameter)
    else if nameless.contains word then (true, .other)
    else (before != .dot && before != .separator, .name)
  | _, .literal text => (before != .dot, if text.endsWith "." then .other else .name)
  | _, .lifetime text => (true, afterWord (text.drop 1).toString)
  | _, .mark ',' _ | _, .mark ';' _ => (false, .other)
  | _, .mark '.' _ =>
    if matcher then (true, .other) else (before != .name && before != .group, .dot)
  | _, .mark ':' true => (before != .name, .colon)
  | _, .mark '$' _ => (true, .dollar)
  | _, .mark '#' _ => (true, .pound)
  | _, .mark _ _ => (true, .other)

/-- What parts a token from the one before it, unless both are `glued`. -/
def gapBefore (blank glued : Bool) (tree : TokenTree) : List Doc :=
  if glued then []
  else if blank then [space 0]
  else match tree with
    | .mark '.' _ => [soft 0]
    | _ => []

mutual

def treeDocs (matcher : Bool) : TokenTree → List Doc
  | .word text | .lifetime text | .literal text => [.text text]
  | .mark char _ => [.text char.toString]
  | .group bracket inner =>
    let parts := treesDocs matcher .start true inner
    let gap := if bracket = .curly && !inner.isEmpty then [space 0] else []
    .text bracket.opens.toString :: gap ++ parts ++ gap ++ [.text bracket.closes.toString]

/-- Tokens after `before`; `glued` says that the token before them and the first one are one. -/
def treesDocs (matcher : Bool) (before : Before) (glued : Bool) : List TokenTree → List Doc
  | [] => []
  | tree :: rest =>
    let (blank, after) := before.next matcher tree
    let gluedNext := match tree with
      | .mark c joint => joint || c == '$'
      | _ => false
    gapBefore blank glued tree ++ treeDocs matcher tree ++
      treesDocs matcher after gluedNext rest

end

def innerDocs (matcher : Bool) (trees : List TokenTree) : Doc :=
  filled 0 (treesDocs matcher .start true trees)

/-! ### Rules of expansion -/

def matcherDocs (bracket : Bracket) (matched : List TokenTree) : List Doc :=
  .text bracket.opens.toString ::
    (if matched.isEmpty then []
      else [consistent step [soft 0, innerDocs true matched, soft (-step)]]) ++
    [.text bracket.closes.toString]

/-- A rule by which something is expanded: what it matches, and what it is expanded to. -/
def expansionRule (bracket : Bracket) (matched expanded : List TokenTree) : List Doc :=
  matcherDocs bracket matched ++
    [.text " =", .text ">", .text " \x7b", noBreak] ++
    (if expanded.isEmpty then []
      else [consistent step [line 0, innerDocs false expanded, line (-step)]]) ++
    [.text "\x7d"]

/-- A rule that breaks off behind some `tail`. -/
def brokenRule (bracket : Bracket) (matched : List TokenTree) (tail : List Doc) : List Doc :=
  matcherDocs bracket matched ++ tail ++ [line 0]

def expansionRules : List TokenTree → List Doc
  | .group bracket matched :: .mark '=' _ :: .mark '>' _ :: .group _ expanded :: rest =>
    expansionRule bracket matched expanded ++ [.text ";", line 0] ++
      match rest with
      | _ :: rest => expansionRules rest
      | [] => []
  | [.group bracket matched] => brokenRule bracket matched []
  | [.group bracket matched, .mark '=' _] => brokenRule bracket matched [.text " ="]
  | [.group bracket matched, .mark '=' _, .mark '>' _] =>
    brokenRule bracket matched [.text " =", .text ">"]
  | _ => []

/-- The declaration of something to be expanded. -/
def expanderDocs (name : String) (body : List TokenTree) : List Doc :=
  [.text ("macro_rules! " ++ name ++ " \x7b"),
   consistent step (dedent (lineIfNonempty 0 :: expansionRules body)), .text "\x7d"]

/-! ### Arguments of attributes -/

/-- What comes before the next token of arguments. -/
inductive BeforeArgument where
  | word
  | mark
  | trailingComma
deriving DecidableEq

mutual

/-- A token of arguments, and what it leaves for the next one. -/
def argumentDocs (before : BeforeArgument) (isLast : Bool) :
    TokenTree → List Doc × BeforeArgument
  | .word text | .literal text =>
    ((if before = .word then [space 0] else []) ++ [.text text], .word)
  | .lifetime text => ([.text text], .word)
  | .mark c _ =>
    let blank := if before = .word && c == '=' then [.text " "] else []
    if c == ',' && isLast then (blank ++ [trailingComma 0], .trailingComma)
    else
      (blank ++ .text c.toString ::
        (if c == '=' then [.text " "] else if c == ',' then [space 0] else []), .mark)
  | .group bracket inner =>
    let (parts, last) := argumentsWithin .mark inner
    (match bracket with
      | .round =>
        [.text "(", consistent step (dedent (soft 0 :: parts ++
          if last = .trailingComma then [] else [soft 0])), .text ")"]
      | .square | .curly =>
        .text bracket.opens.toString :: parts ++ [.text bracket.closes.toString], .mark)

def argumentsWithin (before : BeforeArgument) : List TokenTree → List Doc × BeforeArgument
  | [] => ([], before)
  | tree :: rest =>
    let (parts, after) := argumentDocs before rest.isEmpty tree
    let (others, last) := argumentsWithin after rest
    (parts ++ others, last)

end

def argumentsDocs (bracket : Bracket) (body : List TokenTree) : List Doc :=
  (argumentDocs .word true (.group bracket body)).1

end ProtoWire.Source.Layout
