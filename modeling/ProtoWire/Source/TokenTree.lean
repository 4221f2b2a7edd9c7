import ProtoWire.Source.Literal
import ProtoWire.Source.Name
import ProtoWire.Source.Token
import ProtoWire.Text.Quoted

/-!
# Token trees of source text

* `TokenTree`: a word, lifetime, literal or mark, or what stands in brackets.
* `TokenTree.scan?`: the token trees of a text, without its blanks and comments. A comment that
  documents what follows it is an attribute.
* `TokenTree.tokens`: token trees as tokens.
-/

namespace ProtoWire.Source

/-- A part of a text. -/
inductive TokenTree where
  | word (text : String)
  | lifetime (text : String)
  | literal (text : String)
  /-- A mark of one character; a `joint` one has another mark right behind it. -/
  | mark (char : Char) (joint : Bool)
  | group (bracket : Bracket) (inner : List TokenTree)

/-! ### Blanks and comments -/

/-- The characters of a comment up to its end, and those behind it. Comments may be nested. -/
def comment? (depth : Nat) : List Char → Option (List Char × List Char)
  | '/' :: '*' :: rest =>
    (comment? (depth + 1) rest).map fun (text, rest) => ('/' :: '*' :: text, rest)
  | '*' :: '/' :: rest =>
    if depth = 1 then some ([], rest)
    else (comment? (depth - 1) rest).map fun (text, rest) => ('*' :: '/' :: text, rest)
  | c :: rest => (comment? depth rest).map fun (text, rest) => (c :: text, rest)
  | [] => none

/-- The characters up to the end of a line, and those behind it. -/
def lineRest : List Char → List Char × List Char
  | '\r' :: '\n' :: rest => ([], '\n' :: rest)
  | '\n' :: rest => ([], '\n' :: rest)
  | c :: rest =>
    let (text, rest) := lineRest rest
    (c :: text, rest)
  | [] => ([], [])

/-- Reads a blank or a plain comment. The two marks of direction count as blanks. -/
def afterBlank? : List Char → Option (List Char)
  | '/' :: '/' :: '!' :: _ => none
  | '/' :: '/' :: '/' :: '/' :: rest => some (lineRest rest).2
  | '/' :: '/' :: '/' :: _ => none
  | '/' :: '/' :: rest => some (lineRest rest).2
  | '/' :: '*' :: '*' :: '/' :: rest => some rest
  | '/' :: '*' :: '!' :: _ => none
  | '/' :: '*' :: '*' :: '*' :: rest => (comment? 1 ('*' :: '*' :: rest)).map Prod.snd
  | '/' :: '*' :: '*' :: _ => none
  | '/' :: '*' :: rest => (comment? 1 rest).map Prod.snd
  | c :: rest =>
    if Text.isBlank c || c.toNat == 0x200e || c.toNat == 0x200f then some rest else none
  | [] => none

/-- Whether each carriage return has a line feed behind it. -/
def endsLines : List Char → Bool
  | '\r' :: '\n' :: rest => endsLines rest
  | '\r' :: _ => false
  | _ :: rest => endsLines rest
  | [] => true

/-- A comment that documents, whether it documents what it stands in, and what is left behind it. -/
def documentation? : List Char → Option (List Char × Bool × List Char)
  | '/' :: '/' :: '!' :: rest => checked true (lineRest rest)
  | '/' :: '/' :: '/' :: rest => checked false (lineRest rest)
  | '/' :: '*' :: '!' :: rest => (comment? 1 rest).bind (checked true)
  | '/' :: '*' :: '*' :: rest => (comment? 1 rest).bind (checked false)
  | _ => none
where
  checked (inner : Bool) : List Char × List Char → Option (List Char × Bool × List Char)
    | (text, rest) => if endsLines text then some (text, inner, rest) else none

/-- The attribute that stands for a documenting comment. -/
def documentationTrees (text : List Char) (inner : Bool) : List TokenTree :=
  .mark '#' false :: (if inner then [.mark '!' false] else []) ++
    [.group .square
      [.word "doc", .mark '=' false, .literal (Text.literal (String.ofList text))]]

/-! ### Leaves -/

def isMark (c : Char) : Bool :=
  "~!@#$%^&*-=+|;:,<.>/?".toList.contains c || c.toNat == 39

def startsMark : List Char → Bool
  | '/' :: '/' :: _ | '/' :: '*' :: _ => false
  | c :: _ => isMark c
  | [] => false

def plainWord? : List Char → Option (String × List Char)
  | c :: rest =>
    if Text.isIdentifierStart c then
      some (String.ofList (c :: rest.takeWhile Text.isIdentifierPart),
        rest.dropWhile Text.isIdentifierPart)
    else none
  | [] => none

def word? : List Char → Option (String × List Char)
  | 'r' :: '#' :: rest => do
    let (word, rest) ← plainWord? rest
    if unescapable.contains word then none else some ("r#" ++ word, rest)
  | chars => plainWord? chars

/-- Whether characters start a quoted literal, and so no word. -/
def startsQuote (chars : List Char) : Bool :=
  ["r\"", "b\"", "br\"", "br#", "c\"", "cr\"", "cr#"].any (·.toList.isPrefixOf chars) ||
    (chars.head? == some 'b' && chars.tail.head?.any (·.toNat == 39))

/-- The tree that starts with a tick before these characters: a lifetime, or the tick alone before
a literal. No other tick or hash may end the word. -/
def ticked? (chars : List Char) : Option (TokenTree × List Char) := do
  let (word, rest) ← word? chars
  let escaped := "r#".toList.isPrefixOf chars
  if rest.head?.any fun c => c.toNat == 39 || (c == '#' && !escaped) then none
  else if (literalLength? chars).isSome || startsQuote chars then
    some (.mark (Char.ofNat 39) true, chars)
  else some (.lifetime (String.ofList (Char.ofNat 39 :: word.toList)), rest)

/-- What stands for a text that could not be read. It is a literal of its own. -/
def unreadable : String :=
  "(/*ERROR*/)"

def leaf? (chars : List Char) : Option (TokenTree × List Char) :=
  match literalLength? chars with
  | some length => some (.literal (String.ofList (chars.take length)), chars.drop length)
  | none =>
    match chars with
    | [] => none
    | c :: rest =>
      if startsMark chars then
        if c.toNat == 39 then ticked? rest else some (.mark c (startsMark rest), rest)
      else if startsQuote chars then none
      else (word? chars).map fun (word, rest) => (.word word, rest)

/-! ### Texts -/

namespace TokenTree

/-- The token trees of characters, if all can be read. `outer` holds the brackets that are open,
each with the trees before it, and `done` the trees behind the last one, in reverse. Every step
takes a character, hence the fuel. -/
def scanChars? : (fuel : Nat) → (outer : List (Bracket × List TokenTree)) →
    (done : List TokenTree) → List Char → Option (List TokenTree)
  | _, outer, done, [] => if outer.isEmpty then some done.reverse else none
  | 0, _, _, _ :: _ => none
  | fuel + 1, outer, done, chars@(c :: rest) =>
    match afterBlank? chars, documentation? chars with
    | some rest, _ => scanChars? fuel outer done rest
    | none, some (text, inner, rest) =>
      scanChars? fuel outer ((documentationTrees text inner).reverse ++ done) rest
    | none, none =>
      if unreadable.toList.isPrefixOf chars then
        scanChars? fuel outer (.literal unreadable :: done) (chars.drop unreadable.length)
      else
        match Bracket.all.find? (·.opens == c), Bracket.all.find? (·.closes == c) with
        | some bracket, _ => scanChars? fuel ((bracket, done) :: outer) [] rest
        | none, some bracket =>
          match outer with
          | (opened, before) :: outer =>
            if opened = bracket then
              scanChars? fuel outer (.group bracket done.reverse :: before) rest
            else none
          | [] => none
        | none, none => do
          let (tree, rest) ← leaf? chars
          scanChars? fuel outer (tree :: done) rest

/-- The token trees of a text. A byte order mark in front is passed over. -/
def scan? (text : String) : Option (List TokenTree) :=
  let chars := match text.toList with
    | c :: rest => if c.toNat == 0xfeff then rest else c :: rest
    | [] => []
  scanChars? chars.length [] [] chars

/-! ### Tokens -/

mutual

def tokens : TokenTree → List Token
  | .word text | .lifetime text | .literal text => [.plain text]
  | .mark char joint => [if joint then .opening char.toString else .plain char.toString]
  | .group bracket inner => bracketed bracket (tokensAll inner)

def tokensAll : List TokenTree → List Token
  | [] => []
  | t :: rest => t.tokens ++ tokensAll rest

end

mutual

/-- How many leaves and brackets there are. -/
def size : TokenTree → Nat
  | .group _ inner => sizeAll inner + 1
  | .word _ | .lifetime _ | .literal _ | .mark _ _ => 1

/-- How many leaves and brackets there are in several trees. -/
def sizeAll : List TokenTree → Nat
  | [] => 0
  | t :: rest => t.size + sizeAll rest

end

end TokenTree

end ProtoWire.Source
