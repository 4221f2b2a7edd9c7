/-!
# Tokens

Round and square brackets have no blanks just inside them. An operator of several characters is one
token, and so is a path separator.
-/

namespace ProtoWire.Source

inductive Bracket where
  | round
  | square
  | curly
deriving DecidableEq

namespace Bracket

def opens : Bracket → Char
  | round => '('
  | square => '['
  | curly => '\x7b'

def closes : Bracket → Char
  | round => ')'
  | square => ']'
  | curly => '\x7d'

def all : List Bracket :=
  [round, square, curly]

end Bracket

/-- A token, by where it takes no blank. -/
inductive Token where
  | plain (text : String)
  /-- Takes no blank behind it. -/
  | opening (text : String)
  /-- Takes no blank before it. -/
  | closing (text : String)
deriving DecidableEq

namespace Token

def text : Token → String
  | plain text | opening text | closing text => text

def blankBetween : Token → Token → Bool
  | opening _, _ => false
  | _, closing _ => false
  | _, _ => true

def pieces : List Token → List String
  | [] => []
  | [t] => [t.text]
  | t :: u :: rest =>
    if blankBetween t u then t.text :: " " :: pieces (u :: rest) else t.text :: pieces (u :: rest)

def render (tokens : List Token) : String :=
  String.join (pieces tokens)

def opens (bracket : Bracket) : Token :=
  match bracket with
  | .curly => plain bracket.opens.toString
  | .round | .square => opening bracket.opens.toString

def closes (bracket : Bracket) : Token :=
  match bracket with
  | .curly => plain bracket.closes.toString
  | .round | .square => closing bracket.closes.toString

end Token

def bracketed (bracket : Bracket) (inner : List Token) : List Token :=
  .opens bracket :: inner ++ [.closes bracket]

def words (texts : List String) : List Token :=
  texts.map .plain

end ProtoWire.Source
