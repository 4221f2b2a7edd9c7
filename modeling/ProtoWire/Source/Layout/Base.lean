import ProtoWire.Source.Doc
import ProtoWire.Source.Node

/-!
# Layouts

* `Spot`: where an expression stands, which decides how a chain of calls may break.
* `listed`, `tupled`: entries with commas between them.
-/

namespace ProtoWire.Source

/-- Where an expression stands. -/
inductive Spot where
  | inner
  /-- At the start of a line. -/
  | start
  /-- Before a dot, in a chain that stands at the start of a line or not. -/
  | link (start : Bool)

/-- How the parts of a program are laid out. -/
abbrev Layouter := Spot → Node → List Doc

namespace Layout

open Doc (consistent filled space soft line)

/-- One step of indentation. -/
def step : Int := 4

/-- Parts whose last break starts a line one step further left. -/
def dedent (parts : List Doc) : List Doc :=
  match parts.getLast? with
  | some (.gap place) => parts.dropLast ++ [.gap { place with offset := place.offset - step }]
  | _ => parts

/-- A comma that is written only where the line breaks, which goes on with blanks. -/
def trailingComma (blanks : Nat) : Doc :=
  .gap { blanks, before := some ',' }

def commaEnded (entries : List (List Doc)) : List Doc :=
  entries.flatMap (· ++ [.text ",", space 0])

/-- Entries with commas between them. A last comma is written only where the line breaks. -/
def commaParts (blanks : Nat) : List (List Doc) → List Doc
  | [] => []
  | [entry] => entry ++ [trailingComma blanks]
  | entry :: rest => entry ++ [.text ",", space 0] ++ commaParts blanks rest

def listed (indent : Int) (entries : List (List Doc)) : Doc :=
  consistent indent (dedent (soft 0 :: commaParts 0 entries))

/-- Entries between brackets, with something more behind them that has no comma. -/
def listedWith (indent : Int) (entries : List (List Doc)) : Option (List Doc) → Doc
  | some more => consistent indent (dedent (soft 0 :: commaEnded entries ++ more ++ [soft 0]))
  | none => listed indent entries

/-- Entries between round brackets, of which a single one keeps its comma. -/
def tupled (entries : List (List Doc)) : List Doc :=
  [.text "(", match entries with
    | [entry] => consistent step (dedent (soft 0 :: entry ++ [.text ",", soft 0]))
    | _ => listed step entries, .text ")"]

/-- Parts with a text before each but the first. -/
def joined (separator : List Doc) : List (List Doc) → List Doc
  | [] => []
  | [parts] => parts
  | parts :: rest => parts ++ separator ++ joined separator rest

def behind (text : String) : Option (List Doc) → List Doc
  | some parts => .text text :: parts
  | none => []

end Layout

end ProtoWire.Source
