/-!
# Documents

A document is text with places where lines may break, in groups. A group that fits on the line is
written flat. Else it is broken: at all its breaks if it is consistent, and otherwise only where
what follows would not fit.

* `Break`, `Doc`: breaks and documents.
* `Doc.prune`: a group of a single break is dropped, and so is a last break that only parts
  contents.
-/

namespace ProtoWire.Source

/-- A place where a line may break. -/
structure Break where
  /-- Blanks, where the line goes on. -/
  blanks : Nat := 0
  /-- The change of indentation of the line that starts here. -/
  offset : Int := 0
  /-- A character at the end of the line that ends here. -/
  before : Option Char := none
  /-- A text at the start of the line that starts here. -/
  after : String := ""
  /-- A character, where the line goes on. -/
  flat : Option Char := none
  /-- Dropped as the last part of a group. -/
  ifNonempty : Bool := false
  /-- The line goes on, whatever its length. -/
  never : Bool := false

inductive Doc where
  | text (content : String)
  | gap (place : Break)
  /-- Parts with a change of indentation. A group wider than `maxWidth` is broken. -/
  | group (indent : Int) (consistent : Bool) (maxWidth : Option Nat) (parts : List Doc)

/-- The width of what never fits on a line. -/
def unfitting : Nat := 65535

namespace Doc

/-! ### Short forms -/

/-- A group that breaks everywhere or nowhere. -/
def consistent (indent : Int) (parts : List Doc) : Doc :=
  .group indent true none parts

def filled (indent : Int) (parts : List Doc) : Doc :=
  .group indent false none parts

def space (offset : Int) : Doc :=
  .gap { blanks := 1, offset }

/-- A place without a blank where a line may break. -/
def soft (offset : Int) : Doc :=
  .gap { offset }

def line (offset : Int) : Doc :=
  .gap { blanks := unfitting, offset }

/-- The end of a line, if contents follow. -/
def lineIfNonempty (offset : Int) : Doc :=
  .gap { blanks := unfitting, offset, ifNonempty := true }

/-- A place where a line never breaks, which ends what is measured. -/
def noBreak : Doc :=
  .gap { never := true }

/-! ### Widths -/

mutual

def width : Doc → Nat
  | .text content => content.utf8ByteSize
  | .gap place => place.blanks
  | .group _ _ maxWidth parts =>
    let w := widthAll parts
    if maxWidth.any (· < w) then w + unfitting else w

def widthAll : List Doc → Nat
  | [] => 0
  | d :: rest => width d + widthAll rest

end

/-- The width up to the first break among some parts; behind them comes something of width
`tail`. -/
def leadWidth (tail : Nat) : List Doc → Nat
  | [] => tail
  | .gap _ :: _ => 0
  | d :: rest => width d + leadWidth tail rest

def widthBeforeLast (parts : List Doc) : Nat :=
  widthAll parts.dropLast

def exceeds (maxWidth : Option Nat) (parts : List Doc) : Bool :=
  maxWidth.any (· < widthAll parts)

/-! ### Pruning -/

/-- Whether a document is a break that only parts contents. -/
def isLoose : Doc → Bool
  | .gap place => place.ifNonempty
  | .text _ | .group _ _ _ _ => false

/-- Drops what ends in nothing: after pruning, a group of a single break, and a last break that only
parts contents. A group that is too wide for its limit keeps the latter. -/
def finish (indent : Int) (consistent : Bool) (maxWidth : Option Nat) (parts : List Doc) :
    List Doc :=
  match parts with
  | [.gap _] => []
  | _ =>
    if parts.getLast?.any isLoose && !(exceeds maxWidth parts) then
      [.group indent consistent maxWidth parts.dropLast]
    else [.group indent consistent maxWidth parts]

mutual

/-- A document without needless breaks, as parts. -/
def prune : Doc → List Doc
  | .group indent consistent maxWidth parts => finish indent consistent maxWidth (pruneAll parts)
  | .text content => [.text content]
  | .gap place => [.gap place]

/-- Parts without needless breaks. -/
def pruneAll : List Doc → List Doc
  | [] => []
  | d :: rest => prune d ++ pruneAll rest

end

/-! ### Rendering -/

/-- The widest line, and the least room that is left on one. -/
def margin : Int := 89

@[inherit_doc margin]
def minRoom : Int := 60

/-- A text that is being written. -/
structure Page where
  /-- The text so far. -/
  out : String
  /-- The room on the line. -/
  room : Int
  /-- The indentation of new lines. -/
  indent : Int
  /-- Blanks that are due before the next character. -/
  due : Nat

namespace Page

def put (p : Page) (text : String) : Page :=
  { p with out := (p.due.fold (fun _ _ out => out.push ' ') p.out) ++ text, due := 0 }

def write (p : Page) (text : String) : Page :=
  let p := p.put text
  { p with room := p.room - text.utf8ByteSize }

def goOn (p : Page) (place : Break) : Page :=
  let p := { p with due := p.due + place.blanks, room := p.room - place.blanks }
  match place.flat with
  | some c => { p with out := p.out.push c, room := p.room - 1 }
  | none => p

def newLine (p : Page) (place : Break) : Page :=
  let p := match place.before with
    | some c => p.put c.toString
    | none => p
  let indent := p.indent + place.offset
  let room := max (margin - indent) minRoom
  let p := { p with out := p.out.push '\n', due := indent.toNat, room }
  if place.after == "" then p else p.write place.after

end Page

/-- How a group is written. -/
inductive Mode where
  | flat
  | brokenConsistent
  | brokenFilled
deriving DecidableEq

/-- Writes a break that is followed by `rest` up to the next one. -/
def renderBreak (mode : Mode) (place : Break) (rest : Nat) (p : Page) : Page :=
  let fits := place.never || match mode with
    | .flat => true
    | .brokenConsistent => false
    | .brokenFilled => ((place.blanks + rest : Nat) : Int) ≤ p.room
  if fits then p.goOn place else p.newLine place

mutual

/-- Writes a document in a group of a mode; up to the next break comes something of width `rest`. -/
def renderDoc (mode : Mode) (rest : Nat) : Doc → Page → Page
  | .text content, p => p.write content
  | .gap place, p => renderBreak mode place rest p
  | .group indent consistent maxWidth parts, p =>
    let w := width (.group indent consistent maxWidth parts) + rest
    if ((w : Nat) : Int) ≤ p.room then renderAll .flat false rest parts p
    else
      let overflows := p.room < ((widthBeforeLast parts : Nat) : Int)
      let inner := renderAll (if consistent then .brokenConsistent else .brokenFilled) overflows
        rest parts { p with indent := p.indent + indent }
      { inner with indent := p.indent }

/-- Writes parts; behind them, up to the next break, comes something of width `tail`. A last break
that only parts contents is left out if what comes before it does not fit. -/
def renderAll (mode : Mode) (overflows : Bool) (tail : Nat) : List Doc → Page → Page
  | [], p => p
  | [d], p => if overflows && isLoose d then p else renderDoc mode tail d p
  | d :: e :: rest, p =>
    renderAll mode overflows tail (e :: rest) (renderDoc mode (leadWidth tail (e :: rest)) d p)

end

def render (d : Doc) : String :=
  let page : Page := { out := "", room := margin, indent := 0, due := 0 }
  (renderAll .brokenFilled false 0 (prune d) page).out

end Doc

end ProtoWire.Source
