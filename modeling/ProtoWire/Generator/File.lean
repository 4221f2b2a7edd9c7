import ProtoWire.Code.Fault
import ProtoWire.Code.Token
import ProtoWire.Generator.Message
import ProtoWire.Source.Format

/-!
# Generated files

There is one file for each package, and one that declares them all.
-/

namespace ProtoWire.Generator

open Code

/-- A generated file, by its name below the output directory. -/
structure GeneratedFile where
  name : String
  content : String
deriving DecidableEq

/-- The first lines of every generated file. -/
def header : String :=
  "// This file is @generated by tightbuf-build. Do not edit.\n\n"

/-! ### Text -/

/-- A line whose indentation is made of another step, for each four blanks in front. -/
def reindentLine (indent : String) (line : List Char) : List Char :=
  let content := line.dropWhile (· == ' ')
  let leading := line.length - content.length
  (List.replicate (leading / 4) indent.toList).flatten ++
    List.replicate (leading % 4) ' ' ++ content

/-- A line without the carriage return at its end. -/
def dropReturn (line : List Char) : List Char :=
  if line.getLast? == some '\r' then line.dropLast else line

/-- The lines of a text. What comes behind the last line feed is one only if it is not empty, and
only before a line feed a carriage return is part of the line end. -/
def textLines (text : String) : List (List Char) :=
  let lines := Text.splitChars '\n' text.toList
  let last := lines.getLast?.getD []
  lines.dropLast.map dropReturn ++ if last.isEmpty then [] else [last]

/-- A text with another step of indentation. Each line ends with a line feed. -/
def reindent (indent source : String) : String :=
  if indent == "    " then source
  else
    String.ofList ((textLines source).flatMap fun line => reindentLine indent line ++ ['\n'])

/-- How code becomes text. -/
abbrev Renderer := Options → List Item → Generate String

/-- Code as text, bare or formatted. Only well-formed code is formatted, and only if all of it has a
layout. -/
def renderCode (options : Options) (items : List Item) : Generate String :=
  let text := Source.Token.render (itemsTokens items)
  if options.skipFormat then .ok (header ++ text)
  else
    match Source.Program.read? text with
    | some program =>
      if program.hasLayout then
        .ok (header ++ reindent options.indent program.format)
      else .error .noLayout
    | none => fail (.illFormedCode (itemsFault items))

/-! ### Files -/

def fileItems (setting : Setting) (f : FileDecl) : Generate (List Item) := do
  let enums ← enumsItems f.enums
  let messages ← messagesItems setting (Scope.ofFile f) f.isProto3 f.messages
  return enums ++ messages

/-- Whether a file is among those asked for. -/
def isSelected (only : Option (List String)) (f : FileDecl) : Bool :=
  match only, f.name with
  | none, _ => true
  | some names, some name => names.contains name
  | some _, none => false

/-- Adds code to a module. Modules are kept in the order of their names. -/
def addToModule (module : String) (items : List Item) :
    List (String × List Item) → List (String × List Item)
  | [] => [(module, items)]
  | (name, present) :: rest =>
    if module < name then (module, items) :: (name, present) :: rest
    else if module = name then (name, present ++ items) :: rest
    else (name, present) :: addToModule module items rest

def collectModules (setting : Setting) (modules : List (String × List Item)) :
    List FileDecl → Generate (List (String × List Item))
  | [] => .ok modules
  | f :: rest => do
    let items ← fileItems setting f
    collectModules setting (addToModule (fileModule f) items modules) rest

def renderModules (render : Renderer) (options : Options) :
    List (String × List Item) → Generate (List GeneratedFile)
  | [] => .ok []
  | (name, items) :: rest => do
    let content ← render options items
    let files ← renderModules render options rest
    return { name := name ++ ".rs", content } :: files

def moduleIndex (modules : List String) : GeneratedFile :=
  { name := "mod.rs"
    content := header ++ String.join (modules.map fun name => "pub mod " ++ name ++ ";\n") }

/-- The code of the files asked for: a file for each package, and one that declares them all. -/
def generateFiles (options : Options) (files : List FileDecl) (only : Option (List String))
    (render : Renderer := renderCode) : Generate (List GeneratedFile) := do
  let setting := Setting.ofFiles options files
  let modules ← collectModules setting [] (files.filter (isSelected only))
  let generated ← renderModules render options modules
  return generated ++ [moduleIndex (modules.map Prod.fst)]

end ProtoWire.Generator
