import ProtoWire.Source.Name
import ProtoWire.Generator.Error
import ProtoWire.Text.Letter
import ProtoWire.Text.Split

/-!
# Names of generated things

The words of a name are put together anew, and a keyword is escaped.
-/

namespace ProtoWire.Generator

/-- Whether an uppercase letter starts a word, after `previous` and before `rest`: after a small
letter or a digit, or as the last capital before a small letter. -/
def startsWord (previous : Option Char) (rest : List Char) : Bool :=
  match previous with
  | some p =>
    if Text.isLowercase p || p.isDigit then true
    else Text.isUppercase p && rest.head?.any Text.isLowercase
  | none => false

/-- The characters of `snakeCase` after `previous`. -/
def snakeFrom (previous : Option Char) : List Char → List Char
  | [] => []
  | c :: rest =>
    if Text.isUppercase c then
      (if startsWord previous rest then ['_'] else []) ++ Text.toLowercase c ++
        snakeFrom (some c) rest
    else c :: snakeFrom (some c) rest

/-- A name with words in small letters and underscores between them. -/
def snakeCase (name : String) : String :=
  String.ofList (snakeFrom none name.toList)

/-- A word with a capital in front and small letters behind. -/
def capitalized : List Char → List Char
  | [] => []
  | first :: rest => Text.toUppercase first ++ rest.map Char.toLower

/-- A name whose words, which have underscores between them, are run together. -/
def pascalCase (name : String) : String :=
  String.ofList ((Text.splitChars '_' name.toList).flatMap capitalized)

def needsEscape (word : String) : Bool :=
  Source.isKeyword word || word == "gen"

/-- The name of a message or enum. Only a keyword changes. -/
def typeName (name : String) : String :=
  if needsEscape name then "r#" ++ name else name

/-- The name of a field. A keyword is escaped, or has an underscore behind it if that cannot be. -/
def fieldName (name : String) : String :=
  let snake := snakeCase name
  if ["self", "super", "crate", "Self"].contains snake then snake ++ "_"
  else if needsEscape snake then "r#" ++ snake
  else snake

/-- The name of the module with the nested types of a message. -/
def moduleName (name : String) : String :=
  fieldName name

def identifier (name : String) : Generate String :=
  if Source.isLegal name then .ok name else .error (.illegalName name)

end ProtoWire.Generator
