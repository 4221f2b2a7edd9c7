import ProtoWire.Text.IdentifierChar

/-!
# Names in generated code

* `isLegal`: whether an identifier can be made of a text. A keyword can be escaped.
-/

namespace ProtoWire.Source

/-- The words that are no identifiers. -/
def keywords : List String :=
  ["as", "break", "const", "continue", "crate", "else", "enum", "extern", "false", "fn", "for",
   "if", "impl", "in", "let", "loop", "match", "mod", "move", "mut", "pub", "ref", "return", "self",
   "Self", "static", "struct", "super", "trait", "true", "type", "unsafe", "use", "where", "while",
   "async", "await", "dyn", "abstract", "become", "box", "do", "final", "macro", "override", "priv",
   "typeof", "unsized", "virtual", "yield", "try"]

def isKeyword (word : String) : Bool :=
  keywords.contains word

/-- What is wrong with a word in the place of a name. -/
def misplaced (word : String) : String :=
  "expected identifier, found keyword `" ++ word ++ "`"

/-- The words that cannot be escaped. -/
def unescapable : List String :=
  ["_", "self", "Self", "super", "crate"]

/-- Whether an identifier, plain or escaped, can be made of a text. A plain keyword passes. -/
def isLegal (text : String) : Bool :=
  match text.toList with
  | 'r' :: '#' :: rest =>
    let word := String.ofList rest
    Text.isIdentifier word && !unescapable.contains word
  | _ => Text.isIdentifier text

/-- Characters without escape marks in front. -/
def dropRawMarks : List Char → List Char
  | 'r' :: '#' :: rest => dropRawMarks rest
  | chars => chars

def bareName (name : String) : String :=
  String.ofList (dropRawMarks name.toList)

end ProtoWire.Source
