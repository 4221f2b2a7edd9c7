import ProtoWire.Code.Tree
import ProtoWire.Source.Program

/-!
# Paths of types

A path is read from a text, or put together from names.
-/

namespace ProtoWire.Code

open Source (TokenTree isKeyword isLegal misplaced)

def isSegmentWord (word : String) : Bool :=
  ["super", "self", "crate", "try", "Self"].contains word || (!isKeyword word && word != "_")

/-- The path that is the whole of a text. -/
def Path.read? (text : String) : Option Path := do
  let tokens ← Source.readPath? text
  return { rooted := false, segments := [.spelled tokens] }

/-- The path of names. Each is a segment if all may be, and else the path is read, as a name may
spell several segments. -/
def Path.ofNames? (names : List String) : Option Path :=
  if !names.isEmpty && names.all (fun name => isLegal name && isSegmentWord name) then
    some { rooted := false, segments := names.map .name }
  else Path.read? ("::".intercalate names)

def segmentsFault : List TokenTree → String
  | [] => "unexpected end of input, expected identifier"
  | .word name :: rest =>
    if isSegmentWord name then
      match rest with
      | .mark ':' true :: .mark ':' _ :: rest => segmentsFault rest
      | _ => "unexpected token"
    else misplaced name
  | _ => "expected identifier"

def pathFault (text : String) : String :=
  match TokenTree.scan? text with
  | some (.mark ':' true :: .mark ':' _ :: trees) | some trees => segmentsFault trees
  | none => "cannot parse string into token stream"

end ProtoWire.Code
