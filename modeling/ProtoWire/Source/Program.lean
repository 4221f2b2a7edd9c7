import ProtoWire.Source.Reader.Item

/-!
# Reading programs

The readers of all goals are tied together, and a program is the whole of a text.
-/

namespace ProtoWire.Source

namespace Reader

def goal (read : Reader) : Goal → Read Node
  | .type plus => type read plus
  | .bound mayCapture mayConst => bound read mayCapture mayConst
  | .expr braces => expr read braces
  | .unary braces => unary read braces
  | .operators braces least left => operators read braces least left
  | .pattern => pattern read
  | .select => select read
  | .stmts => stmts read
  | .decl => decl read
  | .fields => .namedFields <$> namedFields read
  | .useTree mayRoot => useTree read mayRoot

/-- Reads a goal. Goals are nested no deeper than `fuel`. -/
def read : (fuel : Nat) → Reader
  | 0, _ => failure
  | fuel + 1, found => goal (read fuel) found

/-- A depth that is enough for token trees, each of which brings in a few goals at most. -/
def depth (trees : List TokenTree) : Nat :=
  8 * TokenTree.sizeAll trees + 16

end Reader

/-- The tokens of the path that is the whole of a text. -/
def readPath? (text : String) : Option (List Token) := do
  let trees ← TokenTree.scan? text
  let (_, place) ← (Reader.path (Reader.read (Reader.depth trees)) false).run { ahead := trees }
  if place.ahead.isEmpty then some place.written.reverse else none

structure Program where
  tree : Node
  /-- A depth that its parts do not reach. -/
  depth : Nat
  /-- Whether all of it has a layout. -/
  hasLayout : Bool

def Program.read? (text : String) : Option Program := do
  let trees ← TokenTree.scan? text
  let read := Reader.read (Reader.depth trees)
  let whole : Read Node := do
    let attributes ← Reader.innerAttributes read
    return .file attributes (← Read.upTo List.isEmpty (read .decl))
  let (tree, place) ← whole.run { ahead := trees }
  return { tree, depth := 2 * Reader.depth trees, hasLayout := place.hasLayout }

end ProtoWire.Source
