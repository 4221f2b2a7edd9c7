import ProtoWire.Source.Layout.Item
import ProtoWire.Source.Program

/-!
# Formatted programs

* `Program.format`: the text of a program.
-/

namespace ProtoWire.Source

namespace Layout

open Doc (consistent)

def partDocs (docs : Layouter) (node : Node) : List Doc :=
  match node with
  | .named _ | .lifetime _ | .itemValue _ _ _ | .itemBounds _ _ _ | .lifetimeParam _ _
  | .typeParam _ _ _ | .constParam _ _ _ | .trait _ _ _ _ | .capture _ | .pointer _ _ | .slice _
  | .function _ _ _ _ _ | .object _ | .hidden _ | .never | .variadic _ => typeDocs docs node
  | .hole | .reference _ _ _ | .tuple _ | .paren _ | .replicate _ _ | .expansion _ _ _
  | .labelled _ _ | .label _ | .literal _ | .item _ | .range _ _ _ | .block _ _ =>
    sharedDocs docs node
  | .binding _ _ _ | .choice _ | .rest | .slicePattern _ | .recordPattern _ _ _
  | .tuplePattern _ _ | .constructor _ _ | .typed _ _ => patternDocs docs node
  | .list _ | .assign _ _ | .binary _ _ _ | .unary _ _ | .leave _ _ | .again _ | .result _
  | .produce _ | .cast _ _ | .address _ _ | .closure _ _ _ _ _ | .fits _ _ | .cond _ _ _
  | .select _ _ _ | .arm _ _ _ | .loop _ _ | .during _ _ _ | .each _ _ _ _ | .record _ _ _ =>
    exprDocs docs node
  | .define pattern value otherwise => defineDocs docs pattern value otherwise
  | _ => itemDocs docs node

/-- Any part of a program. A part before a dot that is no link itself is set apart. -/
def nodeDocs (docs : Layouter) (spot : Spot) (node : Node) : List Doc :=
  match node with
  | .attributed attributes node => attributesDocs docs attributes ++ docs spot node
  | .wait _ | .field _ _ | .method _ _ _ _ | .attempt _ | .index _ _ | .call _ _ =>
    chainDocs docs spot node
  | _ =>
    match spot with
    | .link _ => [consistent (-step) (partDocs docs node)]
    | .inner | .start => partDocs docs node

/-- The layout of any part of a program. Parts are nested no deeper than `fuel`. -/
def docs : (fuel : Nat) → Layouter
  | 0, _, _ => []
  | fuel + 1, spot, node => nodeDocs (docs fuel) spot node

end Layout

def Program.format (program : Program) : String :=
  (Doc.consistent 0 (Layout.docs program.depth .inner program.tree)).render

end ProtoWire.Source
