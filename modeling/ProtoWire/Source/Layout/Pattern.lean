import ProtoWire.Source.Layout.Type

/-!
# Layouts of patterns

The fields of a record are laid out with what stands for the others.
-/

namespace ProtoWire.Source.Layout

open Doc (consistent filled space soft)

/-- A blank where a line may break, if contents follow. -/
def spaceIfNonempty : Doc :=
  .gap { blanks := 1, ifNonempty := true }

/-- The fields of a record, and what stands for the others. -/
def fieldsDocs (fields : List (List Doc)) : Option (List Doc) → List Doc
  | some others => commaEnded fields ++ others ++ [space 0]
  | none => commaParts 1 fields

def isPlainCase (node : Node) : Bool :=
  match node.bare with
  | .literal _ | .hole => true
  | _ => false

def optional (docs : Layouter) : Option Node → List Doc
  | some node => docs .inner node
  | none => []

def patternDocs (docs : Layouter) : Node → List Doc
  | .binding head name inner =>
    .text (head ++ name) :: behind " @ " (inner.map (docs .inner))
  | .choice cases =>
    [.group 0 (!cases.all isPlainCase) none
      (joined [space 0, .text "| "] (cases.map (docs .inner)))]
  | .rest => [.text ".."]
  | .slicePattern elements =>
    bracketedDocs "[" "]" (commaParts 0 (elements.map (docs .inner)))
  | .recordPattern path fields others =>
    [consistent step (dedent (pathDocs docs true path ++ .text " \x7b" :: spaceIfNonempty ::
      fieldsDocs (fields.map (docs .inner)) (others.map (docs .inner)))), .text "\x7d"]
  | .tuplePattern elements trailing =>
    [.text "(", match elements with
      | [element] =>
        consistent step (dedent (soft 0 :: docs .inner element ++
          (if trailing then [.text ","] else []) ++ [soft 0]))
      | _ => listed step (elements.map (docs .inner)), .text ")"]
  | .constructor path elements =>
    pathDocs docs true path ++ [.text "(", listed step (elements.map (docs .inner)), .text ")"]
  | .typed pattern type => docs .inner pattern ++ .text ": " :: docs .inner type
  | _ => []

end ProtoWire.Source.Layout
