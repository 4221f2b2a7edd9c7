/-!
# Sets of characters

* `CharSet.ofLengths`: a set from the lengths of its gaps and runs.
-/

namespace ProtoWire.Text

/-- Every code point from `first` to `last` that is a multiple of `stride` away from `first`. -/
structure CodeRange where
  first : Nat
  last : Nat
  stride : Nat

def CodeRange.contains (r : CodeRange) (code : Nat) : Bool :=
  r.first ≤ code && code ≤ r.last && (code - r.first) % r.stride == 0

/-- A set of characters: runs of code points, each above the one before. -/
abbrev CharSet := List CodeRange

def CharSet.contains (set : CharSet) (c : Char) : Bool :=
  match set with
  | [] => false
  | r :: rest => c.toNat ≥ r.first && (r.contains c.toNat || CharSet.contains rest c)

def CharSet.ofBounds (bounds : List (Nat × Nat)) : CharSet :=
  bounds.map fun (first, last) => ⟨first, last, 1⟩

/-- The run of so many code points that starts a gap behind a code point. -/
def CodeRange.behind (next gap length stride : Nat) : CodeRange :=
  ⟨next + gap, next + gap + (length - 1) * stride, stride⟩

/-- The set of whole runs, by the lengths of each gap and of the run behind it. -/
def CharSet.ofLengths (next : Nat) : List Nat → CharSet
  | gap :: length :: rest =>
    .behind next gap length 1 :: ofLengths (next + gap + length) rest
  | _ => []

def CharSet.ofRuns (next : Nat) : List (Nat × Nat × Nat) → CharSet
  | [] => []
  | (gap, length, stride) :: rest =>
    let range := CodeRange.behind next gap length stride
    range :: ofRuns (range.last + 1) rest

end ProtoWire.Text
