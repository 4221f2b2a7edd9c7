import ProtoWire.Wire.Reader

/-!
# Merging

Merging fills something stored from a reader. A failure keeps what was stored by then, in the target
and in the reader.
-/

namespace ProtoWire

/-- Something stored, and the reader that fills it. -/
structure Merging (σ : Type) where
  target : σ
  reader : Reader

/-- An action on something stored and a reader. -/
abbrev Merge (σ : Type) := EStateM Fault (Merging σ)

namespace Merge

variable {σ τ α : Type}

/-- Reads, and leaves the target alone. -/
def read (x : Read α) : Merge σ α := fun s =>
  match x s.reader with
  | .ok a reader => .ok a { s with reader }
  | .error e reader => .error (.decode e) { s with reader }

def target : Merge σ σ := fun s =>
  .ok s.target s

def update (f : σ → σ) : Merge σ Unit := fun s =>
  .ok () { s with target := f s.target }

/-- Runs an action on a part of the target; `store` puts the part back, also after a failure. -/
def within {ε : Type} (part : τ) (store : τ → σ → σ) (x : EStateM ε (Merging τ) α) :
    EStateM ε (Merging σ) α := fun s =>
  match x { target := part, reader := s.reader } with
  | .ok a t => .ok a { target := store t.target s.target, reader := t.reader }
  | .error e t => .error e { target := store t.target s.target, reader := t.reader }

/-- Runs an action on something apart from the target, and answers what it became. -/
def apart (part : τ) (x : Merge τ Unit) : Merge σ τ := fun s =>
  match x { target := part, reader := s.reader } with
  | .ok () t => .ok t.target { s with reader := t.reader }
  | .error e t => .error e { s with reader := t.reader }

end Merge

/-! ### Nested messages -/

def readMessage {σ : Type} (contents : Merge σ Unit) : Merge σ Unit := do
  let length ← Merge.read readLength
  Merge.read enterNested
  let limit ← Merge.read (pushLimit length)
  contents
  Merge.read (checkLastTag 0)
  Merge.read (popLimit limit)
  Merge.read exitNested

def readGroup {σ : Type} (number : UInt32) (contents : Merge σ Unit) : Merge σ Unit := do
  Merge.read enterNested
  contents
  Merge.read (checkLastTag (Tag.make number .endGroup))
  Merge.read exitNested

/-! ### Payloads -/

/-- Reads a text over another one, which is emptied once the length is known. -/
def readTextInto : Merge String Unit := do
  let length ← Merge.read readLength
  Merge.update fun _ => ""
  if length ≠ 0 then
    let bytes ← Merge.read (readRaw length)
    let text ← Merge.read (decodeText bytes)
    Merge.update fun _ => text

/-- Reads bytes over others, which stay until all are read. -/
def readBlobInto : Merge Bytes Unit := do
  let length ← Merge.read readLength
  let bytes ← Merge.read (readRaw length)
  Merge.update fun _ => bytes

end ProtoWire
