import ProtoWire.Wire.Reader

/-!
# Skipping records

Groups nest without bound in the buffer, so the recursion is on fuel. Every tag takes a byte, hence
fuel above the number of bytes left never runs out.
-/

namespace ProtoWire

/-- Skips the payload of a record, with `inner` for the records of a group. -/
def skipPayload (inner : Read Unit) (tag : UInt32) : Read Bool := do
  match Tag.wireType tag with
  | .error e => throw e
  | .ok .varint =>
    let _ ← readVarint64
    return true
  | .ok .i64 =>
    skipRaw fixed64Size
    return true
  | .ok .len =>
    skipRaw (← readLength)
    return true
  | .ok .startGroup =>
    enterNested
    inner
    checkLastTag (Tag.make (Tag.number tag) .endGroup)
    exitNested
    return true
  | .ok .endGroup => return false
  | .ok .i32 =>
    skipRaw fixed32Size
    return true

/-- What `skipMessage` does, with less than `fuel` records at every level. -/
def skipMessageWithin : (fuel : Nat) → Read Unit
  | 0 => throw .truncated
  | fuel + 1 => do
    let tag ← readTag
    if tag = 0 then return
    if ← skipPayload (skipMessageWithin fuel) tag then skipMessageWithin fuel

/-- Skips the payload of a record whose tag was read. Answers `false` for an end-group tag, which
has none and ends the enclosing group. -/
def skipField (tag : UInt32) : Read Bool := fun r =>
  skipPayload (skipMessageWithin (r.bytesLeft + 1)) tag r

/-- Skips records up to the limit or an end-group tag. -/
def skipMessage : Read Unit := fun r =>
  skipMessageWithin (r.bytesLeft + 1) r

/-- Skips the rest of a message and counts the records with the given tag, from `count` on. Such a
record is counted also if the tag ends a group. -/
def countRecords (tag : UInt32) : (fuel : Nat) → (count : Nat) → Read Nat
  | 0, _ => throw .truncated
  | fuel + 1, count => do
    let next ← readTag
    if next = 0 then return count
    if next = tag then
      let _ ← skipField tag
      countRecords tag fuel (count + 1)
    else if ← skipField next then countRecords tag fuel count
    else return count

/-- The number of records of a repeated field left in the current message, with the one whose tag
was just read. The cursor and the latest tag are as before, unless it fails. -/
def repeatedLength (tag : UInt32) : Read Nat := do
  let start ← get
  let _ ← skipField tag
  let count ← countRecords tag (start.bytesLeft + 1) 1
  modify fun r => { r with pos := start.pos, lastTag := start.lastTag }
  return count

end ProtoWire
