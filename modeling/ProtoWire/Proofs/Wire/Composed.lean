import ProtoWire.Wire.Skip

/-!
# Reads composed of basic ones

All reads and skips are put together from a few basic reads. What holds of these, and of whatever is
put together from what it holds of, holds of all.

* `ComposedRead`: a read composed of basic ones. A level that is entered is left again, and a reader
  that looks ahead comes back.
* `composed_readScalar`, `composed_skipField`, `composed_repeatedLength`, …: the reads and skips.
-/

namespace ProtoWire

/-! ### Definitions -/

/-- Goes one level down, and comes back. -/
def oneDeeper (x : Read Unit) : Read Unit := do
  enterNested
  x
  exitNested

/-- Reads on, with the number of bytes left at hand, and comes back to where it started. -/
def lookingAhead {α : Type} (x : Nat → Read α) : Read α := do
  let start ← get
  let a ← x start.bytesLeft
  modify fun r => { r with pos := start.pos, lastTag := start.lastTag }
  return a

/-- A read composed of basic ones. -/
inductive ComposedRead : {α : Type} → Read α → Prop
  | pure {α : Type} (a : α) : ComposedRead (Pure.pure a)
  | throw {α : Type} (e : DecodeError) : ComposedRead (MonadExcept.throw e : Read α)
  | bind {α β : Type} {x : Read α} {f : α → Read β} (hx : ComposedRead x)
      (hf : ∀ a, ComposedRead (f a)) : ComposedRead (x >>= f)
  | readVarint64 : ComposedRead readVarint64
  | readVarint32 : ComposedRead readVarint32
  | readTag : ComposedRead readTag
  | checkLastTag (tag : UInt32) : ComposedRead (checkLastTag tag)
  | readRaw (n : Nat) : ComposedRead (readRaw n)
  | readFixed (n : Nat) : ComposedRead (readFixed n)
  | oneDeeper {x : Read Unit} (hx : ComposedRead x) : ComposedRead (oneDeeper x)
  | lookingAhead {α : Type} {x : Nat → Read α} (hx : ∀ n, ComposedRead (x n)) :
      ComposedRead (lookingAhead x)
  | bytesLeft {α : Type} {x : Nat → Read α} (hx : ∀ n, ComposedRead (x n)) :
      ComposedRead fun r => x r.bytesLeft r

theorem ComposedRead.map {α β : Type} {x : Read α} (hx : ComposedRead x) (f : α → β) :
    ComposedRead (f <$> x) := by
  rw [map_eq_pure_bind]
  exact hx.bind fun a => .pure (f a)

/-! ### Payloads -/

theorem composed_readScalar (kind : Scalar) : ComposedRead (readScalar kind) := by
  cases kind
  case double | fixed64 => exact (ComposedRead.readFixed _).map _
  case float | fixed32 => exact (ComposedRead.readFixed _).map _
  case sfixed32 | sfixed64 => exact ((ComposedRead.readFixed _).map _).map _
  case uint64 => exact .readVarint64
  case uint32 => exact .readVarint32
  case int64 | bool | sint64 => exact ComposedRead.readVarint64.map _
  case int32 | sint32 => exact ComposedRead.readVarint32.map _

theorem composed_readLength : ComposedRead readLength := by
  refine ComposedRead.readVarint32.bind fun size => ?_
  split
  · exact ComposedRead.bind (.throw _) fun _ => .pure _
  · exact .pure _

theorem composed_decodeText (bytes : Bytes) : ComposedRead (decodeText bytes) := by
  unfold decodeText
  split
  · exact .pure _
  · exact .throw _

/-! ### Skipping -/

theorem composed_skipRaw (n : Nat) : ComposedRead (skipRaw n) :=
  (ComposedRead.readRaw n).bind fun _ => .pure _

theorem composed_skipPayload {inner : Read Unit} (hinner : ComposedRead inner) (tag : UInt32) :
    ComposedRead (skipPayload inner tag) := by
  unfold skipPayload
  split
  · exact .throw _
  · exact ComposedRead.readVarint64.bind fun _ => .pure _
  · exact (composed_skipRaw _).bind fun _ => .pure _
  · exact composed_readLength.bind fun _ => (composed_skipRaw _).bind fun _ => .pure _
  · have hgroup := (hinner.bind fun _ =>
      .checkLastTag (Tag.make (Tag.number tag) .endGroup)).oneDeeper.bind fun _ => .pure true
    simpa only [oneDeeper, bind_assoc] using hgroup
  · exact .pure _
  · exact (composed_skipRaw _).bind fun _ => .pure _

theorem composed_skipMessageWithin (fuel : Nat) : ComposedRead (skipMessageWithin fuel) := by
  induction fuel with
  | zero => exact .throw _
  | succ fuel ih =>
    unfold skipMessageWithin
    refine ComposedRead.readTag.bind fun tag => ?_
    split
    · exact .pure _
    · refine (composed_skipPayload ih tag).bind fun more => ?_
      split
      · exact ih
      · exact .pure _

theorem composed_skipField (tag : UInt32) : ComposedRead (skipField tag) :=
  .bytesLeft fun _ => composed_skipPayload (composed_skipMessageWithin _) tag

theorem composed_countRecords (tag : UInt32) (fuel count : Nat) :
    ComposedRead (countRecords tag fuel count) := by
  induction fuel generalizing count with
  | zero => exact .throw _
  | succ fuel ih =>
    unfold countRecords
    refine ComposedRead.readTag.bind fun next => ?_
    split
    · exact .pure _
    · split
      · exact (composed_skipField tag).bind fun _ => ih _
      · refine (composed_skipField next).bind fun more => ?_
        split
        · exact ih _
        · exact .pure _

theorem repeatedLength_eq (tag : UInt32) : repeatedLength tag = lookingAhead fun left =>
    skipField tag >>= fun _ => countRecords tag (left + 1) 1 := by
  simp only [repeatedLength, lookingAhead, bind_assoc]

theorem composed_repeatedLength (tag : UInt32) : ComposedRead (repeatedLength tag) := by
  rw [repeatedLength_eq]
  exact .lookingAhead fun _ => (composed_skipField tag).bind fun _ => composed_countRecords tag _ _

end ProtoWire
