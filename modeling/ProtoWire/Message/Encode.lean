import ProtoWire.Message.Basic

/-!
# Encoding messages

* `Message.size`: the number of bytes of a message, computed from the stored state.
* `Message.encode`: its bytes. The length in front of a nested message is its `size`.

The two are computed apart, field by field, so that lengths are known before anything is written.
-/

namespace ProtoWire

/-! ### Sizes -/

/-- The size of the values of a repeated scalar field, without tags. -/
def scalarsSize (kind : Scalar) (values : List kind.Value) : Nat :=
  match kind.fixedSize with
  | some size => size * values.length
  | none => packedSize kind.size values

/-- The size of a group around contents of a size: two tags of the same length. -/
def groupSize (number : UInt32) (contents : Nat) : Nat :=
  2 * tagSize (Tag.make number .startGroup) + contents

/-- The size of a message with its tag and length, or of a group with its tags, by category. -/
def nestedSize (f : Field) (contents : Nat) : Nat :=
  match f.element with
  | .group _ => groupSize f.number contents
  | _ => tagSize f.primaryTag + delimitedSize contents

variable (S : Schema)

mutual

def Message.size (L : Layout) : Message → Nat
  | ⟨presence, cases, slots⟩ => totalSize (sizeSlots presence cases L.fields slots)

def sizeSlots (presence : Presence) (cases : List UInt32) :
    List Field → List (Slot Message) → List Nat
  | f :: fields, slot :: slots =>
    (if f.isPresent presence cases slot then sizeSlot f slot else 0) ::
      sizeSlots presence cases fields slots
  | _, _ => []

def sizeSlot (f : Field) : Slot Message → Nat
  | .scalar kind value => tagSize f.primaryTag + kind.fixedSize.getD (kind.size value)
  | .text value => tagSize f.primaryTag + delimitedSize value.utf8ByteSize
  | .blob value => tagSize f.primaryTag + delimitedSize value.length
  | .sub none => nestedSize f 0
  | .sub (some m) =>
    match f.element with
    | .message type | .group type => nestedSize f (m.size (S.layout type))
    | _ => 0
  | .scalars kind c =>
    if f.strategy.cardinality.isPacked then
      tagSize f.primaryTag + delimitedSize (scalarsSize kind c.values)
    else tagSize f.primaryTag * c.values.length + scalarsSize kind c.values
  | .texts c =>
    tagSize f.primaryTag * c.values.length +
      totalSize (c.values.map fun value => delimitedSize value.utf8ByteSize)
  | .blobs c =>
    tagSize f.primaryTag * c.values.length +
      totalSize (c.values.map fun value => delimitedSize value.length)
  | .subs ⟨values, _, _⟩ =>
    match f.element with
    | .message type | .group type =>
      totalSize ((sizeMessages (S.layout type) values).map (nestedSize f))
    | _ => 0

def sizeMessages (L : Layout) : List Message → List Nat
  | [] => []
  | m :: ms => m.size L :: sizeMessages L ms

end

/-! ### Bytes -/

section Bytes

variable [Lengths] (order : FieldOrder)

/-- A message with its tag and length, or a group with its tags, by category. The length is
computed apart from the contents. -/
def writeNested (f : Field) (size : Nat) (contents : Bytes) : Bytes :=
  match f.element with
  | .group _ =>
    writeTag (Tag.make f.number .startGroup) ++ contents ++ writeTag (Tag.make f.number .endGroup)
  | _ => writeTag f.primaryTag ++ writeLength (Lengths.choose size contents) ++ contents

mutual

def Message.encode (L : Layout) : Message → Bytes
  | ⟨presence, cases, slots⟩ =>
    (order.arrange Prod.fst (encodeSlots presence cases L.fields slots)).flatMap Prod.snd

/-- The numbers and bytes of fields; an absent one has no bytes. -/
def encodeSlots (presence : Presence) (cases : List UInt32) :
    List Field → List (Slot Message) → List (UInt32 × Bytes)
  | f :: fields, slot :: slots =>
    (f.number, if f.isPresent presence cases slot then encodeSlot f slot else []) ::
      encodeSlots presence cases fields slots
  | _, _ => []

def encodeSlot (f : Field) : Slot Message → Bytes
  | .scalar kind value => writeTag f.primaryTag ++ kind.write value
  | .text value => writeTag f.primaryTag ++ writeBlob (utf8Bytes value)
  | .blob value => writeTag f.primaryTag ++ writeBlob value
  | .sub none => writeNested f 0 []
  | .sub (some m) =>
    match f.element with
    | .message type | .group type =>
      writeNested f (m.size S (S.layout type)) (m.encode (S.layout type))
    | _ => []
  | .scalars kind c =>
    if f.strategy.cardinality.isPacked then
      writePacked f.primaryTag kind.size kind.write c.values
    else c.values.flatMap fun value => writeTag f.primaryTag ++ kind.write value
  | .texts c => c.values.flatMap fun value => writeTag f.primaryTag ++ writeBlob (utf8Bytes value)
  | .blobs c => c.values.flatMap fun value => writeTag f.primaryTag ++ writeBlob value
  | .subs ⟨values, _, _⟩ =>
    match f.element with
    | .message type | .group type => encodeMessages (S.layout type) f values
    | _ => []

/-- The bytes of messages, each with the tag and length, or tags, of the field. -/
def encodeMessages (L : Layout) (f : Field) : List Message → Bytes
  | [] => []
  | m :: ms => writeNested f (m.size S L) (m.encode L) ++ encodeMessages L f ms

end

end Bytes

/-! ### Messages inside other data -/

/-- The number of bytes of a message with its length in front. -/
def Message.delimitedSize (L : Layout) (m : Message) : Nat :=
  ProtoWire.delimitedSize (m.size S L)

def Message.encodeDelimited (order : FieldOrder) (L : Layout) (m : Message) : Bytes :=
  writeLength (m.size S L) ++ m.encode S order L

def Message.groupSize (L : Layout) (number : UInt32) (m : Message) : Nat :=
  ProtoWire.groupSize number (m.size S L)

/-- A message as a group: between two tags. -/
def Message.encodeGroup (order : FieldOrder) (L : Layout) (number : UInt32) (m : Message) :
    Bytes :=
  writeTag (Tag.make number .startGroup) ++ m.encode S order L ++
    writeTag (Tag.make number .endGroup)

end ProtoWire
