import ProtoWire.Message.Layout
import ProtoWire.Repeated.Basic
import ProtoWire.Wire.Datum

/-!
# Messages

A message keeps a slot for each field of its layout, whether the field is present or not. Presence
is kept apart: in bits, in the cases of oneofs, or in the values of a repeated field.

* `Message.has`, `Message.clear`, `Message.clearOneof`: presence and resetting.
* `Message.copy`: a copy, whose containers have room for their values alone.
* `Message.beq`: equality of messages. What is stored for absent fields does not count.
-/

namespace ProtoWire

/-- The storage of one field, with messages of type `M` inside. -/
inductive Slot (M : Type) where
  | scalar (kind : Scalar) (value : kind.Value)
  | text (value : String)
  | blob (value : Bytes)
  /-- A message, or nothing as long as it was never touched. -/
  | sub (value : Option M)
  | scalars (kind : Scalar) (values : Repeated kind.Value)
  | texts (values : Repeated String)
  | blobs (values : Repeated Bytes)
  | subs (values : Repeated M)

/-- The stored state of a message. -/
structure Message where
  /-- The presence bits. -/
  presence : Presence
  /-- For each oneof, the number of the member that is set, or 0. -/
  cases : List UInt32
  /-- For each field, what is stored. -/
  slots : List (Slot Message)

namespace Element

/-- The storage of an unset singular field. -/
def blankSlot : Element → Slot Message
  | scalar kind default => .scalar kind default
  | enum _ default => .scalar .int32 (default.getD 0)
  | text default => .text default
  | blob default => .blob default
  | message _ | group _ => .sub none

/-- The storage of a repeated field without values. -/
def emptySlot : Element → Slot Message
  | scalar kind _ => .scalars kind .empty
  | enum _ _ => .scalars .int32 .empty
  | text _ => .texts .empty
  | blob _ => .blobs .empty
  | message _ | group _ => .subs .empty

end Element

def Field.blankSlot (f : Field) : Slot Message :=
  match f.placement with
  | .repeated _ => f.element.emptySlot
  | .singular _ | .member _ _ => f.element.blankSlot

/-- The message with every field unset. -/
def Layout.blank (L : Layout) : Message :=
  { presence := Presence.none L.words, cases := List.replicate L.oneofs.length 0,
    slots := L.fields.map Field.blankSlot }

/-- The message of a type with every field unset. -/
def Schema.blank (S : Schema) (type : TypeId) : Message :=
  (S.layout type).blank

/-- Whether a container in a slot has no values; a singular slot has one. -/
def Slot.isEmpty {M : Type} : Slot M → Bool
  | scalar _ _ | text _ | blob _ | sub _ => false
  | scalars _ c => c.values.isEmpty
  | texts c => c.values.isEmpty
  | blobs c => c.values.isEmpty
  | subs c => c.values.isEmpty

/-- Whether a field is present, given the presence bits, the cases and its slot. -/
def Field.isPresent (f : Field) (presence : Presence) (cases : List UInt32)
    (slot : Slot Message) : Bool :=
  match f.placement with
  | .singular bit => presence.test bit
  | .repeated _ => !slot.isEmpty
  | .member oneof _ => cases.getD oneof 0 == f.number

/-! ### Resetting -/

variable (S : Schema)

mutual

/-- Unsets every field. Containers keep their room and retain their elements. -/
def Message.clear (L : Layout) : Message → Message
  | ⟨presence, cases, slots⟩ =>
    { presence := presence.map fun _ => 0, cases := cases.map fun _ => 0,
      slots := clearSlots L.fields slots }

def clearSlots : List Field → List (Slot Message) → List (Slot Message)
  | f :: fields, slot :: slots => clearSlot f slot :: clearSlots fields slots
  | _, slots => slots

def clearSlot (f : Field) : Slot Message → Slot Message
  | .sub none => .sub none
  | .sub (some m) =>
    match f.element with
    | .message type | .group type => .sub (some (m.clear (S.layout type)))
    | _ => .sub none
  | .scalars kind c => .scalars kind c.clear
  | .texts c => .texts c.clear
  | .blobs c => .blobs c.clear
  | .subs c => .subs c.clear
  | .scalar _ _ | .text _ | .blob _ => f.blankSlot

end

/-! ### Copying -/

mutual

/-- A copy. Nothing is retained in its containers. -/
def Message.copy : Message → Message
  | ⟨presence, cases, slots⟩ => ⟨presence, cases, copySlots slots⟩

def copySlots : List (Slot Message) → List (Slot Message)
  | [] => []
  | slot :: slots => copySlot slot :: copySlots slots

def copySlot : Slot Message → Slot Message
  | .scalar kind value => .scalar kind value
  | .text value => .text value
  | .blob value => .blob value
  | .sub none => .sub none
  | .sub (some m) => .sub (some m.copy)
  | .scalars kind c => .scalars kind c.copy
  | .texts c => .texts c.copy
  | .blobs c => .blobs c.copy
  | .subs ⟨values, _, _⟩ => .subs (.ofList (copyMessages values))

def copyMessages : List Message → List Message
  | [] => []
  | m :: ms => m.copy :: copyMessages ms

end

/-! ### Equality -/

mutual

/-- Whether two messages of a layout have the same fields present, with equal values. -/
def Message.beq (L : Layout) : Message → Message → Bool
  | ⟨presence, cases, slots⟩, ⟨presence', cases', slots'⟩ =>
    presence == presence' && cases == cases' &&
      beqSlots presence cases L.fields slots slots'
termination_by structural m => m

def beqSlots (presence : Presence) (cases : List UInt32) :
    List Field → List (Slot Message) → List (Slot Message) → Bool
  | f :: fields, slot :: slots, slot' :: slots' =>
    (!f.strategy.cardinality.isRepeated && !f.isPresent presence cases slot ||
        beqSlot f.element slot slot') &&
      beqSlots presence cases fields slots slots'
  | _, _, _ => true
termination_by structural _ slots => slots

def beqSlot (element : Element) : Slot Message → Slot Message → Bool
  | .scalar kind value, .scalar kind' value' =>
    if h : kind = kind' then value == h ▸ value' else false
  | .text value, .text value' => value == value'
  | .blob value, .blob value' => value == value'
  | .sub none, .sub none => true
  | .sub (some m), .sub (some m') =>
    match element with
    | .message type | .group type => m.beq (S.layout type) m'
    | _ => false
  | .scalars kind c, .scalars kind' c' =>
    if h : kind = kind' then c.values == h ▸ c'.values else false
  | .texts c, .texts c' => c.values == c'.values
  | .blobs c, .blobs c' => c.values == c'.values
  | .subs ⟨values, _, _⟩, .subs c' =>
    match element with
    | .message type | .group type => beqMessages (S.layout type) values c'.values
    | _ => false
  | _, _ => false
termination_by structural slot => slot

/-- Whether two lists of messages agree place by place. -/
def beqMessages (L : Layout) : List Message → List Message → Bool
  | [], [] => true
  | m :: ms, m' :: ms' => m.beq L m' && beqMessages L ms ms'
  | _, _ => false
termination_by structural ms => ms

end

/-! ### Presence -/

namespace Message

def has (m : Message) (f : Field) (index : Nat) : Bool :=
  match m.slots[index]? with
  | some slot => f.isPresent m.presence m.cases slot
  | none => false

def setSlot (m : Message) (index : Nat) (slot : Slot Message) : Message :=
  { m with slots := m.slots.set index slot }

def resetSlot (f : Field) (index : Nat) (m : Message) : Message :=
  { m with slots := m.slots.modify index (clearSlot S f) }

/-- The member that is set, with its place: the first one with the number of the case. -/
def activeMember? (L : Layout) (oneof : Nat) (m : Message) : Option (Field × Nat) :=
  L.fields.zipIdx.find? fun (f, _) => f.isMemberOf oneof && f.number == m.cases.getD oneof 0

/-- The presence bit of a oneof: that of its first member. -/
def oneofBit? (L : Layout) (oneof : Nat) : Option PresenceBit :=
  L.fields.findSome? fun f =>
    match f.placement with
    | .member index bit => if index = oneof then some bit else none
    | .singular _ | .repeated _ => none

/-- Unsets whichever member of a oneof is set. -/
def clearOneof (L : Layout) (oneof : Nat) (m : Message) : Message :=
  let m :=
    match m.activeMember? L oneof with
    | some (f, index) => m.resetSlot S f index
    | none => m
  { m with
    cases := m.cases.set oneof 0
    presence :=
      match oneofBit? L oneof with
      | some bit => m.presence.erase bit
      | none => m.presence }

/-- What precedes storing a value: a member of a oneof unsets another one that is set. -/
def prepare (L : Layout) (f : Field) (m : Message) : Message :=
  match f.placement with
  | .member oneof _ =>
    if m.cases.getD oneof 0 = f.number then m else m.clearOneof S L oneof
  | .singular _ | .repeated _ => m

/-- What follows storing a value: the field becomes present. -/
def markPresent (f : Field) (m : Message) : Message :=
  match f.placement with
  | .singular bit => { m with presence := m.presence.insert bit }
  | .repeated _ => m
  | .member oneof bit =>
    { m with cases := m.cases.set oneof f.number, presence := m.presence.insert bit }

/-- Unsets a field. A member of a oneof is unset only if it is the one that is set. -/
def clearField (L : Layout) (f : Field) (index : Nat) (m : Message) : Message :=
  match f.placement with
  | .singular bit => { m with presence := m.presence.erase bit }.resetSlot S f index
  | .repeated _ => m.resetSlot S f index
  | .member oneof _ =>
    if m.cases.getD oneof 0 = f.number then m.clearOneof S L oneof else m

end Message

end ProtoWire
