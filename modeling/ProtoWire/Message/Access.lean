import ProtoWire.Message.Encode
import ProtoWire.Message.Merge
import ProtoWire.Repeated.Step

/-!
# Access to fields

* `Action.run`: what it does. It may fail, and then leaves what it had changed.
* `Message.require`: the check of strict getters.
-/

namespace ProtoWire

/-- A value that is stored in a field, or appended to it. -/
inductive FieldValue where
  | scalar (kind : Scalar) (value : kind.Value)
  | text (value : String)
  | blob (value : Bytes)
  | message (value : Message)

def FieldValue.toSlot : FieldValue → Slot Message
  | scalar kind value => .scalar kind value
  | text value => .text value
  | blob value => .blob value
  | message value => .sub (some value)

/-! ### Reading -/

/-- The default of an enum type: the value numbered 0, or else the first. -/
def enumDefault? (declared : List (String × Int32)) : Option (String × Int32) :=
  (declared.find? (·.2 == 0)).or declared.head?

/-- The declared value with a number; of several, the first. -/
def enumOfNumber? (declared : List (String × Int32)) (number : Int32) : Option (String × Int32) :=
  declared.find? (·.2 == number)

/-- The declared value a raw number is read as: its own, that of the field's default, or the default
of the type. -/
def enumAt (declared : List (String × Int32)) (default : Option Int32) (raw : Int32) :
    Option (String × Int32) :=
  ((enumOfNumber? declared raw).or (default.bind (enumOfNumber? declared))).or
    (enumDefault? declared)

def knownEnums (declared : List (String × Int32)) (raws : List Int32) : List (String × Int32) :=
  raws.filterMap (enumOfNumber? declared)

def Message.require (m : Message) (p : PlacedField) : Except Fault Unit :=
  if m.has p.1 p.2 then .ok () else .error (.notSet p.1.name)

def Slot.count {M : Type} : Slot M → Nat
  | scalar _ _ | text _ | blob _ => 1
  | sub value => value.toList.length
  | scalars _ c => c.values.length
  | texts c => c.values.length
  | blobs c => c.values.length
  | subs c => c.values.length

def Message.count (m : Message) (index : Nat) : Nat :=
  (m.slots[index]?.map Slot.count).getD 0

def Slot.capacity? {M : Type} : Slot M → Option Nat
  | scalar _ _ | text _ | blob _ | sub _ => none
  | scalars _ c => some c.capacity
  | texts c => some c.capacity
  | blobs c => some c.capacity
  | subs c => some c.capacity

/-! ### Changing -/

/-- One change of a message. Fields are named by their place in the layout. -/
inductive Action where
  /-- Merges an encoded message, with a recursion limit. -/
  | merge (limit : UInt32) (data : Bytes)
  /-- Replaces the message by a decoded one, if it can be decoded. -/
  | parse (data : Bytes)
  | clear
  | copy
  | clearField (index : Nat)
  | clearOneof (oneof : Nat)
  /-- Sets a singular field. -/
  | store (index : Nat) (value : FieldValue)
  /-- Makes a text or bytes field present and appends to it. -/
  | extend (index : Nat) (value : FieldValue)
  /-- Makes a singular message present and changes it. -/
  | within (index : Nat) (action : Action)
  /-- Appends to a repeated field. -/
  | append (index : Nat) (value : FieldValue)
  /-- Appends the default to a repeated field. -/
  | appendDefault (index : Nat)
  /-- Changes one message of a repeated field. -/
  | atElement (index place : Nat) (action : Action)
  /-- Changes the container of a repeated scalar field. -/
  | scalars (index : Nat) (kind : Scalar) (step : Repeated.Step kind.Value)
  /-- Changes the container of a repeated text field. -/
  | texts (index : Nat) (step : Repeated.Step String)
  /-- Changes the container of a repeated bytes field. -/
  | blobs (index : Nat) (step : Repeated.Step Bytes)
  /-- Changes the container of a repeated message field. -/
  | subs (index : Nat) (step : Repeated.Step Message)

abbrev Changed := Except Fault Unit × Message

def Message.editSlot {α : Type} (m : Message) (index : Nat) (c : Repeated α)
    (store : Repeated α → Slot Message) (x : Repeated.Edit α Unit) : Changed :=
  match x c with
  | .ok () c => (.ok (), m.setSlot index (store c))
  | .error e c => (.error e, m.setSlot index (store c))

/-- Appends a value to a repeated field. Text and bytes reuse a retained element. -/
def Message.append (m : Message) (index : Nat) (value : FieldValue) : Changed :=
  match m.slots[index]?, value with
  | some (.scalars kind c), .scalar kind' value =>
    if h : kind' = kind then
      m.editSlot index c (.scalars kind) (Repeated.add kind.storageSize (h ▸ value))
    else (.ok (), m)
  | some (.texts c), .text value =>
    m.editSlot index c .texts (do
      Repeated.pushRecycled textSize "" fun _ => ""
      modify (Repeated.modifyLast fun _ => value))
  | some (.blobs c), .blob value =>
    m.editSlot index c .blobs (do
      Repeated.pushRecycled blobSize [] fun _ => []
      modify (Repeated.modifyLast fun _ => value))
  | some (.subs c), .message value => m.editSlot index c .subs (Repeated.add messageSize value)
  | _, _ => (.ok (), m)

def Message.appendDefault (S : Schema) (f : Field) (m : Message) (index : Nat) : Changed :=
  match m.slots[index]? with
  | some (.scalars kind c) =>
    m.editSlot index c (.scalars kind) (Repeated.add kind.storageSize kind.zero)
  | some (.texts c) => m.editSlot index c .texts (Repeated.add textSize "")
  | some (.blobs c) => m.editSlot index c .blobs (Repeated.add blobSize [])
  | some (.subs c) => m.editSlot index c .subs (Repeated.add messageSize (f.element.blank S))
  | _ => (.ok (), m)

/-- Appends to the text or bytes stored in a slot. -/
def Slot.extend (slot : Slot Message) (value : FieldValue) : Slot Message :=
  match slot, value with
  | .text old, .text new => .text (old ++ new)
  | .blob old, .blob new => .blob (old ++ new)
  | slot, _ => slot

def Element.type? : Element → Option TypeId
  | message type | group type => some type
  | _ => none

def Action.run (S : Schema) (order : FieldOrder) (type : TypeId) : Action → Message → Changed
  | merge limit data, m => m.mergeBytes S order type limit data
  | parse data, m =>
    match Message.parse S order type data with
    | .ok m => (.ok (), m)
    | .error e => (.error e, m)
  | clear, m => (.ok (), m.clear S (S.layout type))
  | copy, m => (.ok (), m.copy)
  | clearField index, m =>
    match (S.layout type).fields[index]? with
    | some f => (.ok (), m.clearField S (S.layout type) f index)
    | none => (.ok (), m)
  | clearOneof oneof, m => (.ok (), m.clearOneof S (S.layout type) oneof)
  | store index value, m =>
    match (S.layout type).fields[index]? with
    | some f =>
      (.ok (), ((m.prepare S (S.layout type) f).setSlot index value.toSlot).markPresent f)
    | none => (.ok (), m)
  | extend index value, m =>
    match (S.layout type).fields[index]? with
    | some f =>
      let m := (m.prepare S (S.layout type) f).markPresent f
      (.ok (), { m with slots := m.slots.modify index (Slot.extend · value) })
    | none => (.ok (), m)
  | within index action, m =>
    match (S.layout type).fields[index]? with
    | some f =>
      let m := (m.prepare S (S.layout type) f).markPresent f
      match m.slots[index]?, f.element.type? with
      | some (.sub value), some inner =>
        let (outcome, value) := action.run S order inner (value.getD (f.element.blank S))
        (outcome, m.setSlot index (.sub (some value)))
      | _, _ => (.ok (), m)
    | none => (.ok (), m)
  | append index value, m => m.append index value
  | appendDefault index, m =>
    match (S.layout type).fields[index]? with
    | some f => m.appendDefault S f index
    | none => (.ok (), m)
  | atElement index place action, m =>
    match m.slots[index]?, ((S.layout type).fields[index]?).bind (·.element.type?) with
    | some (.subs c), some inner =>
      match c.values[place]? with
      | some value =>
        let (outcome, value) := action.run S order inner value
        (outcome, m.setSlot index (.subs { c with values := c.values.set place value }))
      | none => (.ok (), m)
    | _, _ => (.ok (), m)
  | scalars index kind step, m =>
    match m.slots[index]? with
    | some (.scalars kind' c) =>
      if h : kind' = kind then
        m.editSlot index (h ▸ c) (.scalars kind) (step.run kind.storageSize kind.zero)
      else (.ok (), m)
    | _ => (.ok (), m)
  | texts index step, m =>
    match m.slots[index]? with
    | some (.texts c) => m.editSlot index c .texts (step.run textSize "")
    | _ => (.ok (), m)
  | blobs index step, m =>
    match m.slots[index]? with
    | some (.blobs c) => m.editSlot index c .blobs (step.run blobSize [])
    | _ => (.ok (), m)
  | subs index step, m =>
    match m.slots[index]?, (S.layout type).fields[index]? with
    | some (.subs c), some f =>
      m.editSlot index c .subs (step.run messageSize (f.element.blank S))
    | _, _ => (.ok (), m)

end ProtoWire
