import ProtoWire.Message.Encode
import ProtoWire.Proofs.Field.Order
import ProtoWire.Proofs.Wire.Size

/-!
# Sizes of messages

* `Message.length_encode`: the size of a message is the number of its bytes. Every length written in
  front of a payload is therefore the length of the payload.
-/

namespace ProtoWire

section Slots

variable {f : Field}

theorem length_writeNested {size : Nat} {contents : Bytes} (h : contents.length = size) :
    (writeNested f size contents).length = nestedSize f size := by
  unfold writeNested nestedSize
  split
  · rw [List.length_append, List.length_append, length_writeTag, length_writeTag, h,
      groupSize, tagSize_make f.number .endGroup .startGroup]
    omega
  · rw [List.length_append, List.length_append, length_writeTag, length_writeLength, h,
      Lengths.choose_computed, delimitedSize]
    omega

theorem totalSize_eq_sum (sizes : List Nat) : totalSize sizes = sizes.sum :=
  rfl

theorem length_flatMap {α : Type} {write : α → Bytes} {size : α → Nat}
    (h : ∀ a, (write a).length = size a) (values : List α) :
    (values.flatMap write).length = (values.map size).sum := by
  rw [List.length_flatMap]
  exact congrArg (fun g => (values.map g).sum) (funext h)

theorem length_flatMap_tag {α : Type} {write : α → Bytes} {size : α → Nat}
    (h : ∀ a, (write a).length = size a) (tag : UInt32) (values : List α) :
    (values.flatMap fun value => writeTag tag ++ write value).length =
      tagSize tag * values.length + (values.map size).sum := by
  induction values with
  | nil => simp
  | cons value values ih =>
    rw [List.flatMap_cons, List.length_append, ih, List.length_append, length_writeTag, h,
      List.map_cons, List.sum_cons, List.length_cons, Nat.mul_succ]
    omega

theorem scalarsSize_eq (kind : Scalar) (values : List kind.Value) :
    scalarsSize kind values = (values.map kind.size).sum := by
  unfold scalarsSize
  split
  · rename_i size hsize
    induction values with
    | nil => rfl
    | cons value values ih =>
      rw [List.length_cons, Nat.mul_succ, ih, List.map_cons, List.sum_cons,
        Scalar.size_eq_fixedSize hsize, Nat.add_comm]
  · rfl

theorem length_writePacked {tag : UInt32} {kind : Scalar} {values : List kind.Value}
    (h : values.isEmpty = false) :
    (writePacked tag kind.size kind.write values).length =
      tagSize tag + delimitedSize (scalarsSize kind values) := by
  unfold writePacked
  rw [if_neg (by simp [h]), List.length_append, List.length_append, length_writeTag,
    length_writeLength, length_flatMap kind.length_write, scalarsSize_eq, packedSize,
    totalSize_eq_sum, Lengths.choose_computed, delimitedSize]
  omega

theorem Field.isEmpty_of_isPacked {presence : Presence} {cases : List UInt32}
    {slot : Slot Message} (hpresent : f.isPresent presence cases slot = true)
    (hpacked : f.strategy.cardinality.isPacked = true) : slot.isEmpty = false := by
  obtain ⟨_, _, _, placement⟩ := f
  cases placement with
  | singular bit => cases hpacked
  | repeated packed => simpa [Field.isPresent] using hpresent
  | member oneof bit => cases hpacked

end Slots

mutual

/-- The size of a message is the number of its bytes. -/
theorem Message.length_encode (S : Schema) (order : FieldOrder) (L : Layout) :
    (m : Message) → (m.encode S order L).length = m.size S L
  | ⟨presence, cases, slots⟩ => by
    have hslots := length_encodeSlots S order presence cases L.fields slots
    have hperm := order.arrange_perm Prod.fst (encodeSlots S order presence cases L.fields slots)
    rw [Message.encode, Message.size, List.length_flatMap, ← hslots]
    exact (hperm.map _).sum_nat

theorem length_encodeSlots (S : Schema) (order : FieldOrder) (presence : Presence)
    (cases : List UInt32) : (fields : List Field) → (slots : List (Slot Message)) →
      (encodeSlots S order presence cases fields slots).map (fun p => p.2.length) =
        sizeSlots S presence cases fields slots
  | f :: fields, slot :: slots => by
    have hslot := length_encodeSlot S order f presence cases slot
    have hslots := length_encodeSlots S order presence cases fields slots
    rw [encodeSlots, sizeSlots, List.map_cons, hslots]
    split
    · rename_i hpresent
      rw [hslot hpresent]
    · rfl
  | [], _ | _ :: _, [] => by simp [encodeSlots, sizeSlots]

theorem length_encodeSlot (S : Schema) (order : FieldOrder) (f : Field) (presence : Presence)
    (cases : List UInt32) : (slot : Slot Message) → f.isPresent presence cases slot = true →
      (encodeSlot S order f slot).length = sizeSlot S f slot
  | .scalar kind value, _ => by
    rw [encodeSlot, sizeSlot, List.length_append, length_writeTag, kind.length_write]
    cases hsize : kind.fixedSize with
    | none => rfl
    | some size => rw [Scalar.size_eq_fixedSize hsize, Option.getD_some]
  | .text value, _ => by
    rw [encodeSlot, sizeSlot, List.length_append, length_writeTag, length_writeBlob,
      length_utf8Bytes]
  | .blob value, _ => by
    rw [encodeSlot, sizeSlot, List.length_append, length_writeTag, length_writeBlob]
  | .sub none, _ => by
    rw [encodeSlot, sizeSlot]
    exact length_writeNested rfl
  | .sub (some m), _ => by
    rw [encodeSlot, sizeSlot]
    split
    · exact length_writeNested (m.length_encode S order _)
    · exact length_writeNested (m.length_encode S order _)
    · rfl
  | .scalars kind c, hpresent => by
    rw [encodeSlot, sizeSlot]
    split
    · rename_i hpacked
      exact length_writePacked (f.isEmpty_of_isPacked hpresent hpacked)
    · rw [length_flatMap_tag kind.length_write, scalarsSize_eq]
  | .texts c, _ => by
    rw [encodeSlot, sizeSlot, length_flatMap_tag fun value => length_writeBlob (utf8Bytes value),
      totalSize_eq_sum]
    simp only [length_utf8Bytes]
  | .blobs c, _ => by
    rw [encodeSlot, sizeSlot, length_flatMap_tag length_writeBlob, totalSize_eq_sum]
  | .subs ⟨values, _, _⟩, _ => by
    rw [encodeSlot, sizeSlot]
    split
    · exact length_encodeMessages S order _ f values
    · exact length_encodeMessages S order _ f values
    · rfl

theorem length_encodeMessages (S : Schema) (order : FieldOrder) (L : Layout) (f : Field) :
    (ms : List Message) → (encodeMessages S order L f ms).length =
      ((sizeMessages S L ms).map (nestedSize f)).sum
  | [] => rfl
  | m :: ms => by
    rw [encodeMessages, sizeMessages, List.length_append, List.map_cons, List.sum_cons,
      length_writeNested (m.length_encode S order L), length_encodeMessages S order L f ms]

end

/-! ### Fields in a row -/

/-- What is written for a field of a message. -/
def Field.written (S : Schema) (order : FieldOrder) (presence : Presence) (cases : List UInt32)
    (f : Field) (slot : Slot Message) : UInt32 × Bytes :=
  (f.number, if f.isPresent presence cases slot then encodeSlot S order f slot else [])

theorem encodeSlots_eq_zipWith (S : Schema) (order : FieldOrder) (presence : Presence)
    (cases : List UInt32) (fields : List Field) (slots : List (Slot Message)) :
    encodeSlots S order presence cases fields slots =
      List.zipWith (Field.written S order presence cases) fields slots := by
  induction fields generalizing slots with
  | nil => simp [encodeSlots]
  | cons f fields ih =>
    cases slots with
    | nil => simp [encodeSlots]
    | cons slot slots =>
      rw [encodeSlots, ih, List.zipWith_cons_cons, Field.written]

theorem encodeMessages_eq_flatMap (S : Schema) (order : FieldOrder) (L : Layout) (f : Field)
    (ms : List Message) :
    encodeMessages S order L f ms =
      ms.flatMap fun m => writeNested f (m.size S L) (m.encode S order L) := by
  induction ms with
  | nil => rfl
  | cons m ms ih => rw [encodeMessages, ih, List.flatMap_cons]

end ProtoWire
