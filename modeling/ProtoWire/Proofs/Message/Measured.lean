import ProtoWire.Message.Conformance
import ProtoWire.Proofs.Message.Size

/-!
# Lengths are those of the payloads behind them

The lengths in front of nested messages and packed runs are computed before anything is written.
Here is a writer that computes none: it writes a payload and then puts its length in front.
-/

namespace ProtoWire

/-- The length of the payload itself. -/
abbrev Lengths.measured : Lengths where
  choose _ payload := payload.length

/-- The bytes of a message, with every payload measured. -/
def Message.measured (S : Schema) (order : FieldOrder) (L : Layout) (m : Message) : Bytes :=
  @Message.encode S .measured order L m

theorem writeNested_eq_measured {f : Field} {size : Nat} {contents : Bytes}
    (h : contents.length = size) :
    writeNested f size contents = @writeNested .measured f size contents := by
  subst h
  rfl

theorem writePacked_eq_measured (tag : UInt32) (kind : Scalar) (values : List kind.Value) :
    writePacked tag kind.size kind.write values =
      @writePacked .measured _ tag kind.size kind.write values := by
  have hlength : packedSize kind.size values = (values.flatMap kind.write).length := by
    rw [length_flatMap kind.length_write, packedSize, totalSize_eq_sum]
  unfold writePacked
  simp only [Lengths.choose, hlength]

mutual

/-- Computed lengths are measured ones. -/
theorem Message.encode_eq_measured (S : Schema) (order : FieldOrder) (L : Layout) :
    (m : Message) → m.encode S order L = @Message.encode S .measured order L m
  | ⟨presence, cases, slots⟩ => by
    rw [Message.encode, @Message.encode.eq_def S .measured,
      encodeSlots_eq_measured S order presence cases L.fields slots]

theorem encodeSlots_eq_measured (S : Schema) (order : FieldOrder) (presence : Presence)
    (cases : List UInt32) : (fields : List Field) → (slots : List (Slot Message)) →
      encodeSlots S order presence cases fields slots =
        @encodeSlots S .measured order presence cases fields slots
  | f :: fields, slot :: slots => by
    rw [encodeSlots, @encodeSlots.eq_def S .measured, encodeSlot_eq_measured S order f slot,
      encodeSlots_eq_measured S order presence cases fields slots]
  | [], _ | _ :: _, [] => by simp only [encodeSlots]

theorem encodeSlot_eq_measured (S : Schema) (order : FieldOrder) (f : Field) :
    (slot : Slot Message) → encodeSlot S order f slot = @encodeSlot S .measured order f slot
  | .scalar kind value | .text value | .blob value | .texts c | .blobs c => by
    simp only [encodeSlot]
  | .sub none => by
    simp only [encodeSlot]
    exact writeNested_eq_measured rfl
  | .sub (some m) => by
    simp only [encodeSlot]
    cases f.element with
    | message type | group type =>
      simp only
      rw [writeNested_eq_measured (m.length_encode S order _), m.encode_eq_measured S order]
    | scalar | enum | text | blob => rfl
  | .scalars kind c => by
    simp only [encodeSlot, writePacked_eq_measured]
  | .subs ⟨values, _, _⟩ => by
    simp only [encodeSlot]
    cases f.element with
    | message type | group type => exact encodeMessages_eq_measured S order _ f values
    | scalar | enum | text | blob => rfl

theorem encodeMessages_eq_measured (S : Schema) (order : FieldOrder) (L : Layout) (f : Field) :
    (ms : List Message) →
      encodeMessages S order L f ms = @encodeMessages S .measured order L f ms
  | [] => by simp only [encodeMessages]
  | m :: ms => by
    simp only [encodeMessages]
    rw [writeNested_eq_measured (m.length_encode S order L), m.encode_eq_measured S order L,
      encodeMessages_eq_measured S order L f ms]

end

section Conformance

open Conformance (schema)

/-- The size of a message is the number of its bytes. Each length in it, of a nested message, a
packed run, a text or bytes, is the number of bytes behind it, at every level. -/
theorem computed_sizes_exact (V : Conformance.Variant) (type : TypeId) (m : Message) :
    (m.encode schema V.order (schema.layout type)).length = m.size schema (schema.layout type) ∧
      m.encode schema V.order (schema.layout type) =
        m.measured schema V.order (schema.layout type) :=
  ⟨m.length_encode schema V.order _, m.encode_eq_measured schema V.order _⟩

end Conformance

end ProtoWire
