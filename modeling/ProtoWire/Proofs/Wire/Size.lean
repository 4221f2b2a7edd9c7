import ProtoWire.Proofs.Varint.Encode
import ProtoWire.Proofs.Wire.Tag

/-!
# Sizes of single values

* `Scalar.length_write`, `length_writeBlob`, `length_utf8Bytes`: the sizes computed from values are
  the numbers of bytes written.
-/

namespace ProtoWire

/-! ### Tags -/

theorem Varint.encodedLength_of_div_eight {value value' : UInt64}
    (h : value.toNat / 8 = value'.toNat / 8) : encodedLength value = encodedLength value' := by
  by_cases hlt : value.toNat < 128
  · rw [encodedLength_of_lt hlt, encodedLength_of_lt (by omega)]
  · have hlog : ∀ n, 128 ≤ n → n.log2 = (n / 8).log2 + 3 := by
      intro n hn
      have hne : n / 8 ≠ 0 := by omega
      obtain ⟨hle, hlt⟩ := (Nat.log2_eq_iff hne).1 rfl
      refine (Nat.log2_eq_iff (by omega)).2 ⟨?_, ?_⟩
      · rw [Nat.pow_add]
        omega
      · rw [Nat.add_right_comm, Nat.pow_add]
        omega
    rw [encodedLength, encodedLength, bitLength_or_one (by omega), bitLength_or_one (by omega),
      hlog value.toNat (by omega), hlog value'.toNat (by omega), h]

/-- The wire type does not change how long a tag is. -/
theorem tagSize_make (number : UInt32) (t t' : WireType) :
    tagSize (Tag.make number t) = tagSize (Tag.make number t') := by
  have ht := t.toNat_raw_lt
  have ht' := t'.toNat_raw_lt
  refine Varint.encodedLength_of_div_eight ?_
  rw [UInt32.toNat_toUInt64, UInt32.toNat_toUInt64, Tag.toNat_make, Tag.toNat_make]
  omega

@[simp] theorem Lengths.choose_computed (size : Nat) (payload : Bytes) :
    Lengths.choose size payload = size := rfl

theorem length_writeTag (tag : UInt32) : (writeTag tag).length = tagSize tag :=
  Varint.length_encode32 tag

/-! ### Scalars -/

/-- A negative number keeps its sign in the highest of 64 bits, and so takes ten bytes. -/
theorem Varint.encodedLength_of_neg {value : Int32} (h : ¬ 0 ≤ value) :
    encodedLength value.toInt64.toUInt64 = maxVarintSize := by
  have hneg : value.toInt64.toInt < 0 := by
    rw [Int32.le_iff_toInt_le] at h
    rw [Int32.toInt_toInt64]
    simpa using h
  have hhigh : 2 ^ 64 ≤ 2 * value.toInt64.toUInt64.toNat := BitVec.toInt_neg_iff.1 hneg
  have hne : value.toInt64.toUInt64.toNat ≠ 0 := by omega
  have hlog : value.toInt64.toUInt64.toNat.log2 = 63 :=
    (Nat.log2_eq_iff hne).2 ⟨by omega, value.toInt64.toUInt64.toNat_lt⟩
  rw [encodedLength, bitLength_or_one hne, hlog]

theorem length_writeInt32 (value : Int32) : (writeInt32 value).length = sizeInt32 value := by
  unfold writeInt32 sizeInt32
  split
  · exact Varint.length_encode32 _
  · rename_i hneg
    rw [Varint.length_encode, Varint.encodedLength_of_neg hneg]

theorem Scalar.length_write (kind : Scalar) (value : kind.Value) :
    (kind.write value).length = kind.size value := by
  cases kind with
  | double | float | fixed64 | fixed32 | bool | sfixed32 | sfixed64 => rfl
  | int32 => exact length_writeInt32 value
  | int64 | uint64 | uint32 | sint32 | sint64 => exact Varint.length_encode _

theorem Scalar.size_eq_fixedSize {kind : Scalar} {size : Nat} (h : kind.fixedSize = some size)
    (value : kind.Value) : kind.size value = size := by
  cases kind <;> cases h <;> rfl

/-! ### Payloads with a length -/

theorem length_writeLength (length : Nat) :
    (writeLength length).length = Varint.encodedLength length.toUInt64 :=
  Varint.length_encode _

theorem length_writeBlob (bytes : Bytes) : (writeBlob bytes).length = delimitedSize bytes.length := by
  rw [writeBlob, List.length_append, length_writeLength, delimitedSize]

theorem length_utf8Bytes (text : String) : (utf8Bytes text).length = text.utf8ByteSize := by
  simp [utf8Bytes]

theorem length_le_of_mem {α : Type} (write : α → Bytes) {values : List α} {a : α}
    (ha : a ∈ values) : (write a).length ≤ (values.flatMap write).length := by
  obtain ⟨before, after, rfl⟩ := List.append_of_mem ha
  rw [List.flatMap_append, List.flatMap_cons, List.length_append, List.length_append]
  omega

end ProtoWire
