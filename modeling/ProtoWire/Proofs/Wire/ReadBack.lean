import ProtoWire.Proofs.Wire.Lookahead
import ProtoWire.Proofs.Wire.Size

/-!
# Reading back what was written

* `reads_readScalar`, `reads_readLength`, `reads_readTag`: they are read in any spelling.
* `reads_readText`, `reads_readBlob`: text and bytes that are written are read back.
-/

namespace ProtoWire

variable {bytes : Bytes} {levels : Nat}

/-! ### Numbers -/

/-- The sign that is spread over a number shifted left is taken off again. -/
theorem ZigZag.xor_sign {w : Nat} (h : 1 < w) (v : BitVec w) :
    (((v <<< 1) ^^^ v.sshiftRight (w - 1)) >>> 1) ^^^
      -(((v <<< 1) ^^^ v.sshiftRight (w - 1)) &&& 1#w) = v := by
  have hbit : ∀ i < w, ((v <<< 1) ^^^ v.sshiftRight (w - 1)).getLsbD i =
      ((decide (0 < i) && v.getLsbD (i - 1)) ^^ v.msb) := by
    intro i hi
    rw [BitVec.getLsbD_xor, BitVec.getLsbD_shiftLeft, BitVec.getLsbD_sshiftRight]
    by_cases hzero : i = 0
    · subst hzero
      simp [BitVec.msb_eq_getLsbD_last]
      omega
    · have hsign : ¬ w - 1 + i < w := by omega
      simp [hi, hsign, Nat.not_le_of_lt hi, hzero, Nat.pos_iff_ne_zero]
  have hlow : ((v <<< 1) ^^^ v.sshiftRight (w - 1)) &&& 1#w = if v.msb then 1#w else 0#w := by
    apply BitVec.eq_of_getLsbD_eq
    intro i hi
    rw [BitVec.getLsbD_and, hbit i hi, BitVec.getLsbD_one]
    by_cases hzero : i = 0
    · subst hzero
      cases v.msb <;> simp [hi]
    · cases v.msb <;> simp [hzero, hi]
  have hmask : -(((v <<< 1) ^^^ v.sshiftRight (w - 1)) &&& 1#w) =
      if v.msb then BitVec.allOnes w else 0#w := by
    rw [hlow]
    cases v.msb <;> simp [BitVec.neg_one_eq_allOnes]
  rw [hmask]
  apply BitVec.eq_of_getLsbD_eq
  intro i hi
  rw [BitVec.getLsbD_xor, BitVec.getLsbD_ushiftRight]
  by_cases hlast : 1 + i < w
  · rw [hbit _ hlast, Nat.add_sub_cancel_left]
    cases v.msb <;> simp [hi, Nat.add_comm 1 i]
  · -- the highest bit is the sign itself
    have hsign : v.getLsbD i = v.msb := by
      rw [BitVec.msb_eq_getLsbD_last, show i = w - 1 by omega]
    rw [BitVec.getLsbD_of_ge _ _ (Nat.le_of_not_lt hlast), hsign]
    cases v.msb <;> simp [hi]

theorem ZigZag.decode32_encode32 (value : Int32) : decode32 (encode32 value) = value := by
  have hxor := xor_sign (by decide) value.toBitVec
  apply Int32.toBitVec_inj.1
  simpa [decode32, encode32] using hxor

theorem ZigZag.decode64_encode64 (value : Int64) : decode64 (encode64 value) = value := by
  have hxor := xor_sign (by decide) value.toBitVec
  apply Int64.toBitVec_inj.1
  simpa [decode64, encode64] using hxor

theorem ofLittleEndian_append (xs ys : Bytes) :
    ofLittleEndian (xs ++ ys) = ofLittleEndian xs + 256 ^ xs.length * ofLittleEndian ys := by
  unfold ofLittleEndian
  induction xs with
  | nil => simp
  | cons x xs ih =>
    rw [List.cons_append, List.foldr_cons, List.foldr_cons, ih, List.length_cons, Nat.pow_succ,
      Nat.mul_add, Nat.add_assoc, Nat.mul_comm (256 ^ xs.length) 256, Nat.mul_assoc]

theorem ofLittleEndian_littleEndian32 (value : UInt32) :
    ofLittleEndian (littleEndian32 value) = value.toNat := by
  have hlt := value.toNat_lt
  have h8 : (value >>> 8).toNat = value.toNat / 2 ^ 8 := by
    simp [UInt32.toNat_shiftRight, Nat.shiftRight_eq_div_pow]
  have h16 : (value >>> 16).toNat = value.toNat / 2 ^ 16 := by
    simp [UInt32.toNat_shiftRight, Nat.shiftRight_eq_div_pow]
  have h24 : (value >>> 24).toNat = value.toNat / 2 ^ 24 := by
    simp [UInt32.toNat_shiftRight, Nat.shiftRight_eq_div_pow]
  simp only [ofLittleEndian, littleEndian32, List.foldr_cons, List.foldr_nil,
    UInt32.toNat_toUInt8, h8, h16, h24]
  omega

theorem ofLittleEndian_littleEndian64 (value : UInt64) :
    ofLittleEndian (littleEndian64 value) = value.toNat := by
  have hlt := value.toNat_lt
  have h32 : (value >>> 32).toNat = value.toNat / 2 ^ 32 := by
    simp [UInt64.toNat_shiftRight, Nat.shiftRight_eq_div_pow]
  rw [littleEndian64, ofLittleEndian_append, ofLittleEndian_littleEndian32,
    ofLittleEndian_littleEndian32, UInt64.toNat_toUInt32, UInt64.toNat_toUInt32, h32]
  simp only [littleEndian32, List.length_cons, List.length_nil]
  omega

/-- The low half of a number that is sign extended is the number. -/
theorem toUInt32_toInt64 (value : Int32) :
    value.toInt64.toUInt64.toUInt32.toInt32 = value := by
  apply Int32.toBitVec_inj.1
  apply BitVec.eq_of_getLsbD_eq
  intro i hi
  simp [BitVec.getElem_signExtend, hi, Nat.lt_trans hi (show 32 < 64 by decide)]

/-- The numbers of 31 bits are those without sign. -/
theorem not_toInt32_neg_iff {value : UInt32} : ¬ value.toInt32 < 0 ↔ value.toNat < 2 ^ 31 := by
  rw [Int32.lt_iff_toInt_lt, Int32.toInt, UInt32.toBitVec_toInt32, BitVec.toInt_eq_toNat_cond]
  have hlt := value.toNat_lt
  simp only [UInt32.toNat_toBitVec, Int32.toInt_zero]
  split <;> omega

theorem utf8Text?_utf8Bytes (text : String) : utf8Text? (utf8Bytes text) = some text := by
  have hvalid : text.toUTF8.IsValidUTF8 := text.isValidUTF8
  have harray : (⟨(utf8Bytes text).toArray⟩ : ByteArray) = text.toUTF8 := by
    simp [utf8Bytes]
  unfold utf8Text? String.fromUTF8?
  rw [harray]
  simp only [Option.dite_none_right_eq_some, Option.some.injEq]
  exact ⟨hvalid, rfl⟩

/-! ### Spellings -/

namespace Scalar

/-- The bytes are a value of the kind. A varint may be longer than the one that is written, and have
bits that the kind has no room for. -/
def Spells : (kind : Scalar) → Bytes → kind.Value → Prop
  | double, bytes, value | fixed64, bytes, value => bytes = littleEndian64 value
  | float, bytes, value | fixed32, bytes, value => bytes = littleEndian32 value
  | sfixed64, bytes, value => bytes = littleEndian64 (Int64.toUInt64 value)
  | sfixed32, bytes, value => bytes = littleEndian32 (Int32.toUInt32 value)
  | uint64, bytes, value => ∃ full, Varint.Spells bytes full ∧ full = value
  | int64, bytes, value => ∃ full, Varint.Spells bytes full ∧ full.toInt64 = value
  | sint64, bytes, value => ∃ full, Varint.Spells bytes full ∧ ZigZag.decode64 full = value
  | bool, bytes, value => ∃ full, Varint.Spells bytes full ∧ (full != 0) = value
  | uint32, bytes, value => ∃ full, Varint.Spells bytes full ∧ full.toUInt32 = value
  | int32, bytes, value => ∃ full, Varint.Spells bytes full ∧ full.toUInt32.toInt32 = value
  | sint32, bytes, value =>
    ∃ full, Varint.Spells bytes full ∧ ZigZag.decode32 full.toUInt32 = value

/-- Every scalar takes a byte at least. -/
theorem Spells.ne_nil {kind : Scalar} {value : kind.Value} (h : kind.Spells bytes value) :
    bytes ≠ [] := by
  cases kind with
  | double | float | fixed64 | fixed32 | sfixed32 | sfixed64 =>
    obtain rfl := h
    exact List.cons_ne_nil _ _
  | int64 | uint64 | int32 | bool | uint32 | sint32 | sint64 =>
    obtain ⟨full, hfull, -⟩ := h
    exact hfull.ne_nil

theorem spells_encode32 (value : UInt32) :
    ∃ full, Varint.Spells (Varint.encode32 value) full ∧ full.toUInt32 = value :=
  ⟨value.toUInt64, Varint.spells_encode _, UInt32.toUInt32_toUInt64 value⟩

theorem spells_write (kind : Scalar) (value : kind.Value) :
    kind.Spells (kind.write value) value := by
  cases kind with
  | double | float | fixed64 | fixed32 | sfixed32 | sfixed64 => rfl
  | int64 => exact ⟨Int64.toUInt64 value, Varint.spells_encode _, rfl⟩
  | uint64 => exact ⟨value, Varint.spells_encode _, rfl⟩
  | uint32 => exact spells_encode32 value
  | sint64 =>
    exact ⟨ZigZag.encode64 value, Varint.spells_encode _, ZigZag.decode64_encode64 value⟩
  | sint32 =>
    obtain ⟨full, hfull, heq⟩ := spells_encode32 (ZigZag.encode32 value)
    exact ⟨full, hfull, by rw [heq, ZigZag.decode32_encode32]⟩
  | bool =>
    cases value with
    | true => exact ⟨1, rfl, rfl⟩
    | false => exact ⟨0, rfl, rfl⟩
  | int32 =>
    change ∃ full, Varint.Spells (writeInt32 value) full ∧ full.toUInt32.toInt32 = value
    unfold writeInt32
    split
    · obtain ⟨full, hfull, heq⟩ := spells_encode32 (Int32.toUInt32 value)
      exact ⟨full, hfull, by rw [heq, Int32.toInt32_toUInt32]⟩
    · exact ⟨_, Varint.spells_encode _, toUInt32_toInt64 value⟩

end Scalar

/-! ### Values of any kind -/

/-- From these bytes the action reads the value, whatever follows them, and the reader stands behind
them afterwards. The action goes at most so many levels deeper. -/
def Reads {α : Type} (levels : Nat) (x : Read α) (bytes : Bytes) (a : α) : Prop :=
  ∀ (r : Reader) (rest : Bytes), r.remaining = bytes ++ rest →
    r.depth.toNat + levels ≤ r.recursionLimit.toNat →
      ∃ r', x r = .ok a r' ∧ (r.advance bytes.length).Alike r'

theorem Reader.remaining_advance_append {r : Reader} {rest : Bytes}
    (h : r.remaining = bytes ++ rest) : (r.advance bytes.length).remaining = rest := by
  rw [Reader.remaining_advance, h, List.drop_left]

namespace Reads

variable {α β : Type} {x : Read α} {a : α}

/-- An action that leaves the latest tag alone. -/
theorem of_ok (h : ∀ (r : Reader) (rest : Bytes), r.remaining = bytes ++ rest →
    x r = .ok a (r.advance bytes.length)) : Reads levels x bytes a :=
  fun r rest hr _ => ⟨_, h r rest hr, .refl _⟩

theorem map (h : Reads levels x bytes a) (f : α → β) : Reads levels (f <$> x) bytes (f a) := by
  intro r rest hr hlevels
  obtain ⟨r', hx, halike⟩ := h r rest hr hlevels
  exact ⟨r', map_eq_ok.2 ⟨a, hx, rfl⟩, halike⟩

theorem bind {f : α → Read β} {bytes' : Bytes} {b : β} (h : Reads levels x bytes a)
    (h' : Reads levels (f a) bytes' b) : Reads levels (x >>= f) (bytes ++ bytes') b := by
  intro r rest hr hlevels
  rw [List.append_assoc] at hr
  obtain ⟨_, hx, tag, rfl⟩ := h r (bytes' ++ rest) hr hlevels
  obtain ⟨_, hf, tag', rfl⟩ :=
    h' { r.advance bytes.length with lastTag := tag } rest (r.remaining_advance_append hr) hlevels
  refine ⟨_, (bind_of_ok hx).trans hf, tag', ?_⟩
  simp [Reader.advance, Nat.add_assoc]

theorem pure (a : α) : Reads levels (Pure.pure a : Read α) [] a :=
  .of_ok fun _ _ _ => rfl

theorem bind_pure (h : Reads levels x bytes a) {f : α → Read β} {b : β}
    (hf : f a = Pure.pure b) : Reads levels (x >>= f) bytes b := by
  have hb : Reads levels (f a) [] b := hf ▸ pure b
  simpa using h.bind hb

end Reads

section Values

theorem reads_readVarint64 {value : UInt64} (h : Varint.Spells bytes value) :
    Reads levels readVarint64 bytes value :=
  .of_ok fun _ rest hr => readVarint64_eq_ok.2 ⟨_, hr ▸ h.append rest, rfl⟩

theorem reads_readVarint32 {value : UInt64} (h : Varint.Spells bytes value) :
    Reads levels readVarint32 bytes value.toUInt32 :=
  .of_ok fun _ rest hr => readVarint32_eq_ok.2 ⟨value, _, hr ▸ h.append rest, rfl, rfl⟩

theorem reads_readFixed (bytes : Bytes) :
    Reads levels (readFixed bytes.length) bytes (ofLittleEndian bytes) := by
  refine .of_ok fun r rest h => readFixed_eq_ok.2 ⟨?_, ?_, rfl⟩
  · rw [h, List.length_append]
    exact Nat.le_add_right ..
  · rw [h, List.take_left]

theorem reads_readFixed32 (value : UInt32) :
    Reads levels readFixed32 (littleEndian32 value) value := by
  have hread : Reads levels readFixed32 (littleEndian32 value)
      (ofLittleEndian (littleEndian32 value)).toUInt32 :=
    (reads_readFixed (littleEndian32 value)).map Nat.toUInt32
  rw [ofLittleEndian_littleEndian32] at hread
  simpa using hread

theorem reads_readFixed64 (value : UInt64) :
    Reads levels readFixed64 (littleEndian64 value) value := by
  have hread : Reads levels readFixed64 (littleEndian64 value)
      (ofLittleEndian (littleEndian64 value)).toUInt64 :=
    (reads_readFixed (littleEndian64 value)).map Nat.toUInt64
  rw [ofLittleEndian_littleEndian64] at hread
  simpa using hread

theorem reads_readScalar {kind : Scalar} {value : kind.Value} (h : kind.Spells bytes value) :
    Reads levels (readScalar kind) bytes value := by
  cases kind with
  | double | fixed64 =>
    obtain rfl := h
    exact reads_readFixed64 value
  | float | fixed32 =>
    obtain rfl := h
    exact reads_readFixed32 value
  | sfixed64 =>
    obtain rfl := h
    exact (reads_readFixed64 (Int64.toUInt64 value)).map UInt64.toInt64
  | sfixed32 =>
    obtain rfl := h
    exact (reads_readFixed32 (Int32.toUInt32 value)).map UInt32.toInt32
  | uint64 =>
    obtain ⟨full, hfull, rfl⟩ := h
    exact reads_readVarint64 hfull
  | int64 | sint64 | bool =>
    obtain ⟨full, hfull, rfl⟩ := h
    exact (reads_readVarint64 hfull).map _
  | uint32 =>
    obtain ⟨full, hfull, rfl⟩ := h
    exact reads_readVarint32 hfull
  | int32 | sint32 =>
    obtain ⟨full, hfull, rfl⟩ := h
    exact (reads_readVarint32 hfull).map _

/-! ### Payloads with a length -/

theorem reads_readLength {size : UInt64} (h : Varint.Spells bytes size)
    (hpos : ¬ size.toUInt32.toInt32 < 0) : Reads levels readLength bytes size.toUInt32.toNat :=
  (reads_readVarint32 h).bind_pure (by rw [if_neg hpos])

theorem toNat_toUInt64_toUInt32 {n : Nat} (h : n < 2 ^ 32) : n.toUInt64.toUInt32.toNat = n := by
  rw [UInt64.toNat_toUInt32, Nat.toUInt64, UInt64.toNat_ofNat']
  omega

theorem reads_readLength_writeLength {n : Nat} (h : n < 2 ^ 31) :
    Reads levels readLength (writeLength n) n := by
  have hsize := toNat_toUInt64_toUInt32 (Nat.lt_trans h (by decide))
  have hread : Reads levels readLength (writeLength n) n.toUInt64.toUInt32.toNat :=
    reads_readLength (Varint.spells_encode n.toUInt64) (not_toInt32_neg_iff.2 (by rwa [hsize]))
  rwa [hsize] at hread

/-- A length that takes 32 bits is written, but its top bit is read as a sign. -/
theorem readLength_writeLength_of_long {n : Nat} (hlong : 2 ^ 31 ≤ n) (hn : n < 2 ^ 32) {r : Reader}
    {rest : Bytes} (hr : r.remaining = writeLength n ++ rest) :
    readLength r = .error .negativeSize (r.advance (writeLength n).length) := by
  have hread : readVarint32 r = .ok n.toUInt64.toUInt32 (r.advance (writeLength n).length) :=
    readVarint32_eq_ok.2 ⟨_, _, hr ▸ (Varint.spells_encode n.toUInt64).append rest, rfl, rfl⟩
  have hneg : n.toUInt64.toUInt32.toInt32 < 0 := by
    by_contra hpos
    have hlt := not_toInt32_neg_iff.1 hpos
    rw [toNat_toUInt64_toUInt32 hn] at hlt
    exact absurd hlong (Nat.not_le_of_lt hlt)
  unfold readLength
  rw [bind_of_ok hread, if_pos hneg]
  rfl

theorem reads_readRaw (bytes : Bytes) : Reads levels (readRaw bytes.length) bytes bytes := by
  refine .of_ok fun r rest h => readRaw_eq_ok.2 ⟨?_, ?_, rfl⟩
  · have := r.length_remaining_le
    rw [h, List.length_append] at this
    omega
  · have hle : bytes.length ≤ r.limit - r.pos := by
      have := r.length_remaining_le
      rw [h, List.length_append] at this
      exact Nat.le_trans (Nat.le_add_right ..) this
    rw [← Nat.min_eq_left hle, ← List.take_take]
    exact (congrArg (List.take _) h).trans List.take_left

theorem length_lt_of_writeBlob {n : Nat} (h : (writeBlob bytes).length < n) : bytes.length < n := by
  rw [writeBlob, List.length_append] at h
  omega

theorem reads_readBlob (h : bytes.length < 2 ^ 31) :
    Reads levels readBlob (writeBlob bytes) bytes :=
  (reads_readLength_writeLength h).bind (reads_readRaw bytes)

theorem reads_readText {text : String} (h : (utf8Bytes text).length < 2 ^ 31) :
    Reads levels readText (writeBlob (utf8Bytes text)) text := by
  refine (reads_readBlob h).bind_pure ?_
  unfold decodeText
  rw [utf8Text?_utf8Bytes]

end Values

/-! ### Tags -/

/-- A tag is read back, unless its number is zero. -/
theorem reads_readTag {full : UInt64} (h : Varint.Spells bytes full)
    (hnumber : Tag.number full.toUInt32 ≠ 0) : Reads levels readTag bytes full.toUInt32 := by
  intro r rest hr hlevels
  have hend : r.atEnd = false := by
    cases hend : r.atEnd with
    | false => rfl
    | true =>
      rw [Reader.remaining_of_atEnd hend, eq_comm, List.append_eq_nil_iff] at hr
      exact absurd hr.1 h.ne_nil
  obtain ⟨_, hread, tag, rfl⟩ := reads_readVarint32 h r rest hr hlevels
  exact ⟨_, readTag_eq_ok.2 (.inr ⟨hend, hnumber, _, hread, rfl⟩), full.toUInt32, rfl⟩

theorem reads_readTag_writeTag {tag : UInt32} (hnumber : Tag.number tag ≠ 0) :
    Reads levels readTag (writeTag tag) tag := by
  have hcast : tag.toUInt64.toUInt32 = tag := UInt32.toUInt32_toUInt64 tag
  have hread : Reads levels readTag (writeTag tag) tag.toUInt64.toUInt32 :=
    reads_readTag (Varint.spells_encode tag.toUInt64) (by rwa [hcast])
  rwa [hcast] at hread

end ProtoWire
