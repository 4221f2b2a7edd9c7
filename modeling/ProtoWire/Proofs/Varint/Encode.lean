import ProtoWire.Proofs.Varint.Read

/-!
# Varints that are written

A varint is bytes that go on and one that ends. It is read back as the number that was written.
-/

namespace ProtoWire.Varint

variable {value : UInt64} {n : Nat}

theorem toNat_or_128 (b : UInt8) : (b ||| 0x80).toNat % 128 = b.toNat % 128 := by
  rw [UInt8.toNat_or, show (128 : Nat) = 2 ^ 7 from rfl, Nat.or_mod_two_pow]
  simp

theorem not_or_128_lt (b : UInt8) : ¬ (b ||| 0x80) < 0x80 := by
  rw [lt_128_iff, UInt8.toNat_or]
  have : (128 : Nat) ≤ b.toNat ||| 128 := Nat.right_le_or
  exact Nat.not_lt.2 this

theorem toNat_shiftRight_seven (value : UInt64) : (value >>> 7).toNat = value.toNat / 128 := by
  simp [UInt64.toNat_shiftRight, Nat.shiftRight_eq_div_pow]

/-- Bytes that go on, one that ends, and all payload bits of the number. -/
theorem encode_shape (value : UInt64) :
    ∃ more last, encode value = more ++ [last] ∧ (∀ b ∈ more, ¬ b < 0x80) ∧ last < 0x80 ∧
      payload (more ++ [last]) = value.toNat := by
  fun_induction encode value with
  | case1 value h =>
    have hlt : value.toNat < 128 := UInt64.lt_iff_toNat_lt.1 h
    refine ⟨[], value.toUInt8, rfl, nofun, ?_, ?_⟩
    · rw [lt_128_iff, UInt64.toNat_toUInt8]
      omega
    · simp only [List.nil_append, payload, UInt64.toNat_toUInt8]
      omega
  | case2 value h ih =>
    obtain ⟨more, last, heq, hmore, hlast, hpayload⟩ := ih
    refine ⟨(value.toUInt8 ||| 0x80) :: more, last, by rw [heq]; rfl, ?_, hlast, ?_⟩
    · intro b hb
      rcases List.mem_cons.1 hb with rfl | hb
      · exact not_or_128_lt _
      · exact hmore b hb
    · rw [List.cons_append, payload, toNat_or_128, hpayload, toNat_shiftRight_seven,
        UInt64.toNat_toUInt8]
      omega

theorem length_encode_le (h : value.toNat < 2 ^ (7 * (n + 1))) : (encode value).length ≤ n + 1 := by
  induction n generalizing value with
  | zero =>
    have hlt : value < 0x80 := UInt64.lt_iff_toNat_lt.2 h
    rw [encode, if_pos hlt]
    exact Nat.le_refl 1
  | succ n ih =>
    rw [encode]
    split
    · simp
    · rw [List.length_cons]
      refine Nat.succ_le_succ (ih ?_)
      rw [toNat_shiftRight_seven]
      rw [two_pow_seven_mul_succ] at h
      omega

theorem length_encode_le_maxVarintSize (value : UInt64) :
    (encode value).length ≤ maxVarintSize :=
  length_encode_le (n := 9) (Nat.lt_of_lt_of_le value.toNat_lt (by decide))

/-- A varint is read back as the number that was written, whatever follows. -/
theorem decode_encode (value : UInt64) (rest : Bytes) :
    decode (encode value ++ rest) = .ok (value, (encode value).length) := by
  have hlen := length_encode_le_maxVarintSize value
  obtain ⟨more, last, heq, hmore, hlast, hpayload⟩ := encode_shape value
  rw [heq, List.length_append, List.length_singleton] at hlen
  rw [heq, List.append_assoc, List.singleton_append, decode_ended hmore (by omega) hlast, hpayload,
    UInt64.ofNat_toNat, List.length_append, List.length_singleton]

/-! ### Spellings -/

/-- The bytes are a varint of the number, in the form that is written or a longer one. -/
def Spells (bytes : Bytes) (value : UInt64) : Prop :=
  decode bytes = .ok (value, bytes.length)

theorem spells_take {bytes : Bytes} (h : decode bytes = .ok (value, n)) :
    Spells (bytes.take n) value ∧ n ≤ bytes.length := by
  obtain ⟨more, last, rest, rfl, hmore, hlen, hlast, rfl, rfl⟩ := decode_eq_ok h
  refine ⟨?_, by simp⟩
  rw [take_ended, Spells, decode_ended hmore hlen hlast, List.length_append, List.length_singleton]

namespace Spells

variable {bytes : Bytes}

theorem append (h : Spells bytes value) (rest : Bytes) :
    decode (bytes ++ rest) = .ok (value, bytes.length) := by
  obtain ⟨more, last, rest', rfl, hmore, hlen, hlast, rfl, hn⟩ := decode_eq_ok h
  rw [List.append_assoc, List.cons_append, decode_ended hmore hlen hlast, hn]

/-- A spelling is bytes that go on and one that ends, and the number is what they hold. -/
theorem shape (h : Spells bytes value) :
    ∃ more last, bytes = more ++ [last] ∧ (∀ b ∈ more, ¬ b < 0x80) ∧
      more.length < maxVarintSize ∧ last < 0x80 ∧ value = UInt64.ofNat (payload bytes) := by
  obtain ⟨more, last, rest, rfl, hmore, hlen, hlast, rfl, hn⟩ := decode_eq_ok h
  rw [List.length_append, List.length_cons] at hn
  obtain rfl : rest = [] := List.eq_nil_of_length_eq_zero (by omega)
  exact ⟨more, last, rfl, hmore, hlen, hlast, rfl⟩

theorem ne_nil (h : Spells bytes value) : bytes ≠ [] := by
  rintro rfl
  cases h

end Spells

theorem spells_encode (value : UInt64) : Spells (encode value) value := by
  have h := decode_encode value []
  rwa [List.append_nil] at h

/-! ### Lengths -/

theorem log2_or_one (h : n ≠ 0) : (n ||| 1).log2 = n.log2 := by
  have hne : n ||| 1 ≠ 0 := by
    have : n ≤ n ||| 1 := Nat.left_le_or
    omega
  obtain ⟨hle, hlt⟩ := (Nat.log2_eq_iff h).1 rfl
  refine (Nat.log2_eq_iff hne).2 ⟨Nat.le_trans hle Nat.left_le_or, ?_⟩
  exact Nat.or_lt_two_pow hlt (Nat.one_lt_two_pow (Nat.succ_ne_zero _))

theorem bitLength_or_one (h : value.toNat ≠ 0) :
    bitLength (value ||| 1) = value.toNat.log2 + 1 := by
  have hne : value ||| 1 ≠ 0 := by
    intro hzero
    have := congrArg UInt64.toNat hzero
    rw [UInt64.toNat_or] at this
    have hle : value.toNat ≤ value.toNat ||| (1 : UInt64).toNat := Nat.left_le_or
    simp only [UInt64.toNat_zero] at this
    omega
  rw [bitLength, if_neg hne, UInt64.toNat_or]
  exact congrArg (· + 1) (log2_or_one h)

theorem encodedLength_of_lt (h : value.toNat < 128) : encodedLength value = 1 := by
  by_cases hzero : value.toNat = 0
  · have : value = 0 := UInt64.toNat_inj.1 hzero
    subst this
    rfl
  · have hlog : value.toNat.log2 < 7 := (Nat.log2_lt hzero).2 h
    rw [encodedLength, bitLength_or_one hzero]
    omega

/-- Seven bits less take one byte less. -/
theorem encodedLength_of_le (h : 128 ≤ value.toNat) :
    encodedLength value = encodedLength (value >>> 7) + 1 := by
  have hne : value.toNat ≠ 0 := by omega
  have hshift := toNat_shiftRight_seven value
  have hne' : (value >>> 7).toNat ≠ 0 := by omega
  obtain ⟨hle, hlt⟩ := (Nat.log2_eq_iff hne').1 rfl
  have hlog : value.toNat.log2 = (value >>> 7).toNat.log2 + 7 := by
    refine (Nat.log2_eq_iff hne).2 ⟨?_, ?_⟩
    · rw [Nat.pow_add]
      omega
    · rw [Nat.add_right_comm, Nat.pow_add]
      omega
  have hbits : value.toNat.log2 < 64 := (Nat.log2_lt hne).2 value.toNat_lt
  rw [encodedLength, encodedLength, bitLength_or_one hne, bitLength_or_one hne', hlog]
  omega

/-- The length found from the number of bits is the number of bytes. -/
theorem length_encode (value : UInt64) : (encode value).length = encodedLength value := by
  fun_induction encode value with
  | case1 value h => exact (encodedLength_of_lt (UInt64.lt_iff_toNat_lt.1 h)).symm
  | case2 value h ih =>
    have hle : 128 ≤ value.toNat := Nat.le_of_not_lt fun hlt => h (UInt64.lt_iff_toNat_lt.2 hlt)
    rw [List.length_cons, ih, encodedLength_of_le hle]

theorem length_encode32 (value : UInt32) : (encode32 value).length = encodedLength32 value :=
  length_encode _

end ProtoWire.Varint
