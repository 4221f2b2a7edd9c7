import ProtoWire.Proofs.Varint.Encode

/-!
# Canonical varints

A number can be spelled in longer ways than the one that is written, but in no shorter one. Below
ten bytes no payload bit is lost, so there is no other spelling of the same length either.
-/

namespace ProtoWire.Varint

variable {value : UInt64} {bytes : Bytes}

/-- Bytes that go on and one that ends are known from their number and their payload. -/
theorem ended_eq_of_payload {more more' : Bytes} {last last' : UInt8}
    (hlength : more.length = more'.length) (hmore : ∀ b ∈ more, ¬ b < 0x80)
    (hmore' : ∀ b ∈ more', ¬ b < 0x80) (hlast : last < 0x80) (hlast' : last' < 0x80)
    (h : payload (more ++ [last]) = payload (more' ++ [last'])) :
    more ++ [last] = more' ++ [last'] := by
  induction more generalizing more' with
  | nil =>
    obtain rfl := List.eq_nil_of_length_eq_zero hlength.symm
    rw [lt_128_iff] at hlast hlast'
    simp only [List.nil_append, payload] at h
    have hbyte : last = last' := UInt8.toNat_inj.1 (by omega)
    rw [hbyte]
  | cons b more ih =>
    obtain ⟨b', more', rfl⟩ := List.exists_cons_of_length_eq_add_one hlength.symm
    rw [List.forall_mem_cons, lt_128_iff] at hmore hmore'
    simp only [List.cons_append, payload] at h
    have hb := b.toNat_lt
    have hb' := b'.toNat_lt
    -- both bytes go on, so that their low seven bits tell them apart
    have hbyte : b = b' := UInt8.toNat_inj.1 (by omega)
    rw [List.cons_append, List.cons_append, hbyte,
      ih (Nat.succ.inj hlength) hmore.2 hmore'.2 (by omega)]

namespace Spells

theorem length_encode_le (h : Spells bytes value) : (encode value).length ≤ bytes.length := by
  obtain ⟨more, last, hbytes, -, -, -, hvalue⟩ := h.shape
  have hlength : bytes.length = more.length + 1 := by simp [hbytes]
  rw [hlength]
  apply Varint.length_encode_le
  calc value.toNat = payload bytes % 2 ^ 64 := by rw [hvalue, UInt64.toNat_ofNat']
    _ ≤ payload bytes := Nat.mod_le ..
    _ < 2 ^ (7 * (more.length + 1)) := hlength ▸ payload_lt bytes

/-- Nine bytes hold 63 bits, none of which is lost. -/
theorem eq_encode (h : Spells bytes value) (hlength : bytes.length = (encode value).length)
    (hshort : bytes.length < maxVarintSize) : bytes = encode value := by
  obtain ⟨more, last, rfl, hmore, -, hlast, hvalue⟩ := h.shape
  obtain ⟨more', last', hencode, hmore', hlast', hpayload⟩ := encode_shape value
  have hnine : (more ++ [last]).length ≤ 9 := Nat.le_of_lt_succ hshort
  have hbits : payload (more ++ [last]) < 2 ^ 64 :=
    calc payload (more ++ [last]) < 2 ^ (7 * (more ++ [last]).length) := payload_lt _
      _ ≤ 2 ^ 64 := Nat.pow_le_pow_right (by decide) (by omega)
  have hheld : value.toNat = payload (more ++ [last]) := by
    rw [hvalue, UInt64.toNat_ofNat', Nat.mod_eq_of_lt hbits]
  rw [hencode] at hlength ⊢
  simp only [List.length_append, List.length_singleton, Nat.add_right_cancel_iff] at hlength
  exact ended_eq_of_payload hlength hmore hmore' hlast hlast' (hheld.symm.trans hpayload.symm)

end Spells

/-- A number is written in as many bytes as its bits ask for: ten at most, and five if it has 32
bits. They are read back as the number, whatever follows. No shorter bytes are read as the number,
and below ten bytes no others of that length. -/
theorem varint_canonical (value : UInt64) :
    (encode value).length = encodedLength value ∧
    encodedLength value ≤ 10 ∧
    (value.toNat < 2 ^ 32 → encodedLength value ≤ 5) ∧
    (∀ rest, decode (encode value ++ rest) = .ok (value, encodedLength value)) ∧
    (∀ bytes, decode bytes = .ok (value, bytes.length) → encodedLength value ≤ bytes.length) ∧
    (encodedLength value < 10 → ∀ bytes, decode bytes = .ok (value, bytes.length) →
      bytes.length = encodedLength value → bytes = encode value) := by
  rw [← length_encode]
  refine ⟨rfl, length_encode_le_maxVarintSize value, ?_, decode_encode value, ?_, ?_⟩
  · intro h
    exact length_encode_le (Nat.lt_trans h (by decide))
  · intro bytes h
    exact Spells.length_encode_le h
  · intro hshort bytes h hlength
    exact Spells.eq_encode h hlength (hlength ▸ hshort)

/-- The widest number of 32 bits. -/
theorem varint_canonical_widest :
    encodedLength 0xFFFFFFFF ≤ 5 ∧
    ∀ bytes : Bytes, decode bytes = .ok (0xFFFFFFFF, bytes.length) → bytes.length = 5 →
      bytes = [0xFF, 0xFF, 0xFF, 0xFF, 0x0F] := by
  have hlength : encodedLength 0xFFFFFFFF = 5 := by decide +kernel
  obtain ⟨-, -, hfive, -, -, hunique⟩ := varint_canonical 0xFFFFFFFF
  rw [hlength] at hfive hunique ⊢
  refine ⟨hfive (by decide), fun bytes h hbytes => ?_⟩
  exact (hunique (by decide) bytes h hbytes).trans (hunique (by decide) _ (by decide) rfl).symm

end ProtoWire.Varint
