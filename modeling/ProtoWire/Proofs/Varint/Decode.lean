import Mathlib
import ProtoWire.Varint.Decode

/-!
# The number held by a varint

Decoding byte by byte is described by the bytes alone: a run of bytes with continuation bit, and the
first byte without.
-/

namespace ProtoWire.Varint

variable {more : Bytes}

/-- The number whose digits to the base 128, lowest first, are the low seven bits of the bytes. -/
def payload : Bytes → Nat
  | [] => 0
  | b :: bs => b.toNat % 128 + 128 * payload bs

theorem two_pow_seven_mul_succ (n : Nat) : 2 ^ (7 * (n + 1)) = 128 * 2 ^ (7 * n) := by
  rw [Nat.mul_succ, Nat.pow_add, Nat.mul_comm]

/-- One more byte adds its seven bits on top. -/
theorem payload_concat (bs : Bytes) (b : UInt8) :
    payload (bs ++ [b]) = payload bs + b.toNat % 128 * 2 ^ (7 * bs.length) := by
  induction bs with
  | nil => simp [payload]
  | cons a bs ih =>
    simp only [List.cons_append, payload, ih, List.length_cons, two_pow_seven_mul_succ]
    rw [Nat.mul_add, Nat.mul_left_comm, Nat.add_assoc]

theorem payload_lt (bs : Bytes) : payload bs < 2 ^ (7 * bs.length) := by
  induction bs with
  | nil => decide
  | cons b bs ih =>
    simp only [payload, List.length_cons, two_pow_seven_mul_succ]
    omega

/-! ### Bits above the bits at hand -/

/-- Below `2 ^ n` and above do not overlap, so their sum is bitwise. -/
theorem testBit_add_mul_two_pow {low n : Nat} (hlow : low < 2 ^ n) (high i : Nat) :
    (low + high * 2 ^ n).testBit i =
      (low.testBit i ^^ (decide (n ≤ i) && high.testBit (i - n))) := by
  rw [Nat.add_comm, Nat.mul_comm, Nat.testBit_two_pow_mul_add _ hlow]
  by_cases h : i < n
  · have hle : ¬ n ≤ i := by omega
    simp [h, hle]
  · have hle : n ≤ i := by omega
    have hbit : low.testBit i = false :=
      Nat.testBit_lt_two_pow (Nat.lt_of_lt_of_le hlow (Nat.pow_le_pow_right (by decide) hle))
    simp [h, hle, hbit]

theorem ofNat_add_mul_two_pow (w : Nat) {low n : Nat} (hlow : low < 2 ^ n) (high : Nat) :
    BitVec.ofNat w (low + high * 2 ^ n) = BitVec.ofNat w low ^^^ (BitVec.ofNat w high <<< n) := by
  apply BitVec.eq_of_getLsbD_eq
  intro i hi
  simp only [BitVec.getLsbD_ofNat, BitVec.getLsbD_xor, BitVec.getLsbD_shiftLeft,
    testBit_add_mul_two_pow hlow, hi, decide_true, Bool.true_and]
  by_cases h : i < n
  · have hle : ¬ n ≤ i := by omega
    simp [h, hle]
  · have hle : n ≤ i := by omega
    have hlt : i - n < w := by omega
    simp [h, hle, hlt]

theorem lt_128_iff (b : UInt8) : b < 0x80 ↔ b.toNat < 128 :=
  UInt8.lt_iff_toNat_lt

theorem toNat_and_127 (b : UInt8) : (b &&& 0x7F).toNat = b.toNat % 128 := by
  rw [UInt8.toNat_and]
  exact Nat.and_two_pow_sub_one_eq_mod b.toNat 7

/-- One step of the accumulator: the next seven bits go above those of the bytes read. -/
theorem or_shiftLeft_payload {read : Bytes} (hread : read.length < maxVarintSize) (b : UInt8) :
    UInt64.ofNat (payload read) ||| ((b &&& 0x7F).toUInt64 <<< (7 * read.length).toUInt64) =
      UInt64.ofNat (payload (read ++ [b])) := by
  have hshift : ((7 * read.length).toUInt64.toBitVec % 64).toNat = 7 * read.length := by
    have hten : read.length < 10 := hread
    have hlt : 7 * read.length < UInt64.size := by
      simp only [UInt64.size]
      omega
    rw [BitVec.toNat_umod, UInt64.toNat_toBitVec, UInt64.toNat_ofNat_of_lt' hlt]
    exact Nat.mod_eq_of_lt (by simp; omega)
  have hdigit : (b &&& 0x7F).toUInt64.toBitVec = BitVec.ofNat 64 (b.toNat % 128) := by
    apply BitVec.eq_of_toNat_eq
    rw [UInt64.toNat_toBitVec, UInt8.toNat_toUInt64, toNat_and_127, BitVec.toNat_ofNat]
    omega
  apply UInt64.toBitVec_inj.1
  apply BitVec.eq_of_getLsbD_eq
  intro i hi
  rw [UInt64.toBitVec_or, UInt64.toBitVec_shiftLeft, BitVec.shiftLeft_eq', hshift, hdigit,
    UInt64.toBitVec_ofNat', UInt64.toBitVec_ofNat', payload_concat,
    ofNat_add_mul_two_pow 64 (payload_lt read), BitVec.getLsbD_or, BitVec.getLsbD_xor]
  -- the two sides differ only where both bits are set, and the bytes read end before the shift
  have hdisjoint : ((BitVec.ofNat 64 (payload read)).getLsbD i &&
      (BitVec.ofNat 64 (b.toNat % 128) <<< (7 * read.length)).getLsbD i) = false := by
    rw [BitVec.getLsbD_ofNat, BitVec.getLsbD_shiftLeft]
    by_cases h : i < 7 * read.length
    · simp [h]
    · have hbit : (payload read).testBit i = false :=
        Nat.testBit_lt_two_pow
          (Nat.lt_of_lt_of_le (payload_lt read) (Nat.pow_le_pow_right (by decide) (by omega)))
      simp [hbit]
  revert hdisjoint
  cases (BitVec.ofNat 64 (payload read)).getLsbD i <;>
    cases (BitVec.ofNat 64 (b.toNat % 128) <<< (7 * read.length)).getLsbD i <;> decide

/-! ### Reading byte by byte -/

theorem decodeFrom_cons {read : Bytes} (hread : read.length < maxVarintSize) (b : UInt8)
    (rest : Bytes) :
    decodeFrom read.length (UInt64.ofNat (payload read)) (b :: rest) =
      if b < 0x80 then .ok (UInt64.ofNat (payload (read ++ [b])), read.length + 1)
      else decodeFrom (read ++ [b]).length (UInt64.ofNat (payload (read ++ [b]))) rest := by
  simp only [decodeFrom, hread, if_true, or_shiftLeft_payload hread, List.length_append,
    List.length_singleton]

section Continued

variable (hmore : ∀ b ∈ more, ¬ b < 0x80)

include hmore

theorem decodeFrom_append {read : Bytes}
    (hlen : read.length + more.length ≤ maxVarintSize) (rest : Bytes) :
    decodeFrom read.length (UInt64.ofNat (payload read)) (more ++ rest) =
      decodeFrom (read ++ more).length (UInt64.ofNat (payload (read ++ more))) rest := by
  induction more generalizing read with
  | nil => simp
  | cons b more ih =>
    have hb : ¬ b < 0x80 := hmore b (by simp)
    rw [List.length_cons] at hlen
    rw [List.cons_append, decodeFrom_cons (by omega), if_neg hb,
      ih (fun c hc => hmore c (by simp [hc])) (by simp; omega), List.append_assoc,
      List.singleton_append]

theorem decode_append (hlen : more.length ≤ maxVarintSize) (rest : Bytes) :
    decode (more ++ rest) = decodeFrom more.length (UInt64.ofNat (payload more)) rest :=
  @decodeFrom_append more hmore [] (by simpa using hlen) rest

/-- Fewer than ten continued bytes and a last one are a varint, whatever follows. -/
theorem decode_ended (hlen : more.length < maxVarintSize) {last : UInt8} (hlast : last < 0x80)
    (rest : Bytes) :
    decode (more ++ last :: rest) =
      .ok (UInt64.ofNat (payload (more ++ [last])), more.length + 1) := by
  rw [decode_append hmore (by omega), decodeFrom_cons hlen, if_pos hlast]

/-- A varint whose bytes all continue is cut off. -/
theorem decode_cut (hlen : more.length < maxVarintSize) :
    decode more = .error .truncated := by
  have h := decode_append hmore (by omega) []
  rw [List.append_nil] at h
  rw [h, decodeFrom, if_pos hlen]

/-- Ten continued bytes are no varint, whatever follows. -/
theorem decode_overlong (hlen : more.length = maxVarintSize) (rest : Bytes) :
    decode (more ++ rest) = .error .malformedVarint := by
  rw [decode_append hmore (by omega), hlen]
  cases rest with
  | nil => rfl
  | cons b rest => rfl

end Continued

/-- Bytes start with a whole varint, or with ten continued bytes, or they end inside a varint. -/
theorem decode_cases (bytes : Bytes) :
    (∃ more last rest, bytes = more ++ last :: rest ∧ (∀ b ∈ more, ¬ b < 0x80) ∧
        more.length < maxVarintSize ∧ last < 0x80) ∨
      (∃ more rest, bytes = more ++ rest ∧ (∀ b ∈ more, ¬ b < 0x80) ∧
        more.length = maxVarintSize) ∨
      ((∀ b ∈ bytes, ¬ b < 0x80) ∧ bytes.length < maxVarintSize) := by
  obtain ⟨more, rest, hbytes, hmore, hrest⟩ :
      ∃ more rest, bytes = more ++ rest ∧ (∀ b ∈ more, ¬ b < 0x80) ∧
        (rest = [] ∨ ∃ last tail, rest = last :: tail ∧ last < 0x80) := by
    induction bytes with
    | nil => exact ⟨[], [], rfl, by simp, .inl rfl⟩
    | cons b bytes ih =>
      by_cases hb : b < 0x80
      · exact ⟨[], b :: bytes, rfl, by simp, .inr ⟨b, bytes, rfl, hb⟩⟩
      · obtain ⟨more, rest, rfl, hmore, hrest⟩ := ih
        refine ⟨b :: more, rest, rfl, ?_, hrest⟩
        intro c hc
        rcases List.mem_cons.1 hc with rfl | hc
        · exact hb
        · exact hmore c hc
  subst hbytes
  by_cases hlen : more.length < maxVarintSize
  · rcases hrest with rfl | ⟨last, tail, rfl, hlast⟩
    · exact .inr (.inr ⟨by simpa using hmore, by simpa using hlen⟩)
    · exact .inl ⟨more, last, tail, rfl, hmore, hlen, hlast⟩
  · refine .inr (.inl ⟨more.take maxVarintSize, more.drop maxVarintSize ++ rest, ?_, ?_, ?_⟩)
    · rw [← List.append_assoc, List.take_append_drop]
    · exact fun b hb => hmore b (List.mem_of_mem_take hb)
    · rw [List.length_take]
      omega

/-- What is decoded starts with a whole varint. -/
theorem decode_eq_ok {bytes : Bytes} {value : UInt64} {n : Nat}
    (h : decode bytes = .ok (value, n)) :
    ∃ more last rest, bytes = more ++ last :: rest ∧ (∀ b ∈ more, ¬ b < 0x80) ∧
      more.length < maxVarintSize ∧ last < 0x80 ∧
      value = UInt64.ofNat (payload (more ++ [last])) ∧ n = more.length + 1 := by
  rcases decode_cases bytes with ⟨more, last, rest, rfl, hmore, hlen, hlast⟩ |
    ⟨more, rest, rfl, hmore, hlen⟩ | ⟨hmore, hlen⟩
  · rw [decode_ended hmore hlen hlast] at h
    cases h
    exact ⟨more, last, rest, rfl, hmore, hlen, hlast, rfl, rfl⟩
  · rw [decode_overlong hmore hlen] at h
    cases h
  · rw [decode_cut hmore hlen] at h
    cases h

theorem take_ended (more : Bytes) (last : UInt8) (rest : Bytes) :
    (more ++ last :: rest).take (more.length + 1) = more ++ [last] := by
  rw [List.take_length_add_append]
  rfl

end ProtoWire.Varint
