import ProtoWire.Proofs.Varint.Decode

/-!
# Decoding a window

The two window decoders agree with `decode` on every window of ten bytes.

A sign-extended byte is its seven bits, xor a mask of all bits above them if it is continued. So the
accumulator is the payload of the bytes read, xor one mask for each of them that is continued; the
masks decide its sign, and one more xor clears them.
-/

namespace ProtoWire.Varint

variable {read : Bytes} {b : UInt8} {x : Int32}

/-! ### The accumulator -/

theorem signExtend_byte (w : Nat) (b : UInt8) :
    b.toBitVec.signExtend w =
      BitVec.ofNat w (b.toNat % 128) ^^^ (if b < 0x80 then 0#w else BitVec.allOnes w <<< 7) := by
  apply BitVec.eq_of_getLsbD_eq
  intro i hi
  have hbit : ∀ j, b.toBitVec.getLsbD j = b.toNat.testBit j := fun j => rfl
  have hmsb : b.toBitVec.msb = decide (128 ≤ b.toNat) := by
    rw [BitVec.msb_eq_decide]
    rfl
  have hmod : (b.toNat % 128).testBit i = (decide (i < 7) && b.toNat.testBit i) :=
    Nat.testBit_mod_two_pow b.toNat 7 i
  have hseven : b.toNat.testBit 7 = decide (128 ≤ b.toNat) := by
    rw [← hmsb, BitVec.msb_eq_getLsbD_last]
    exact (hbit 7).symm
  have hmask : (if b < 0x80 then 0#w else BitVec.allOnes w <<< 7).getLsbD i =
      (decide (128 ≤ b.toNat) && !decide (i < 7)) := by
    by_cases hb : b < 0x80
    · have hsign := Nat.not_le_of_lt ((lt_128_iff b).1 hb)
      rw [if_pos hb]
      simp [hsign]
    · have hsign := Nat.le_of_not_lt (mt (lt_128_iff b).2 hb)
      rw [if_neg hb]
      simp [hsign, hi]
  rw [BitVec.getLsbD_signExtend, BitVec.getLsbD_xor, BitVec.getLsbD_ofNat, hmod, hmsb, hbit, hmask]
  -- below bit 7 the byte decides, at bit 7 its continuation bit, above it the sign
  rcases Nat.lt_trichotomy i 7 with hlt | rfl | hgt
  · simp [hi, hlt, Nat.lt_succ_of_lt hlt]
  · simp [hi, hseven]
  · simp [hi, Nat.not_lt_of_lt hgt, Nat.not_lt.2 hgt]

/-- The accumulator `x` holds the payload of the bytes read, xor a mask. -/
def Gathered {w : Nat} (x : BitVec w) (read : Bytes) (mask : BitVec w) : Prop :=
  x = BitVec.ofNat w (payload read) ^^^ mask

namespace Gathered

variable {w : Nat} {x mask : BitVec w}

theorem nil : Gathered (0#w) [] (0#w) := by
  simp [Gathered, payload]

/-- A last byte leaves the mask as it is. -/
theorem last (h : Gathered x read mask) (hb : b < 0x80) :
    Gathered (x ^^^ (b.toBitVec.signExtend w <<< (7 * read.length))) (read ++ [b]) mask := by
  unfold Gathered at h ⊢
  rw [h, signExtend_byte, if_pos hb, BitVec.xor_zero, payload_concat,
    ofNat_add_mul_two_pow w (payload_lt read)]
  ac_rfl

/-- A continued byte adds all bits above its own to the mask. -/
theorem more (h : Gathered x read mask) (hb : ¬ b < 0x80) :
    Gathered (x ^^^ (b.toBitVec.signExtend w <<< (7 * read.length))) (read ++ [b])
      (mask ^^^ BitVec.allOnes w <<< (7 * (read.length + 1))) := by
  unfold Gathered at h ⊢
  rw [h, signExtend_byte, if_neg hb, payload_concat, ofNat_add_mul_two_pow w (payload_lt read),
    BitVec.shiftLeft_xor_distrib, ← BitVec.shiftLeft_add, Nat.mul_succ, Nat.add_comm 7]
  ac_rfl

/-- As long as there is room above the payload, the sign is that of the mask. -/
theorem msb_eq (h : Gathered x read mask) (hw : 7 * read.length < w) : x.msb = mask.msb := by
  have hlt : payload read < 2 ^ (w - 1) :=
    Nat.lt_of_lt_of_le (payload_lt read) (Nat.pow_le_pow_right (by decide) (by omega))
  have hpow : 2 ^ w = 2 * 2 ^ (w - 1) := by
    rw [← Nat.pow_succ']
    congr 1
    omega
  have hzero : (BitVec.ofNat w (payload read)).msb = false := by
    rw [BitVec.msb_eq_false_iff_two_mul_lt, BitVec.toNat_ofNat, Nat.mod_eq_of_lt (by omega)]
    omega
  unfold Gathered at h
  rw [h, BitVec.msb_xor, hzero, Bool.false_xor]

theorem xor_mask (h : Gathered x read mask) : x ^^^ mask = BitVec.ofNat w (payload read) := by
  unfold Gathered at h
  rw [h, BitVec.xor_assoc, BitVec.xor_self, BitVec.xor_zero]

theorem xor_part {part rest : BitVec w} (h : Gathered x read (part ^^^ rest)) :
    Gathered (x ^^^ part) read rest := by
  unfold Gathered at h ⊢
  rw [h, BitVec.xor_assoc, BitVec.xor_comm part, BitVec.xor_assoc, BitVec.xor_self, BitVec.xor_zero]

/-- Widening keeps the payload and widens the mask. -/
theorem signExtend (h : Gathered x read mask) (hw : 7 * read.length < w) {v : Nat} (hv : w ≤ v) :
    Gathered (x.signExtend v) read (mask.signExtend v) := by
  have hlt : payload read < 2 ^ w :=
    Nat.lt_of_lt_of_le (payload_lt read) (Nat.pow_le_pow_right (by decide) (by omega))
  have hle : 2 ^ w ≤ 2 ^ v := Nat.pow_le_pow_right (by decide) hv
  have hmsb : (BitVec.ofNat w (payload read)).msb = false := by
    have h0 : Gathered (BitVec.ofNat w (payload read)) read 0#w := by simp [Gathered]
    simpa using h0.msb_eq hw
  have hext : (BitVec.ofNat w (payload read)).signExtend v = BitVec.ofNat v (payload read) := by
    rw [BitVec.signExtend_eq_setWidth_of_msb_false hmsb]
    apply BitVec.eq_of_toNat_eq
    rw [BitVec.toNat_setWidth, BitVec.toNat_ofNat, BitVec.toNat_ofNat, Nat.mod_eq_of_lt hlt]
  unfold Gathered at h ⊢
  rw [h, BitVec.signExtend_xor, hext]

theorem first_last (hb : b < 0x80) : Gathered (b.toBitVec.signExtend w) [b] 0#w := by
  simpa using (nil (w := w)).last hb

theorem first_more (hb : ¬ b < 0x80) :
    Gathered (b.toBitVec.signExtend w) [b] (BitVec.allOnes w <<< 7) := by
  simpa using (nil (w := w)).more hb

end Gathered

/-! ### Words of 32 bits -/

namespace Gathered

section

variable {x' s : Int32} {mask : BitVec 32} (n : Nat) (hn : read.length = n)
  (h : Gathered x.toBitVec read mask)

include hn h

theorem last32 (hb : b < 0x80) (hx : x' = x ^^^ (b.toInt8.toInt32 <<< s))
    (hs : (s.toBitVec.smod 32).toNat = 7 * n) :
    Gathered x'.toBitVec (read ++ [b]) mask := by
  rw [hx, Int32.toBitVec_xor, Int32.toBitVec_shiftLeft, BitVec.shiftLeft_eq', hs, ← hn]
  exact h.last hb

theorem more32 (hb : ¬ b < 0x80) (hx : x' = x ^^^ (b.toInt8.toInt32 <<< s))
    (hs : (s.toBitVec.smod 32).toNat = 7 * n)
    (mask' : Int32) (hmask : mask ^^^ BitVec.allOnes 32 <<< (7 * (n + 1)) = mask'.toBitVec) :
    Gathered x'.toBitVec (read ++ [b]) mask'.toBitVec := by
  rw [hx, Int32.toBitVec_xor, Int32.toBitVec_shiftLeft, BitVec.shiftLeft_eq', hs, ← hmask, ← hn]
  exact h.more hb

theorem zero_le32 (hw : 7 * n < 32) (hmask : mask.msb = false) : 0 ≤ x := by
  rw [← Int32.not_lt, Int32.lt_iff_toBitVec_slt]
  change ¬ x.toBitVec.slt 0#32
  rw [BitVec.slt_zero_eq_msb, h.msb_eq (by omega), hmask]
  decide

theorem lt_zero32 (hw : 7 * n < 32) (hmask : mask.msb = true) : x < 0 := by
  rw [Int32.lt_iff_toBitVec_slt]
  change x.toBitVec.slt 0#32
  rw [BitVec.slt_zero_eq_msb, h.msb_eq (by omega), hmask]

end

theorem toUInt32_xor {m : Int32} (h : Gathered x.toBitVec read m.toBitVec) :
    (x ^^^ m).toUInt32 = UInt32.ofNat (payload read) := by
  apply UInt32.toBitVec_inj.1
  exact h.xor_mask

end Gathered

/-- Bytes past the fifth do not reach the low 32 bits. -/
theorem ofNat_payload_append (hread : 5 ≤ read.length) (more : Bytes) :
    UInt32.ofNat (payload (read ++ more)) = UInt32.ofNat (payload read) := by
  induction more generalizing read with
  | nil => rw [List.append_nil]
  | cons b more ih =>
    have hzero : BitVec.ofNat 32 (b.toNat % 128) <<< (7 * read.length) = 0#32 :=
      BitVec.shiftLeft_eq_zero (by omega)
    have hstep : UInt32.ofNat (payload (read ++ [b])) = UInt32.ofNat (payload read) := by
      apply UInt32.toBitVec_inj.1
      rw [UInt32.toBitVec_ofNat', UInt32.toBitVec_ofNat', payload_concat,
        ofNat_add_mul_two_pow 32 (payload_lt read), hzero, BitVec.xor_zero]
    rw [← List.singleton_append, ← List.append_assoc, ih (by simp; omega), hstep]

theorem toList_window (w : Window) :
    w.toList =
      [w.get 0, w.get 1, w.get 2, w.get 3, w.get 4, w.get 5, w.get 6, w.get 7, w.get 8, w.get 9] := by
  rcases w with ⟨⟨bytes⟩, hbytes⟩
  match bytes, hbytes with
  | [b₀, b₁, b₂, b₃, b₄, b₅, b₆, b₇, b₈, b₉], _ => rfl

/-- The low 32 bits of a decoded number, with the number of bytes. -/
def low32 (decoded : Except DecodeError (UInt64 × Nat)) : Option (UInt32 × Nat) :=
  decoded.toOption.map fun (value, length) => (value.toUInt32, length)

theorem low32_ended {more : Bytes} (n : Nat) (hn : more.length = n) (hlen : n < maxVarintSize)
    (hmore : ∀ b ∈ more, ¬ b < 0x80) {last : UInt8} (hlast : last < 0x80) (rest : Bytes) :
    low32 (decode (more ++ last :: rest)) =
      some (UInt32.ofNat (payload (more ++ [last])), n + 1) := by
  rw [decode_ended hmore (by omega) hlast, hn]
  simp [low32, Except.toOption]

theorem continued_concat {more : Bytes} (hmore : ∀ b ∈ more, ¬ b < 0x80) (hb : ¬ b < 0x80) :
    ∀ c ∈ more ++ [b], ¬ c < 0x80 :=
  List.forall_mem_append.2 ⟨hmore, List.forall_mem_singleton.2 hb⟩

/-- Past the fifth byte only the end of the varint matters. -/
theorem low32_findIdx {more : Bytes} (hmore : ∀ b ∈ more, ¬ b < 0x80) (hfive : 5 ≤ more.length)
    {rest : Bytes} (hlen : more.length + rest.length = maxVarintSize) :
    low32 (decode (more ++ rest)) =
      (rest.findIdx? (· < 0x80)).map fun i =>
        (UInt32.ofNat (payload more), more.length + i + 1) := by
  induction rest generalizing more with
  | nil =>
    rw [decode_overlong hmore (by simpa using hlen)]
    rfl
  | cons b rest ih =>
    rw [List.length_cons] at hlen
    by_cases hb : b < 0x80
    · rw [low32_ended more.length rfl (by omega) hmore hb, ofNat_payload_append hfive]
      simp [List.findIdx?_cons, hb]
    · rw [← List.singleton_append, ← List.append_assoc,
        ih (continued_concat hmore hb) (by simp; omega) (by simp; omega),
        ofNat_payload_append hfive, List.singleton_append, List.findIdx?_cons]
      simp [hb, Function.comp_def]
      congr 1
      funext i
      simp only [Prod.mk.injEq, true_and]
      omega

/-- The first four bytes are gathered in 32 bits. The varint ends with one of them, and the sign of the
accumulator told so after that byte and not before, or all four are continued. -/
theorem head_cases (w : Window) (x₀ x₁ x₂ x₃ : Int32) (e₀ : x₀ = w.signed32 0)
    (e₁ : x₁ = x₀ ^^^ (w.signed32 1 <<< 7)) (e₂ : x₂ = x₁ ^^^ (w.signed32 2 <<< 14))
    (e₃ : x₃ = x₂ ^^^ (w.signed32 3 <<< 21)) :
    (w.get 0 < 0x80 ∧ 0 ≤ x₀ ∧ Gathered x₀.toBitVec [w.get 0] (0 : Int32).toBitVec) ∨
    x₀ < 0 ∧ (∀ b ∈ [w.get 0], ¬ b < 0x80) ∧
    ((w.get 1 < 0x80 ∧ x₁ < 0 ∧ Gathered x₁.toBitVec [w.get 0, w.get 1] (mask32 7).toBitVec) ∨
    0 ≤ x₁ ∧ (∀ b ∈ [w.get 0, w.get 1], ¬ b < 0x80) ∧
    ((w.get 2 < 0x80 ∧ 0 ≤ x₂ ∧ Gathered x₂.toBitVec [w.get 0, w.get 1, w.get 2]
      (mask32 7 ^^^ mask32 14).toBitVec) ∨
    x₂ < 0 ∧ (∀ b ∈ [w.get 0, w.get 1, w.get 2], ¬ b < 0x80) ∧
    ((w.get 3 < 0x80 ∧ x₃ < 0 ∧ Gathered x₃.toBitVec [w.get 0, w.get 1, w.get 2, w.get 3]
      (mask32 7 ^^^ mask32 14 ^^^ mask32 21).toBitVec) ∨
    0 ≤ x₃ ∧ (∀ b ∈ [w.get 0, w.get 1, w.get 2, w.get 3], ¬ b < 0x80) ∧
    Gathered x₃.toBitVec [w.get 0, w.get 1, w.get 2, w.get 3]
      (mask32 7 ^^^ mask32 14 ^^^ mask32 21 ^^^ mask32 28).toBitVec))) := by
  by_cases hb₀ : w.get 0 < 0x80
  · have h₀ : Gathered x₀.toBitVec [w.get 0] (0 : Int32).toBitVec := e₀ ▸ .first_last hb₀
    exact .inl ⟨hb₀, h₀.zero_le32 1 rfl (by decide) (by decide), h₀⟩
  have c₀ : ∀ b ∈ [w.get 0], ¬ b < 0x80 := List.forall_mem_singleton.2 hb₀
  have h₀ : Gathered x₀.toBitVec [w.get 0] (mask32 7).toBitVec := e₀ ▸ .first_more hb₀
  refine .inr ⟨h₀.lt_zero32 1 rfl (by decide) (by decide), c₀, ?_⟩
  by_cases hb₁ : w.get 1 < 0x80
  · have h₁ := h₀.last32 1 rfl hb₁ e₁ (by decide)
    exact .inl ⟨hb₁, h₁.lt_zero32 2 rfl (by decide) (by decide), h₁⟩
  have c₁ := continued_concat c₀ hb₁
  have h₁ := h₀.more32 1 rfl hb₁ e₁ (by decide) (mask32 7 ^^^ mask32 14) (by decide)
  refine .inr ⟨h₁.zero_le32 2 rfl (by decide) (by decide), c₁, ?_⟩
  by_cases hb₂ : w.get 2 < 0x80
  · have h₂ := h₁.last32 2 rfl hb₂ e₂ (by decide)
    exact .inl ⟨hb₂, h₂.zero_le32 3 rfl (by decide) (by decide), h₂⟩
  have c₂ := continued_concat c₁ hb₂
  have h₂ := h₁.more32 2 rfl hb₂ e₂ (by decide) (mask32 7 ^^^ mask32 14 ^^^ mask32 21) (by decide)
  refine .inr ⟨h₂.lt_zero32 3 rfl (by decide) (by decide), c₂, ?_⟩
  by_cases hb₃ : w.get 3 < 0x80
  · have h₃ := h₂.last32 3 rfl hb₃ e₃ (by decide)
    exact .inl ⟨hb₃, h₃.lt_zero32 4 rfl (by decide) (by decide), h₃⟩
  have h₃ := h₂.more32 3 rfl hb₃ e₃ (by decide)
    (mask32 7 ^^^ mask32 14 ^^^ mask32 21 ^^^ mask32 28) (by decide)
  exact .inr ⟨h₃.zero_le32 4 rfl (by decide) (by decide), continued_concat c₂ hb₃, h₃⟩

/-- The decoder of 32-bit numbers finds the low bits of what `decode` finds. -/
theorem decodeWindow32_eq (w : Window) : decodeWindow32 w = low32 (decode w.toList) := by
  unfold decodeWindow32
  extract_lets x₀ x₁ x₂ x₃ y x₄ x₅
  have e₄ : x₄ = x₃ ^^^ ((w.get 4).toInt8.toInt32 <<< 28) := rfl
  have e₅ : x₅ = x₄ ^^^ (mask32 7 ^^^ mask32 14 ^^^ mask32 21 ^^^ mask32 28) := rfl
  have hhead := head_cases w x₀ x₁ x₂ x₃ rfl rfl rfl rfl
  clear_value x₅ x₄ x₃ x₂ x₁ x₀
  rw [toList_window]
  rcases hhead with ⟨hb, hx₀, h⟩ | ⟨hx₀, c₀, ⟨hb, hx₁, h⟩ | ⟨hx₁, c₁, ⟨hb, hx₂, h⟩ |
    ⟨hx₂, c₂, ⟨hb, hx₃, h⟩ | ⟨hx₃, c₃, h⟩⟩⟩⟩
  · rw [if_pos hx₀, ← Int32.xor_zero (a := x₀), h.toUInt32_xor]
    exact (@low32_ended [] 0 rfl (by decide) (List.forall_mem_nil _) _ hb _).symm
  · rw [if_neg (Int32.not_le.2 hx₀), if_pos hx₁, h.toUInt32_xor]
    exact (low32_ended 1 rfl (by decide) c₀ hb _).symm
  · rw [if_neg (Int32.not_le.2 hx₀), if_neg (Int32.not_lt.2 hx₁), if_pos hx₂, Int32.xor_assoc,
      h.toUInt32_xor]
    exact (low32_ended 2 rfl (by decide) c₁ hb _).symm
  · rw [if_neg (Int32.not_le.2 hx₀), if_neg (Int32.not_lt.2 hx₁), if_neg (Int32.not_le.2 hx₂),
      if_pos hx₃, Int32.xor_assoc, Int32.xor_assoc, ← Int32.xor_assoc (mask32 7), h.toUInt32_xor]
    exact (low32_ended 3 rfl (by decide) c₂ hb _).symm
  rw [if_neg (Int32.not_le.2 hx₀), if_neg (Int32.not_lt.2 hx₁), if_neg (Int32.not_le.2 hx₂),
    if_neg (Int32.not_lt.2 hx₃)]
  -- the fifth byte overflows the word, so its continuation bit is looked at on its own
  by_cases hb : w.get 4 < 0x80
  · have hy : Gathered y.toBitVec [w.get 4] 0#32 := .first_last hb
    have h₄ := h.last32 4 rfl hb e₄ (by decide)
    rw [if_pos (hy.zero_le32 1 rfl (by decide) (by decide)), e₅, h₄.toUInt32_xor]
    exact (low32_ended 4 rfl (by decide) c₃ hb _).symm
  · have hy : Gathered y.toBitVec [w.get 4] (mask32 7).toBitVec := .first_more hb
    have h₄ := h.more32 4 rfl hb e₄ (by decide)
      (mask32 7 ^^^ mask32 14 ^^^ mask32 21 ^^^ mask32 28) (by decide)
    rw [if_neg (Int32.not_le.2 (hy.lt_zero32 1 rfl (by decide) (by decide))), e₅, h₄.toUInt32_xor,
      endFrom, toList_window, Option.map_map]
    exact (low32_findIdx (continued_concat c₃ hb) (Nat.le_refl 5) rfl).symm

/-! ### Words of 64 bits -/

namespace Gathered

/-- A word of 32 bits that holds up to four bytes is widened without loss. -/
theorem toUInt64_xor32 {m : Int32} (n : Nat) (hn : read.length = n)
    (h : Gathered x.toBitVec read m.toBitVec) (hw : 7 * n < 32) :
    (x ^^^ m).toInt64.toUInt64 = UInt64.ofNat (payload read) := by
  have hclear : Gathered (x.toBitVec ^^^ m.toBitVec) read 0#32 := by
    rw [h.xor_mask, Gathered, BitVec.xor_zero]
  have hwide := (hclear.signExtend (by omega) (show 32 ≤ 64 by decide)).xor_mask
  apply UInt64.toBitVec_inj.1
  rwa [show (0#32).signExtend 64 = 0#64 by decide, BitVec.xor_zero] at hwide

section

variable {x x' s : Int64} {mask : BitVec 64} (n : Nat) (hn : read.length = n)
  (h : Gathered x.toBitVec read mask)

include hn h

theorem last64 (hb : b < 0x80) (hx : x' = x ^^^ (b.toInt8.toInt64 <<< s))
    (hs : (s.toBitVec.smod 64).toNat = 7 * n) :
    Gathered x'.toBitVec (read ++ [b]) mask := by
  rw [hx, Int64.toBitVec_xor, Int64.toBitVec_shiftLeft, BitVec.shiftLeft_eq', hs, ← hn]
  exact h.last hb

theorem more64 (hb : ¬ b < 0x80) (hx : x' = x ^^^ (b.toInt8.toInt64 <<< s))
    (hs : (s.toBitVec.smod 64).toNat = 7 * n)
    (mask' : Int64) (hmask : mask ^^^ BitVec.allOnes 64 <<< (7 * (n + 1)) = mask'.toBitVec) :
    Gathered x'.toBitVec (read ++ [b]) mask'.toBitVec := by
  rw [hx, Int64.toBitVec_xor, Int64.toBitVec_shiftLeft, BitVec.shiftLeft_eq', hs, ← hmask, ← hn]
  exact h.more hb

theorem zero_le64 (hw : 7 * n < 64) (hmask : mask.msb = false) : 0 ≤ x := by
  rw [← Int64.not_lt, Int64.lt_iff_toBitVec_slt]
  change ¬ x.toBitVec.slt 0#64
  rw [BitVec.slt_zero_eq_msb, h.msb_eq (by omega), hmask]
  decide

theorem lt_zero64 (hw : 7 * n < 64) (hmask : mask.msb = true) : x < 0 := by
  rw [Int64.lt_iff_toBitVec_slt]
  change x.toBitVec.slt 0#64
  rw [BitVec.slt_zero_eq_msb, h.msb_eq (by omega), hmask]

end

theorem toUInt64_xor {x m : Int64} (h : Gathered x.toBitVec read m.toBitVec) :
    (x ^^^ m).toUInt64 = UInt64.ofNat (payload read) := by
  apply UInt64.toBitVec_inj.1
  exact h.xor_mask

/-- After nine continued bytes the top bit is a mask, and the tenth byte supplies the real one. -/
theorem tenth {x : Int64} (hread : read.length = 9)
    (h : Gathered x.toBitVec read (mask64 63).toBitVec) (b : UInt8) :
    (x.toUInt64 &&& ~~~((1 : UInt64) <<< 63)) ||| ((b &&& 1).toUInt64 <<< 63) =
      UInt64.ofNat (payload (read ++ [b])) := by
  have hlt : payload read < 2 ^ (7 * read.length) := payload_lt read
  have hones : ∀ i < 64, (mask64 63).toBitVec.getLsbD i = decide (i = 63) := by decide
  have hshift : ∀ v : UInt64, (v <<< 63).toBitVec = v.toBitVec <<< 63 := fun v => rfl
  have hbit : b.toBitVec[0] = decide (b.toNat % 2 = 1) := by
    rw [← Nat.testBit_zero]
    rfl
  apply UInt64.toBitVec_inj.1
  apply BitVec.eq_of_getLsbD_eq
  intro i hi
  rw [UInt64.toBitVec_ofNat', payload_concat, ofNat_add_mul_two_pow 64 hlt, hread]
  unfold Gathered at h
  simp only [UInt64.toBitVec_or, UInt64.toBitVec_and, UInt64.toBitVec_not, Int64.toBitVec_toUInt64,
    h, hshift, BitVec.getLsbD_or, BitVec.getLsbD_and, BitVec.getLsbD_not, BitVec.getLsbD_xor,
    BitVec.getLsbD_shiftLeft, BitVec.getLsbD_ofNat, hones i hi, hi, decide_true,
    Bool.true_and]
  by_cases htop : i = 63
  · subst htop
    have hzero : (payload read).testBit 63 = false := by
      apply Nat.testBit_lt_two_pow
      simpa [hread] using hlt
    simp [hbit, hzero]
  · have hlow : i < 63 := by omega
    simp [htop, hlow]

end Gathered

/-- The number of bytes `decode` took, with the number, for a window whose varint ends. -/
theorem toOption_ended {more : Bytes} (n : Nat) (hn : more.length = n) (hlen : n < maxVarintSize)
    (hmore : ∀ b ∈ more, ¬ b < 0x80) {last : UInt8} (hlast : last < 0x80) (rest : Bytes) :
    (decode (more ++ last :: rest)).toOption =
      some (UInt64.ofNat (payload (more ++ [last])), n + 1) := by
  rw [decode_ended hmore (by omega) hlast, hn]
  rfl

/-- The decoder of 64-bit numbers finds what `decode` finds. -/
theorem decodeWindow64_eq (w : Window) : decodeWindow64 w = (decode w.toList).toOption := by
  unfold decodeWindow64
  extract_lets y₀ y₁ y₂ y₃ x₄ m₄ x₅ m₅ x₆ m₆ x₇ m₇ x₈ x₉ last
  have e₄ : x₄ = y₃.toInt64 ^^^ ((w.get 4).toInt8.toInt64 <<< 28) := rfl
  have e₅ : x₅ = x₄ ^^^ ((w.get 5).toInt8.toInt64 <<< 35) := rfl
  have e₆ : x₆ = x₅ ^^^ ((w.get 6).toInt8.toInt64 <<< 42) := rfl
  have e₇ : x₇ = x₆ ^^^ ((w.get 7).toInt8.toInt64 <<< 49) := rfl
  have e₈ : x₈ = x₇ ^^^ ((w.get 8).toInt8.toInt64 <<< 56) := rfl
  have e₉ : x₉ = x₈ ^^^ m₇ ^^^ mask64 56 := rfl
  have hhead := head_cases w y₀ y₁ y₂ y₃ rfl rfl rfl rfl
  clear_value x₉ x₈ x₇ x₆ x₅ x₄ y₃ y₂ y₁ y₀
  rw [toList_window]
  rcases hhead with ⟨hb, hx₀, h⟩ | ⟨hx₀, c₀, ⟨hb, hx₁, h⟩ | ⟨hx₁, c₁, ⟨hb, hx₂, h⟩ |
    ⟨hx₂, c₂, ⟨hb, hx₃, h⟩ | ⟨hx₃, c₃, h⟩⟩⟩⟩
  · rw [if_pos hx₀, ← Int32.xor_zero (a := y₀), h.toUInt64_xor32 1 rfl (by decide)]
    exact (@toOption_ended [] 0 rfl (by decide) (List.forall_mem_nil _) _ hb _).symm
  · rw [if_neg (Int32.not_le.2 hx₀), if_pos hx₁, h.toUInt64_xor32 2 rfl (by decide)]
    exact (toOption_ended 1 rfl (by decide) c₀ hb _).symm
  · rw [if_neg (Int32.not_le.2 hx₀), if_neg (Int32.not_lt.2 hx₁), if_pos hx₂, Int32.xor_assoc,
      h.toUInt64_xor32 3 rfl (by decide)]
    exact (toOption_ended 2 rfl (by decide) c₁ hb _).symm
  · rw [if_neg (Int32.not_le.2 hx₀), if_neg (Int32.not_lt.2 hx₁), if_neg (Int32.not_le.2 hx₂),
      if_pos hx₃, Int32.xor_assoc, Int32.xor_assoc, ← Int32.xor_assoc (mask32 7),
      h.toUInt64_xor32 4 rfl (by decide)]
    exact (toOption_ended 3 rfl (by decide) c₂ hb _).symm
  rw [if_neg (Int32.not_le.2 hx₀), if_neg (Int32.not_lt.2 hx₁), if_neg (Int32.not_le.2 hx₂),
    if_neg (Int32.not_lt.2 hx₃)]
  have h₃ : Gathered y₃.toInt64.toBitVec [w.get 0, w.get 1, w.get 2, w.get 3] m₄.toBitVec :=
    h.signExtend (show 7 * 4 < 32 by decide) (by decide)
  clear h hx₀ hx₁ hx₂ hx₃
  by_cases hb₄ : w.get 4 < 0x80
  · have h₄ := h₃.last64 4 rfl hb₄ e₄ (by decide)
    rw [if_pos (h₄.zero_le64 5 rfl (by decide) (by decide)), h₄.toUInt64_xor]
    exact (toOption_ended 4 rfl (by decide) c₃ hb₄ _).symm
  have c₄ := continued_concat c₃ hb₄
  have h₄ := h₃.more64 4 rfl hb₄ e₄ (by decide) m₅ (by decide)
  rw [if_neg (Int64.not_le.2 (h₄.lt_zero64 5 rfl (by decide) (by decide)))]
  by_cases hb₅ : w.get 5 < 0x80
  · have h₅ := h₄.last64 5 rfl hb₅ e₅ (by decide)
    rw [if_pos (h₅.lt_zero64 6 rfl (by decide) (by decide)), h₅.toUInt64_xor]
    exact (toOption_ended 5 rfl (by decide) c₄ hb₅ _).symm
  have c₅ := continued_concat c₄ hb₅
  have h₅ := h₄.more64 5 rfl hb₅ e₅ (by decide) m₆ (by decide)
  rw [if_neg (Int64.not_lt.2 (h₅.zero_le64 6 rfl (by decide) (by decide)))]
  by_cases hb₆ : w.get 6 < 0x80
  · have h₆ := h₅.last64 6 rfl hb₆ e₆ (by decide)
    rw [if_pos (h₆.zero_le64 7 rfl (by decide) (by decide)), h₆.toUInt64_xor]
    exact (toOption_ended 6 rfl (by decide) c₅ hb₆ _).symm
  have c₆ := continued_concat c₅ hb₆
  have h₆ := h₅.more64 6 rfl hb₆ e₆ (by decide) m₇ (by decide)
  rw [if_neg (Int64.not_le.2 (h₆.lt_zero64 7 rfl (by decide) (by decide)))]
  by_cases hb₇ : w.get 7 < 0x80
  · have h₇ := h₆.last64 7 rfl hb₇ e₇ (by decide)
    rw [if_pos (h₇.lt_zero64 8 rfl (by decide) (by decide)), h₇.toUInt64_xor]
    exact (toOption_ended 7 rfl (by decide) c₆ hb₇ _).symm
  have c₇ := continued_concat c₆ hb₇
  have h₇ := h₆.more64 7 rfl hb₇ e₇ (by decide) (m₇ ^^^ mask64 56) (by decide)
  rw [if_neg (Int64.not_lt.2 (h₇.zero_le64 8 rfl (by decide) (by decide)))]
  -- the masks are cleared before the sign is looked at, so it is the ninth byte's continuation bit
  rw [Int64.xor_assoc] at e₉
  by_cases hb₈ : w.get 8 < 0x80
  · have h₈ := h₇.last64 8 rfl hb₈ e₈ (by decide)
    have h₉ := (show Gathered x₈.toBitVec _ ((m₇ ^^^ mask64 56).toBitVec ^^^ 0#64) by
      rwa [BitVec.xor_zero]).xor_part
    have hx₉ : 0 ≤ x₉ := by
      rw [e₉]
      exact h₉.zero_le64 9 rfl (by decide) (by decide)
    rw [if_pos hx₉, e₉, h₈.toUInt64_xor]
    exact (toOption_ended 8 rfl (by decide) c₇ hb₈ _).symm
  have c₈ := continued_concat c₇ hb₈
  have h₈ := h₇.more64 8 rfl hb₈ e₈ (by decide) (m₇ ^^^ mask64 56 ^^^ mask64 63) (by decide)
  have h₉ := h₈.xor_part
  change Gathered (x₈ ^^^ (m₇ ^^^ mask64 56)).toBitVec _ (mask64 63).toBitVec at h₉
  rw [← e₉] at h₉
  rw [if_neg (Int64.not_le.2 (h₉.lt_zero64 9 rfl (by decide) (by decide)))]
  by_cases hb₉ : w.get 9 < 0x80
  · rw [if_neg (UInt8.not_le.2 hb₉), h₉.tenth rfl]
    exact (toOption_ended 9 rfl (by decide) c₈ hb₉ _).symm
  · rw [if_pos (UInt8.not_lt.1 hb₉)]
    have hten := decode_overlong (continued_concat c₈ hb₉) rfl []
    exact (congrArg Except.toOption hten).symm

end ProtoWire.Varint
