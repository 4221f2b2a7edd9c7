import ProtoWire.Proofs.Varint.Window
import ProtoWire.Wire.Reader

/-!
# Reading a varint

A reader has three ways to read a varint: one byte at once, ten bytes as a window, and fewer byte by
byte. They are indistinguishable.
-/

namespace ProtoWire

namespace Varint

/-- Bytes past the tenth do not count. -/
theorem decode_take (bytes : Bytes) : decode (bytes.take maxVarintSize) = decode bytes := by
  rcases decode_cases bytes with ⟨more, last, rest, rfl, hmore, hlen, hlast⟩ |
    ⟨more, rest, rfl, hmore, hlen⟩ | ⟨hmore, hlen⟩
  · obtain ⟨n, hn⟩ : ∃ n, maxVarintSize - more.length = n + 1 :=
      ⟨maxVarintSize - more.length - 1, by omega⟩
    rw [List.take_append, List.take_of_length_le (by omega), hn, List.take_succ_cons,
      decode_ended hmore hlen hlast, decode_ended hmore hlen hlast]
  · rw [List.take_append, List.take_of_length_le (by omega), decode_overlong hmore hlen,
      decode_overlong hmore hlen]
  · rw [List.take_of_length_le (by omega)]

theorem decode_ofBytes? {bytes : Bytes} {w : Window} (h : Window.ofBytes? bytes = some w) :
    decode w.toList = decode bytes := by
  unfold Window.ofBytes? at h
  split at h
  · cases h
    exact decode_take bytes
  · cases h

/-- A window is never cut off. -/
theorem decode_window_error {w : Window} {e : DecodeError} (h : decode w.toList = .error e) :
    e = .malformedVarint := by
  have hten : w.toList.length = maxVarintSize := by simp
  rcases decode_cases w.toList with ⟨more, last, rest, hw, hmore, hlen, hlast⟩ |
    ⟨more, rest, hw, hmore, hlen⟩ | ⟨hmore, hlen⟩
  · rw [hw, decode_ended hmore hlen hlast] at h
    cases h
  · rw [hw, decode_overlong hmore hlen] at h
    cases h
    rfl
  · omega

theorem decode_single {first : UInt8} (hfirst : first < 0x80) (rest : Bytes) :
    decode (first :: rest) = .ok (first.toUInt64, 1) := by
  have hvalue : UInt64.ofNat (payload [first]) = first.toUInt64 := by
    apply UInt64.toNat_inj.1
    rw [lt_128_iff] at hfirst
    rw [UInt64.toNat_ofNat', UInt8.toNat_toUInt64, payload, payload]
    omega
  have h := @decode_ended [] (List.forall_mem_nil _) (by decide) first hfirst rest
  rw [List.nil_append, List.nil_append, hvalue] at h
  exact h

end Varint

open Varint

/-- Reading a number of 64 bits is decoding the bytes before the limit. A failed read leaves the
reader as it was. -/
theorem readVarint64_eq (r : Reader) :
    readVarint64 r =
      match decode r.remaining with
      | .ok (value, length) => .ok value (r.advance length)
      | .error e => .error e r := by
  simp only [readVarint64]
  cases hw : Window.ofBytes? r.remaining with
  | none => rfl
  | some w =>
    simp only [decodeWindow64_eq, ← decode_ofBytes? hw]
    cases hd : decode w.toList with
    | ok p => rfl
    | error e =>
      rw [decode_window_error hd]
      rfl

/-- Reading a number of 32 bits is decoding the bytes before the limit and keeping the low bits. -/
theorem readVarint32_eq (r : Reader) :
    readVarint32 r =
      match decode r.remaining with
      | .ok (value, length) => .ok value.toUInt32 (r.advance length)
      | .error e => .error e r := by
  unfold readVarint32
  extract_lets bytes windowed
  have hwindowed : windowed = match decode bytes with
      | .ok (value, length) => .ok value.toUInt32 (r.advance length)
      | .error e => .error e r := by
    simp only [windowed]
    cases hw : Window.ofBytes? bytes with
    | none => rfl
    | some w =>
      simp only [decodeWindow32_eq, ← decode_ofBytes? hw]
      cases hd : decode w.toList with
      | ok p => rfl
      | error e =>
        rw [decode_window_error hd]
        rfl
  rw [show r.remaining = bytes from rfl]
  clear_value bytes windowed
  cases bytes with
  | nil => exact hwindowed
  | cons first rest =>
    by_cases hfirst : first < 0x80
    · simp only [hfirst, if_true, decode_single hfirst rest, UInt8.toUInt32_toUInt64]
    · simp only [hfirst, if_false]
      exact hwindowed

/-- On every window the two window decoders find what `decode` finds, or its low 32 bits, and fail
where it does. In every reader, reading succeeds or fails as `decode` does on the bytes before the
limit, takes as many bytes, and leaves the reader as it was on failure. -/
theorem varint_decoders_agree :
    (∀ (w : Window) (value : UInt64) (length : Nat),
      decodeWindow64 w = some (value, length) ↔ decode w.toList = .ok (value, length)) ∧
    (∀ w : Window, decodeWindow64 w = none ↔ decode w.toList = .error .malformedVarint) ∧
    (∀ (w : Window) (low : UInt32) (length : Nat),
      decodeWindow32 w = some (low, length) ↔
        ∃ value, decode w.toList = .ok (value, length) ∧ low.toNat = value.toNat % 2 ^ 32) ∧
    (∀ w : Window, decodeWindow32 w = none ↔ decode w.toList = .error .malformedVarint) ∧
    (∀ r : Reader,
      readVarint64 r =
        match decode r.remaining with
        | .ok (value, length) => .ok value (r.advance length)
        | .error e => .error e r) ∧
    (∀ r : Reader,
      readVarint32 r =
        match decode r.remaining with
        | .ok (value, length) => .ok (UInt32.ofNat (value.toNat % 2 ^ 32)) (r.advance length)
        | .error e => .error e r) := by
  refine ⟨?_, ?_, ?_, ?_, ?_, ?_⟩
  · intro w value length
    rw [decodeWindow64_eq]
    cases hd : decode w.toList <;> simp [Except.toOption]
  · intro w
    rw [decodeWindow64_eq]
    cases hd : decode w.toList with
    | ok p => simp [Except.toOption]
    | error e => simp [Except.toOption, decode_window_error hd]
  · intro w low length
    rw [decodeWindow32_eq]
    cases hd : decode w.toList with
    | error e => simp [low32, Except.toOption]
    | ok p =>
      obtain ⟨value, _⟩ := p
      simp only [low32, Except.toOption, Option.map_some, Option.some.injEq, Prod.mk.injEq,
        Except.ok.injEq]
      constructor
      · rintro ⟨rfl, rfl⟩
        exact ⟨value, ⟨rfl, rfl⟩, UInt64.toNat_toUInt32 value⟩
      · rintro ⟨_, ⟨rfl, rfl⟩, hlow⟩
        exact ⟨UInt32.toNat_inj.1 ((UInt64.toNat_toUInt32 value).trans hlow.symm), rfl⟩
  · intro w
    rw [decodeWindow32_eq]
    cases hd : decode w.toList with
    | ok p => simp [low32, Except.toOption]
    | error e => simp [low32, Except.toOption, decode_window_error hd]
  · exact readVarint64_eq
  · intro r
    rw [readVarint32_eq]
    cases decode r.remaining with
    | error e => rfl
    | ok p =>
      have hlow : p.1.toUInt32 = UInt32.ofNat (p.1.toNat % 2 ^ 32) := by
        apply UInt32.toNat_inj.1
        rw [UInt64.toNat_toUInt32, UInt32.toNat_ofNat', Nat.mod_mod]
      simp only [hlow]

end ProtoWire
