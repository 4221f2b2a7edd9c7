import Mathlib
import ProtoWire.Wire.Tag

/-!
# The two parts of a tag

A tag is a number from which both its parts are read back.
-/

namespace ProtoWire

theorem WireType.toNat_raw_lt (t : WireType) : t.raw.toNat < 8 := by
  cases t <;> decide

theorem WireType.raw_of_ofRaw {value : UInt8} {t : WireType} (h : WireType.ofRaw value = .ok t) :
    t.raw = value := by
  unfold WireType.ofRaw at h
  grind [WireType.raw]

/-- The number of a tag: eight for each step of the field number, plus the wire type. -/
theorem Tag.toNat_make (number : UInt32) (t : WireType) :
    (Tag.make number t).toNat = 8 * (number.toNat % 2 ^ 29) + t.raw.toNat := by
  have hshift : (number <<< 3).toNat = 2 ^ 3 * (number.toNat % 2 ^ 29) := by
    rw [UInt32.toNat_shiftLeft]
    simp [Nat.shiftLeft_eq]
    omega
  rw [Tag.make, UInt32.toNat_or, hshift, UInt8.toNat_toUInt32,
    ← Nat.two_pow_add_eq_or_of_lt t.toNat_raw_lt]

theorem Tag.wireType_make (number : UInt32) (t : WireType) :
    Tag.wireType (Tag.make number t) = .ok t := by
  have hraw : (Tag.make number t &&& 7).toUInt8 = t.raw := by
    have hlt := t.toNat_raw_lt
    refine UInt8.toNat_inj.1 ?_
    rw [UInt32.toNat_toUInt8, UInt32.toNat_and, show (7 : UInt32).toNat = 2 ^ 3 - 1 from rfl,
      Nat.and_two_pow_sub_one_eq_mod, Tag.toNat_make]
    omega
  rw [Tag.wireType, hraw, WireType.ofRaw_raw]

/-- Numbers of 29 bits are read back. -/
theorem Tag.number_make {number : UInt32} (h : number < 0x20000000) (t : WireType) :
    Tag.number (Tag.make number t) = number := by
  have hlt := t.toNat_raw_lt
  have hnumber : number.toNat < 2 ^ 29 := h
  refine UInt32.toNat_inj.1 ?_
  rw [Tag.number, UInt32.toNat_shiftRight, Tag.toNat_make, Nat.mod_eq_of_lt hnumber]
  simp [Nat.shiftRight_eq_div_pow]
  omega

theorem Tag.make_number {tag : UInt32} {t : WireType} (h : Tag.wireType tag = .ok t) :
    Tag.make (Tag.number tag) t = tag := by
  have hraw : t.raw = (tag &&& 7).toUInt8 := WireType.raw_of_ofRaw h
  have hmod : t.raw.toNat = tag.toNat % 8 := by
    rw [hraw, UInt32.toNat_toUInt8, UInt32.toNat_and, show (7 : UInt32).toNat = 2 ^ 3 - 1 from rfl,
      Nat.and_two_pow_sub_one_eq_mod]
    omega
  have hlt := tag.toNat_lt
  refine UInt32.toNat_inj.1 ?_
  rw [Tag.toNat_make, Tag.number, UInt32.toNat_shiftRight, hmod]
  simp [Nat.shiftRight_eq_div_pow]
  omega

theorem Tag.make_ne_zero (number : UInt32) : Tag.make number .endGroup ≠ 0 := by
  intro h
  have htoNat := Tag.toNat_make number .endGroup
  rw [h] at htoNat
  simp [WireType.raw] at htoNat

theorem Tag.number_lt (tag : UInt32) : Tag.number tag < 0x20000000 := by
  have hlt := tag.toNat_lt
  have hnumber : (Tag.number tag).toNat = tag.toNat / 8 := by
    rw [Tag.number, UInt32.toNat_shiftRight]
    simp [Nat.shiftRight_eq_div_pow]
  exact UInt32.lt_iff_toNat_lt.2 (by rw [hnumber]; exact Nat.div_lt_of_lt_mul hlt)

end ProtoWire
