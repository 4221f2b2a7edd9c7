import Mathlib
import ProtoWire.Field.Presence

/-!
# Presence bits are independent

* `Presence.test_insert`, `Presence.test_erase`: setting or clearing a bit changes that bit alone.
-/

namespace ProtoWire

namespace PresenceBit

theorem toBitVec_mask (bit : PresenceBit) :
    bit.mask.toBitVec = BitVec.twoPow 32 (bit.index % 32) := by
  have hall : ∀ k : Fin 32,
      ((1 : UInt32) <<< k.val.toUInt32).toBitVec = BitVec.twoPow 32 k.val := by decide
  exact hall ⟨bit.index % 32, Nat.mod_lt _ (by decide)⟩

theorem eq_iff (bit bit' : PresenceBit) :
    bit = bit' ↔ bit.word = bit'.word ∧ bit.index % 32 = bit'.index % 32 := by
  cases bit
  cases bit'
  simp only [word, mk.injEq]
  omega

end PresenceBit

namespace Presence

variable {p q : Presence} {bit bit' : PresenceBit}

theorem test_eq (p : Presence) (bit : PresenceBit) :
    p.test bit = (p.getD bit.word 0).toBitVec.getLsbD (bit.index % 32) := by
  have hk : bit.index % 32 < 32 := Nat.mod_lt _ (by decide)
  unfold test
  rw [Bool.eq_iff_iff, bne_iff_ne, ne_eq, ← UInt32.toBitVec_inj, UInt32.toBitVec_and,
    bit.toBitVec_mask, BitVec.and_twoPow]
  cases (p.getD bit.word 0).toBitVec.getLsbD (bit.index % 32) with
  | false => simp
  | true =>
    simp only [if_true, iff_true]
    intro h
    have := congrArg (fun v => v.getLsbD (bit.index % 32)) h
    simp [hk] at this

@[simp] theorem length_insert : (p.insert bit).length = p.length :=
  List.length_modify ..

@[simp] theorem length_erase : (p.erase bit).length = p.length :=
  List.length_modify ..

@[simp] theorem test_none (words : Nat) : (none words).test bit = false := by
  rw [test_eq, none, List.getD_eq_getElem?_getD, List.getElem?_replicate]
  split <;> simp

@[simp] theorem test_map_zero : Presence.test (p.map fun _ => 0) bit = false := by
  rw [test_eq, List.getD_eq_getElem?_getD, List.getElem?_map]
  cases p[bit.word]? <;> simp

theorem test_insert (h : bit.word < p.length) :
    (p.insert bit).test bit' = (decide (bit = bit') || p.test bit') := by
  have hk : bit'.index % 32 < 32 := Nat.mod_lt _ (by decide)
  rw [test_eq, test_eq, insert, List.getD_eq_getElem?_getD, List.getD_eq_getElem?_getD,
    List.getElem?_modify]
  by_cases hword : bit.word = bit'.word
  · rw [hword] at h
    simp [hword, List.getElem?_eq_getElem h, bit.toBitVec_mask, PresenceBit.eq_iff, hk,
      Bool.or_comm, eq_comm]
  · simp [hword, PresenceBit.eq_iff]

theorem test_erase : (p.erase bit).test bit' = (decide (bit ≠ bit') && p.test bit') := by
  have hk : bit'.index % 32 < 32 := Nat.mod_lt _ (by decide)
  rw [test_eq, test_eq, erase, List.getD_eq_getElem?_getD, List.getD_eq_getElem?_getD,
    List.getElem?_modify]
  by_cases hword : bit.word = bit'.word
  · cases hp : p[bit'.word]? with
    | none => simp
    | some w =>
      simp [hword, bit.toBitVec_mask, PresenceBit.eq_iff, hk, Bool.and_comm, eq_comm]
  · simp [hword, PresenceBit.eq_iff]

/-- Words are determined by their bits. -/
theorem ext (hlength : p.length = q.length) (h : ∀ bit, p.test bit = q.test bit) : p = q := by
  refine List.ext_getElem hlength fun i hp hq => ?_
  apply UInt32.toBitVec_inj.1
  apply BitVec.eq_of_getLsbD_eq
  intro k hk
  have hword : (PresenceBit.mk (32 * i + k)).word = i := by
    simp only [PresenceBit.word]
    omega
  have hindex : (32 * i + k) % 32 = k := by omega
  have hbit := h ⟨32 * i + k⟩
  rw [test_eq, test_eq, hword, hindex, List.getD_eq_getElem?_getD, List.getD_eq_getElem?_getD,
    List.getElem?_eq_getElem hp, List.getElem?_eq_getElem hq] at hbit
  exact hbit

theorem insert_erase (h : bit.word < p.length) : (p.erase bit).insert bit = p.insert bit := by
  refine ext (by simp) fun bit' => ?_
  rw [test_insert (by simpa using h), test_insert h, test_erase]
  by_cases hbit : bit = bit' <;> simp [hbit]

end Presence

end ProtoWire
