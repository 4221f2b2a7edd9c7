import ProtoWire.Proofs.Varint.Read
import ProtoWire.Proofs.Wire.Outcome

/-!
# What reads do

* `readTag_apply`, `readRaw_apply`, …: the outcome of each read, and the reader it leaves.
* `readTag_eq_ok`, `readRaw_eq_ok`, …: when each read succeeds, and with what.
-/

namespace ProtoWire

/-! ### Reads -/

section Reads

variable {n : Nat} {r r' : Reader}

theorem readVarint64_eq_ok {value : UInt64} :
    readVarint64 r = .ok value r' ↔
      ∃ n, Varint.decode r.remaining = .ok (value, n) ∧ r.advance n = r' := by
  rw [readVarint64_eq]
  cases Varint.decode r.remaining with
  | ok p =>
    cases p
    simp [and_assoc]
  | error e => simp

theorem readVarint32_eq_ok {value : UInt32} :
    readVarint32 r = .ok value r' ↔
      ∃ full n, Varint.decode r.remaining = .ok (full, n) ∧ full.toUInt32 = value ∧
        r.advance n = r' := by
  rw [readVarint32_eq]
  cases Varint.decode r.remaining with
  | ok p =>
    cases p
    simp [and_assoc]
  | error e => simp

theorem readTag_apply (r : Reader) :
    readTag r =
      if r.atEnd then .ok 0 { r with lastTag := 0 }
      else
        match readVarint32 r with
        | .ok tag t => if Tag.number tag = 0 then .error .invalidTag t
          else .ok tag { t with lastTag := tag }
        | .error e t => .error e t := by
  unfold readTag
  rw [bind_of_ok get_apply]
  by_cases hend : r.atEnd = true
  · rw [if_pos hend, if_pos hend]
    rfl
  · rw [if_neg hend, if_neg hend]
    cases h : readVarint32 r with
    | error e t => rw [bind_of_error h]
    | ok tag t =>
      rw [bind_of_ok h]
      by_cases hzero : Tag.number tag = 0
      · simp only [hzero, if_true]
        rfl
      · simp only [hzero, if_false]
        rfl

theorem checkLastTag_apply (tag : UInt32) (r : Reader) :
    checkLastTag tag r = if r.lastTag = tag then .ok () r else .error .invalidEndTag r := by
  unfold checkLastTag
  rw [bind_of_ok get_apply]
  by_cases h : r.lastTag = tag <;> simp [h]

theorem readRaw_apply (n : Nat) (r : Reader) :
    readRaw n r =
      if r.bytesLeft < n then .error .truncated r
      else .ok ((r.data.drop r.pos).take n) (r.advance n) := by
  unfold readRaw
  rw [bind_of_ok get_apply]
  by_cases h : r.bytesLeft < n
  · simp only [h, if_true]
    rfl
  · simp only [h, if_false]
    rfl

theorem readFixed_apply (n : Nat) (r : Reader) :
    readFixed n r =
      if (r.remaining.take n).length < n then .error .truncated r
      else .ok (ofLittleEndian (r.remaining.take n)) (r.advance n) := by
  unfold readFixed
  rw [bind_of_ok get_apply]
  by_cases h : (r.remaining.take n).length < n
  · simp only [h, if_true]
    rfl
  · simp only [h, if_false]
    rfl

theorem readLength_apply (r : Reader) :
    readLength r =
      match readVarint32 r with
      | .ok size t => if size.toInt32 < 0 then .error .negativeSize t else .ok size.toNat t
      | .error e t => .error e t := by
  unfold readLength
  cases h : readVarint32 r with
  | error e t => rw [bind_of_error h]
  | ok size t =>
    rw [bind_of_ok h]
    by_cases hneg : size.toInt32 < 0
    · simp only [hneg, if_true]
      rfl
    · simp only [hneg, if_false]
      rfl

theorem pushLimit_apply (n : Nat) (r : Reader) :
    pushLimit n r =
      if r.limit < r.pos + n then .error .truncated r
      else .ok r.limit { r with limit := r.pos + n } := by
  unfold pushLimit
  rw [bind_of_ok get_apply]
  by_cases h : r.limit < r.pos + n
  · simp only [h, if_true]
    rfl
  · simp only [h, if_false]
    rfl

theorem enterNested_apply (r : Reader) :
    enterNested r =
      if r.recursionLimit ≤ r.depth then .error .recursionLimitExceeded r
      else .ok () { r with depth := r.depth + 1 } := by
  unfold enterNested
  rw [bind_of_ok get_apply]
  by_cases h : r.recursionLimit ≤ r.depth
  · simp only [h, if_true]
    rfl
  · simp only [h, if_false]
    rfl

/-! ### Success -/

theorem readTag_eq_ok {tag : UInt32} :
    readTag r = .ok tag r' ↔
      (r.atEnd = true ∧ tag = 0 ∧ { r with lastTag := 0 } = r') ∨
        (r.atEnd = false ∧ Tag.number tag ≠ 0 ∧
          ∃ t, readVarint32 r = .ok tag t ∧ { t with lastTag := tag } = r') := by
  rw [readTag_apply]
  by_cases hend : r.atEnd = true
  · simp [hend, eq_comm]
  · rw [if_neg hend]
    cases readVarint32 r with
    | error e t => simp [hend]
    | ok value t =>
      by_cases hzero : Tag.number value = 0
      · simp only [hzero, if_true]
        constructor
        · exact nofun
        · rintro (⟨h, -⟩ | ⟨-, h, _, ⟨⟩, -⟩)
          · exact absurd h hend
          · exact absurd hzero h
      · simp only [hzero, if_false]
        constructor
        · rintro ⟨⟩
          exact .inr ⟨by simpa using hend, hzero, t, rfl, rfl⟩
        · rintro (⟨h, -⟩ | ⟨-, -, _, ⟨⟩, rfl⟩)
          · exact absurd h hend
          · rfl

theorem checkLastTag_eq_ok {tag : UInt32} :
    checkLastTag tag r = .ok () r' ↔ r.lastTag = tag ∧ r = r' := by
  rw [checkLastTag_apply]
  by_cases h : r.lastTag = tag <;> simp [h]

theorem readRaw_eq_ok {bytes : Bytes} :
    readRaw n r = .ok bytes r' ↔
      n ≤ r.bytesLeft ∧ (r.data.drop r.pos).take n = bytes ∧ r.advance n = r' := by
  rw [readRaw_apply]
  by_cases h : r.bytesLeft < n
  · simp [h, Nat.not_le_of_lt h]
  · simp [h, Nat.le_of_not_lt h]

theorem skipRaw_eq_ok : skipRaw n r = .ok () r' ↔ n ≤ r.bytesLeft ∧ r.advance n = r' := by
  constructor
  · intro h
    obtain ⟨_, _, hraw, ⟨⟩⟩ := bind_eq_ok.1 h
    obtain ⟨hn, -, rfl⟩ := readRaw_eq_ok.1 hraw
    exact ⟨hn, rfl⟩
  · rintro ⟨hn, rfl⟩
    exact bind_of_ok (readRaw_eq_ok.2 ⟨hn, rfl, rfl⟩)

theorem readFixed_eq_ok {value : Nat} :
    readFixed n r = .ok value r' ↔
      n ≤ r.remaining.length ∧ ofLittleEndian (r.remaining.take n) = value ∧
        r.advance n = r' := by
  rw [readFixed_apply, List.length_take]
  by_cases h : r.remaining.length < n
  · rw [if_pos (by omega)]
    simp [Nat.not_le_of_lt h]
  · rw [if_neg (by omega)]
    simp [Nat.le_of_not_lt h]

theorem readLength_eq_ok :
    readLength r = .ok n r' ↔
      ∃ size, readVarint32 r = .ok size r' ∧ ¬ size.toInt32 < 0 ∧ size.toNat = n := by
  rw [readLength_apply]
  cases readVarint32 r with
  | error e t => simp
  | ok size t =>
    by_cases hneg : size.toInt32 < 0
    · simp only [hneg, if_true]
      constructor
      · exact nofun
      · rintro ⟨_, ⟨⟩, h, -⟩
        exact absurd hneg h
    · simp only [hneg, if_false]
      constructor
      · rintro ⟨⟩
        exact ⟨size, rfl, hneg, rfl⟩
      · rintro ⟨_, ⟨⟩, -, rfl⟩
        rfl

theorem pushLimit_eq_ok {limit : Nat} :
    pushLimit n r = .ok limit r' ↔
      r.pos + n ≤ r.limit ∧ r.limit = limit ∧ { r with limit := r.pos + n } = r' := by
  rw [pushLimit_apply]
  by_cases h : r.limit < r.pos + n
  · simp [h, Nat.not_le_of_lt h]
  · simp [h, Nat.le_of_not_lt h]

theorem enterNested_eq_ok :
    enterNested r = .ok () r' ↔
      ¬ r.recursionLimit ≤ r.depth ∧ { r with depth := r.depth + 1 } = r' := by
  rw [enterNested_apply]
  by_cases h : r.recursionLimit ≤ r.depth <;> simp [h]

end Reads

end ProtoWire
