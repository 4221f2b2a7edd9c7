import ProtoWire.Proofs.Wire.Checked
import ProtoWire.Proofs.Wire.Complete

/-!
# The wire grammar

What skipping accepts, said without a reader: records one after the other, up to the limit or to an
end-group tag that none of them opened.

* `skipsRecords`: skipping crosses the records that the reader starts with, by induction on the
  bytes left; `SkipsRecords.payload_of_skipField` and `SkipsRecords.skipField_of_payload` are the payload
  part of the step.
* `skipMessage_accepts_grammar`: what skipping a message accepts, and where it leaves the reader.
* `lookahead_exact`: looking ahead counts the records with a tag in what is left of a message.
-/

namespace ProtoWire

/-! ### Definitions -/

/-- The bytes of a varint: at most ten, of which only the last has no continuation bit. Their low
seven bits, lowest first, are the digits of the number, of which 64 bits count. -/
structure Varint.IsVarint (bytes : Bytes) (value : UInt64) : Prop where
  ends : ∃ more last, bytes = more ++ [last] ∧ (∀ b ∈ more, ¬ b < 0x80) ∧ last < 0x80
  length_le : bytes.length ≤ maxVarintSize
  value_eq : value = UInt64.ofNat (payload bytes)

namespace WireRecord

/-- The record starts with a tag: the low 32 bits of a varint, with a field number and a wire
type. -/
structure HasTag (r : WireRecord) : Prop where
  varint : Varint.IsVarint r.tagBytes r.tag
  number_ne : r.number ≠ 0
  type_eq : Tag.wireType r.tag.toUInt32 = .ok r.type

/-- The payload of a record with a field number and a wire type, with groups inside each other at
most so many levels deep. -/
inductive Payload : (levels : Nat) → (number : UInt32) → WireType → Bytes → Prop where
  | varint {levels : Nat} {number : UInt32} {value : UInt64} {bytes : Bytes}
    (h : Varint.IsVarint bytes value) : Payload levels number .varint bytes
  | i64 {levels : Nat} {number : UInt32} {bytes : Bytes} (h : bytes.length = 8) :
    Payload levels number .i64 bytes
  | i32 {levels : Nat} {number : UInt32} {bytes : Bytes} (h : bytes.length = 4) :
    Payload levels number .i32 bytes
  /-- A length below 2^31, of which the low 32 bits count, and so many bytes. -/
  | len {levels : Nat} {number : UInt32} {size : UInt64} {header bytes : Bytes}
    (hheader : Varint.IsVarint header size) (hsize : size.toUInt32.toNat < 2 ^ 31)
    (hlength : bytes.length = size.toUInt32.toNat) : Payload levels number .len (header ++ bytes)
  /-- Records and the end tag of the group. -/
  | group {levels : Nat} {number : UInt32} {rs : List WireRecord} {full : UInt64} {trailer : Bytes}
    (hnumber : number ≠ 0) (htags : ∀ r ∈ rs, r.HasTag)
    (hpayloads : ∀ r ∈ rs, Payload levels r.number r.type r.payload)
    (htrailer : Varint.IsVarint trailer full) (hend : full.toUInt32 = Tag.make number .endGroup) :
    Payload (levels + 1) number .startGroup (rs.flatMap bytes ++ trailer)

/-- A record with groups inside each other at most so many levels deep. -/
structure WellFormed (levels : Nat) (r : WireRecord) : Prop extends r.HasTag where
  payload : Payload levels r.number r.type r.payload

/-- How records end: at the limit, which counts as the tag 0, or with an end-group tag. -/
inductive Ending : (trailer rest : Bytes) → (tag : UInt32) → Prop where
  | limit : Ending [] [] 0
  | group {trailer rest : Bytes} {full : UInt64} (h : Varint.IsVarint trailer full)
    (hnumber : Tag.number full.toUInt32 ≠ 0)
    (htype : Tag.wireType full.toUInt32 = .ok .endGroup) : Ending trailer rest full.toUInt32

/-- The data starts with the records, which end with the trailer. -/
structure Sequence (levels : Nat) (data : Bytes) (rs : List WireRecord) (trailer : Bytes)
    (tag : UInt32) : Prop where
  records : ∀ r ∈ rs, r.WellFormed levels
  ending : ∃ rest, data = rs.flatMap bytes ++ (trailer ++ rest) ∧ Ending trailer rest tag

end WireRecord

/-- The reader behind some bytes, with a latest tag. -/
def Reader.behind (r : Reader) (bytes : Bytes) (tag : UInt32) : Reader :=
  { r.advance bytes.length with lastTag := tag }

/-- The second reader is the first one behind the records that it starts with, and their end. -/
def Reader.Crosses (r : Reader) (rs : List WireRecord) (r' : Reader) : Prop :=
  ∃ trailer tag, WireRecord.Sequence r.levels r.remaining rs trailer tag ∧
    r' = r.behind (rs.flatMap WireRecord.bytes ++ trailer) tag

variable {r r' t u : Reader} {tag : UInt32} {rest : Bytes}

/-! ### Varints -/

namespace Varint

variable {bytes : Bytes} {value : UInt64}

theorem isVarint_iff : IsVarint bytes value ↔ Spells bytes value := by
  constructor
  · rintro ⟨⟨more, last, rfl, hmore, hlast⟩, hlength, rfl⟩
    rw [List.length_append, List.length_singleton] at hlength
    rw [Spells, decode_ended hmore hlength hlast, List.length_append, List.length_singleton]
  · intro h
    obtain ⟨more, last, rfl, hmore, hlen, hlast, hvalue⟩ := h.shape
    exact ⟨⟨more, last, rfl, hmore, hlast⟩, by simpa using hlen, hvalue⟩

theorem decode_eq_ok_iff {n : Nat} : decode bytes = .ok (value, n) ↔
    ∃ first rest, bytes = first ++ rest ∧ IsVarint first value ∧ first.length = n := by
  constructor
  · intro h
    obtain ⟨hspells, hn⟩ := spells_take h
    exact ⟨_, _, (List.take_append_drop n bytes).symm, isVarint_iff.2 hspells,
      by rw [List.length_take, Nat.min_eq_left hn]⟩
  · rintro ⟨first, rest, rfl, h, rfl⟩
    exact (isVarint_iff.1 h).append rest

end Varint

/-! ### Readers -/

theorem Reader.Bounded.length_remaining (hr : r.Bounded) : r.remaining.length = r.bytesLeft :=
  Reader.length_remaining hr.limit_le

theorem Reader.Bounded.atEnd_iff (hr : r.Bounded) : r.atEnd = true ↔ r.remaining = [] := by
  have hpos := hr.pos_le
  rw [← List.length_eq_zero_iff, hr.length_remaining, Reader.atEnd, beq_iff_eq, Reader.bytesLeft]
  omega

theorem Reader.Bounded.alike_advance {first : Bytes} (hr : r.Bounded)
    (hrest : r.remaining = first ++ rest) (h : (r.advance first.length).Alike t) :
    t.Bounded ∧ t.remaining = rest ∧ t.levels = r.levels ∧
      t.bytesLeft + first.length = r.bytesLeft := by
  have hlength := hr.length_remaining
  rw [hrest, List.length_append] at hlength
  have hpos := hr.pos_le
  obtain ⟨tag, rfl⟩ := h
  simp only [Reader.bytesLeft] at hlength
  refine ⟨⟨?_, hr.limit_le⟩, Reader.remaining_advance_append hrest, rfl, ?_⟩
  · simp only [Reader.advance]
    omega
  · simp only [Reader.bytesLeft, Reader.advance]
    omega

theorem Reader.Alike.advance_append {first more : Bytes} (h : (r.advance first.length).Alike t)
    (hu : (t.advance more.length).Alike u) : (r.advance (first ++ more).length).Alike u := by
  obtain ⟨_, rfl⟩ := h
  obtain ⟨last, rfl⟩ := hu
  exact ⟨last, by simp [Reader.advance, Nat.add_assoc]⟩

theorem Reader.alike_behind (r : Reader) (bytes : Bytes) (tag : UInt32) :
    (r.advance bytes.length).Alike (r.behind bytes tag) :=
  ⟨tag, rfl⟩

theorem readTag_iff (hr : r.Bounded) : readTag r = .ok tag t ↔
    ∃ first rest, r.remaining = first ++ rest ∧ t = r.behind first tag ∧
      ((tag = 0 ∧ r.remaining = []) ∨
        ∃ full, Varint.IsVarint first full ∧ full.toUInt32 = tag ∧ Tag.number tag ≠ 0) := by
  constructor
  · intro h
    rcases readTag_eq_ok.1 h with ⟨hend, rfl, rfl⟩ | ⟨-, hnumber, t, hread, rfl⟩
    · exact ⟨[], _, rfl, rfl, .inl ⟨rfl, hr.atEnd_iff.1 hend⟩⟩
    · obtain ⟨full, n, hdecode, rfl, rfl⟩ := readVarint32_eq_ok.1 hread
      obtain ⟨first, rest, hrest, hvarint, rfl⟩ := Varint.decode_eq_ok_iff.1 hdecode
      exact ⟨first, rest, hrest, rfl, .inr ⟨full, hvarint, rfl, hnumber⟩⟩
  · rintro ⟨first, rest, hrest, rfl, ⟨rfl, hnil⟩ | ⟨full, hvarint, rfl, hnumber⟩⟩
    · obtain rfl : first = [] := (List.append_eq_nil_iff.1 (hrest.symm.trans hnil)).1
      exact readTag_eq_ok.2 (.inl ⟨hr.atEnd_iff.2 hnil, rfl, rfl⟩)
    · refine readTag_eq_ok.2 (.inr ⟨?_, hnumber, _, readVarint32_eq_ok.2 ⟨full, _,
        Varint.decode_eq_ok_iff.2 ⟨first, rest, hrest, hvarint, rfl⟩, rfl, rfl⟩, rfl⟩)
      rw [Bool.eq_false_iff]
      intro hend
      rw [hr.atEnd_iff.1 hend, eq_comm, List.append_eq_nil_iff] at hrest
      exact (Varint.isVarint_iff.1 hvarint).ne_nil hrest.1

theorem skipRaw_iff (hr : r.Bounded) {n : Nat} : skipRaw n r = .ok () t ↔
    ∃ bytes rest, r.remaining = bytes ++ rest ∧ bytes.length = n ∧ t = r.advance n := by
  constructor
  · intro h
    obtain ⟨hn, rfl⟩ := skipRaw_eq_ok.1 h
    exact ⟨_, _, (List.take_append_drop n _).symm,
      by rw [List.length_take, hr.length_remaining, Nat.min_eq_left hn], rfl⟩
  · rintro ⟨bytes, rest, hrest, rfl, rfl⟩
    have hlength := hr.length_remaining
    rw [hrest, List.length_append] at hlength
    exact skipRaw_eq_ok.2 ⟨by omega, rfl⟩

theorem readLength_iff {n : Nat} : readLength r = .ok n t ↔
    ∃ first rest size, r.remaining = first ++ rest ∧ Varint.IsVarint first size ∧
      size.toUInt32.toNat < 2 ^ 31 ∧ n = size.toUInt32.toNat ∧ t = r.advance first.length := by
  constructor
  · intro h
    obtain ⟨low, hlow, hpos, rfl⟩ := readLength_eq_ok.1 h
    obtain ⟨size, k, hdecode, rfl, rfl⟩ := readVarint32_eq_ok.1 hlow
    obtain ⟨first, rest, hrest, hvarint, rfl⟩ := Varint.decode_eq_ok_iff.1 hdecode
    exact ⟨first, rest, size, hrest, hvarint, not_toInt32_neg_iff.1 hpos, rfl, rfl⟩
  · rintro ⟨first, rest, size, hrest, hvarint, hsize, rfl, rfl⟩
    exact readLength_eq_ok.2 ⟨_, readVarint32_eq_ok.2 ⟨size, _,
      Varint.decode_eq_ok_iff.2 ⟨first, rest, hrest, hvarint, rfl⟩, rfl, rfl⟩,
      not_toInt32_neg_iff.2 hsize, rfl⟩

/-! ### Payloads -/

/-- The records that are passed over, with less than so many bytes left, are those of the
grammar. -/
def SkipsRecords (n : Nat) : Prop :=
  ∀ ⦃r : Reader⦄, r.Bounded → r.bytesLeft < n → ∀ tags r', recordTags n r = .ok tags r' ↔
    ∃ rs, r.Crosses rs r' ∧ rs.map (·.tag.toUInt32) = tags

section Payloads

variable {n : Nat} (ih : SkipsRecords n) (hr : r.Bounded) (hleft : r.bytesLeft < n)

include ih hr hleft

theorem SkipsRecords.skipMessage (r' : Reader) :
    skipMessage r = .ok () r' ↔ ∃ rs, r.Crosses rs r' := by
  simp [skipMessage_eq hleft, map_eq_ok, ih hr hleft]

theorem SkipsRecords.payload_of_skipField (h : skipField tag r = .ok true t) :
    ∃ type payload rest, Tag.wireType tag = .ok type ∧ r.remaining = payload ++ rest ∧
      WireRecord.Payload r.levels (Tag.number tag) type payload ∧
      (r.advance payload.length).Alike t := by
  rw [skipField_apply, skipPayload] at h
  cases htype : Tag.wireType tag with
  | error e =>
    rw [htype] at h
    cases h
  | ok type =>
    rw [htype] at h
    cases type with
    | endGroup => cases h
    | varint =>
      obtain ⟨value, _, hread, ⟨⟩⟩ := bind_eq_ok.1 h
      obtain ⟨k, hdecode, rfl⟩ := readVarint64_eq_ok.1 hread
      obtain ⟨bytes, rest, hrest, hvarint, rfl⟩ := Varint.decode_eq_ok_iff.1 hdecode
      exact ⟨_, bytes, rest, rfl, hrest, .varint hvarint, .refl _⟩
    | i64 =>
      obtain ⟨_, _, hskip, ⟨⟩⟩ := bind_eq_ok.1 h
      obtain ⟨bytes, rest, hrest, hlength, rfl⟩ := (skipRaw_iff hr).1 hskip
      exact ⟨_, bytes, rest, rfl, hrest, .i64 hlength, hlength ▸ .refl _⟩
    | i32 =>
      obtain ⟨_, _, hskip, ⟨⟩⟩ := bind_eq_ok.1 h
      obtain ⟨bytes, rest, hrest, hlength, rfl⟩ := (skipRaw_iff hr).1 hskip
      exact ⟨_, bytes, rest, rfl, hrest, .i32 hlength, hlength ▸ .refl _⟩
    | len =>
      obtain ⟨k, u, hlength, h⟩ := bind_eq_ok.1 h
      obtain ⟨_, _, hskip, ⟨⟩⟩ := bind_eq_ok.1 h
      obtain ⟨header, rest, size, hrest, hvarint, hsize, rfl, rfl⟩ := readLength_iff.1 hlength
      obtain ⟨hu, hremaining, -⟩ := hr.alike_advance hrest (.refl _)
      obtain ⟨bytes, rest, hbytes, hlength, rfl⟩ := (skipRaw_iff hu).1 hskip
      refine ⟨_, header ++ bytes, rest, rfl, ?_, .len hvarint hsize hlength,
        .advance_append (.refl _) (hlength ▸ .refl _)⟩
      rw [hrest, ← hremaining, hbytes, List.append_assoc]
    | startGroup =>
      obtain ⟨_, r₁, henter, h⟩ := bind_eq_ok.1 h
      obtain ⟨_, r₂, hskip, h⟩ := bind_eq_ok.1 h
      obtain ⟨_, r₃, hcheck, h⟩ := bind_eq_ok.1 h
      obtain ⟨hlast, rfl⟩ := checkLastTag_eq_ok.1 hcheck
      cases h
      obtain ⟨rfl, hlevels, -⟩ := Reader.levels_of_enterNested henter
      obtain ⟨rs, trailer, last, ⟨hrecords, rest, hrest, hending⟩, rfl⟩ :=
        (ih.skipMessage (r := { r with depth := r.depth + 1 }) ⟨hr.pos_le, hr.limit_le⟩ hleft
          _).1 hskip
      cases hending with
      | limit => exact absurd hlast.symm (Tag.make_ne_zero _)
      | @group _ _ full htrailer hnumber =>
        refine ⟨_, rs.flatMap WireRecord.bytes ++ trailer, rest, rfl, ?_, ?_, full.toUInt32, ?_⟩
        · rw [List.append_assoc]
          exact hrest
        · have hend : full.toUInt32 = Tag.make (Tag.number tag) .endGroup := hlast
          rw [hend, Tag.number_make (Tag.number_lt tag)] at hnumber
          rw [hlevels]
          exact .group hnumber (fun rec hrec => (hrecords rec hrec).toHasTag)
            (fun rec hrec => (hrecords rec hrec).payload) htrailer hend
        · simp [Reader.behind, Reader.advance]

theorem SkipsRecords.skipField_of_payload {type : WireType} {payload : Bytes}
    (htype : Tag.wireType tag = .ok type) (hrest : r.remaining = payload ++ rest)
    (h : WireRecord.Payload r.levels (Tag.number tag) type payload) :
    ∃ t, skipField tag r = .ok true t ∧ (r.advance payload.length).Alike t := by
  rw [skipField_apply, skipPayload, htype]
  generalize hlevels : r.levels = levels at h
  cases h with
  | varint hvarint =>
    have hread := readVarint64_eq_ok.2
      ⟨_, Varint.decode_eq_ok_iff.2 ⟨_, _, hrest, hvarint, rfl⟩, rfl⟩
    exact ⟨_, bind_of_ok hread, .refl _⟩
  | i64 hlength | i32 hlength =>
    have hskip := (skipRaw_iff hr).2 ⟨_, _, hrest, hlength, rfl⟩
    exact ⟨_, bind_of_ok hskip, hlength ▸ .refl _⟩
  | @len _ _ size header bytes hheader hsize hlength =>
    rw [List.append_assoc] at hrest
    have hread := readLength_iff.2 ⟨_, _, _, hrest, hheader, hsize, rfl, rfl⟩
    obtain ⟨hu, hremaining, -⟩ := hr.alike_advance hrest (.refl _)
    have hskip := (skipRaw_iff hu).2 ⟨_, _, hremaining, hlength, rfl⟩
    exact ⟨_, (bind_of_ok hread).trans (bind_of_ok hskip),
      .advance_append (.refl _) (hlength ▸ .refl _)⟩
  | @group levels _ rs full trailer hnumber htags hpayloads htrailer hend =>
    have hdepth : ¬ r.recursionLimit ≤ r.depth := by
      intro hle
      have hle := UInt32.le_iff_toNat_le.1 hle
      simp only [Reader.levels] at hlevels
      omega
    have henter : enterNested r = .ok () { r with depth := r.depth + 1 } :=
      enterNested_eq_ok.2 ⟨hdepth, rfl⟩
    have hdeeper := (Reader.levels_of_enterNested henter).2.1
    obtain rfl : levels = Reader.levels { r with depth := r.depth + 1 } := by omega
    rw [List.append_assoc] at hrest
    have hending : WireRecord.Ending trailer rest full.toUInt32 := by
      refine .group htrailer ?_ (hend ▸ Tag.wireType_make _ _)
      rwa [hend, Tag.number_make (Tag.number_lt tag)]
    have hskip := (ih.skipMessage (r := { r with depth := r.depth + 1 })
      ⟨hr.pos_le, hr.limit_le⟩ hleft _).2 ⟨rs, trailer, _, ⟨fun rec hrec => ⟨htags rec hrec, hpayloads rec hrec⟩, rest, hrest, hending⟩,
        rfl⟩
    refine ⟨_, (bind_of_ok henter).trans ((bind_of_ok hskip).trans
      (bind_of_ok (checkLastTag_eq_ok.2 ⟨hend, rfl⟩))), full.toUInt32, ?_⟩
    simp [Reader.behind, Reader.advance]

end Payloads

/-! ### Records -/

namespace Reader

theorem Bounded.crosses_nil_iff (hr : r.Bounded) : r.Crosses [] r' ↔
    ∃ tag, readTag r = .ok tag r' ∧ (tag = 0 ∨ Tag.wireType tag = .ok .endGroup) := by
  constructor
  · rintro ⟨trailer, tag, ⟨-, rest, hrest, hending⟩, rfl⟩
    cases hending with
    | limit => exact ⟨0, (readTag_iff hr).2 ⟨[], [], hrest, rfl, .inl ⟨rfl, hrest⟩⟩, .inl rfl⟩
    | group hvarint hnumber htype =>
      exact ⟨_, (readTag_iff hr).2 ⟨trailer, rest, hrest, rfl, .inr ⟨_, hvarint, rfl, hnumber⟩⟩,
        .inr htype⟩
  · rintro ⟨tag, htag, hend⟩
    obtain ⟨first, rest, hrest, rfl, h⟩ := (readTag_iff hr).1 htag
    refine ⟨first, tag, ⟨by simp, rest, hrest, ?_⟩, rfl⟩
    rcases h with ⟨rfl, hnil⟩ | ⟨full, hvarint, rfl, hnumber⟩
    · obtain ⟨rfl, rfl⟩ := List.append_eq_nil_iff.1 (hrest.symm.trans hnil)
      exact .limit
    · refine .group hvarint hnumber (hend.resolve_left fun h => hnumber ?_)
      rw [h]
      rfl

theorem sequence_cons_iff {rec : WireRecord} {rs : List WireRecord} {levels : Nat}
    {data trailer : Bytes} : WireRecord.Sequence levels data (rec :: rs) trailer tag ↔
      rec.WellFormed levels ∧
        ∃ rest, data = rec.bytes ++ rest ∧ WireRecord.Sequence levels rest rs trailer tag := by
  constructor
  · rintro ⟨hrecords, rest, rfl, hending⟩
    rw [List.forall_mem_cons] at hrecords
    exact ⟨hrecords.1, _, by simp, hrecords.2, rest, rfl, hending⟩
  · rintro ⟨hrec, _, rfl, hrecords, rest, rfl, hending⟩
    exact ⟨List.forall_mem_cons.2 ⟨hrec, hrecords⟩, rest, by simp, hending⟩

theorem Bounded.crosses_cons_iff {rec : WireRecord} {rs : List WireRecord} (hr : r.Bounded) :
    r.Crosses (rec :: rs) r' ↔ rec.WellFormed r.levels ∧ ∃ rest, r.remaining = rec.bytes ++ rest ∧
      (r.advance rec.bytes.length).Crosses rs r' := by
  have hbehind (bytes : Bytes) (tag : UInt32) :
      (r.advance rec.bytes.length).behind bytes tag = r.behind (rec.bytes ++ bytes) tag := by
    simp [behind, advance, Nat.add_assoc]
  simp only [Crosses, sequence_cons_iff, List.flatMap_cons, List.append_assoc, ← hbehind]
  constructor
  · rintro ⟨trailer, tag, ⟨hrec, rest, hrest, hsequence⟩, rfl⟩
    obtain ⟨-, hremaining, -⟩ := hr.alike_advance hrest (.refl _)
    exact ⟨hrec, rest, hrest, trailer, tag, hremaining ▸ hsequence, rfl⟩
  · rintro ⟨hrec, rest, hrest, trailer, tag, hsequence, rfl⟩
    obtain ⟨-, hremaining, -⟩ := hr.alike_advance hrest (.refl _)
    exact ⟨trailer, tag, ⟨hrec, rest, hrest, hremaining ▸ hsequence⟩, rfl⟩

theorem Alike.crosses_iff {rs : List WireRecord} (h : r.Alike t) :
    r.Crosses rs r' ↔ t.Crosses rs r' := by
  obtain ⟨tag, rfl⟩ := h
  rfl

end Reader

section Records

variable {n : Nat} (ih : SkipsRecords n) (hr : r.Bounded) (hleft : r.bytesLeft ≤ n)

include ih hr hleft

theorem SkipsRecords.crosses_of_skipField (htag : readTag r = .ok tag t) (hne : tag ≠ 0)
    (hskip : skipField tag t = .ok true u) :
    u.Bounded ∧ u.bytesLeft < r.bytesLeft ∧ ∃ rec : WireRecord, rec.tag.toUInt32 = tag ∧
      ∀ ⦃rs r'⦄, u.Crosses rs r' → r.Crosses (rec :: rs) r' := by
  obtain ⟨first, rest, hrest, rfl, ⟨h0, -⟩ | ⟨full, hvarint, rfl, hnumber⟩⟩ :=
    (readTag_iff hr).1 htag
  · exact absurd h0 hne
  · obtain ⟨ht, hremaining, hlevels, hlength⟩ := hr.alike_advance hrest (r.alike_behind _ _)
    have hpos := List.length_pos_iff.2 (Varint.isVarint_iff.1 hvarint).ne_nil
    obtain ⟨type, payload, rest, htype, hpayload, hwell, halike⟩ :=
      ih.payload_of_skipField ht (by omega) hskip
    obtain ⟨hu, -, -, hlength'⟩ := ht.alike_advance hpayload halike
    refine ⟨hu, by omega, ⟨first, full, type, payload⟩, rfl, fun rs r' hcrosses =>
      hr.crosses_cons_iff.2 ⟨⟨⟨hvarint, hnumber, htype⟩, hlevels ▸ hwell⟩, rest, ?_, ?_⟩⟩
    · rw [hrest, ← hremaining, hpayload, WireRecord.bytes, List.append_assoc]
    · exact ((r.alike_behind _ _).advance_append halike).crosses_iff.2 hcrosses

theorem SkipsRecords.skipField_of_crosses {rec : WireRecord} {rs : List WireRecord}
    (h : r.Crosses (rec :: rs) r') :
    ∃ t u, readTag r = .ok rec.tag.toUInt32 t ∧ rec.tag.toUInt32 ≠ 0 ∧
      skipField rec.tag.toUInt32 t = .ok true u ∧ u.Bounded ∧ u.bytesLeft < r.bytesLeft ∧
      u.Crosses rs r' := by
  obtain ⟨⟨⟨hvarint, hnumber, htype⟩, hpayload⟩, rest, hrest, hcrosses⟩ := hr.crosses_cons_iff.1 h
  rw [WireRecord.bytes, List.append_assoc] at hrest
  have htag := (readTag_iff hr).2 ⟨_, _, hrest, rfl, .inr ⟨_, hvarint, rfl, hnumber⟩⟩
  have hne : rec.tag.toUInt32 ≠ 0 := fun h => hnumber (by rw [WireRecord.number, h]; rfl)
  obtain ⟨ht, hremaining, hlevels, hlength⟩ := hr.alike_advance hrest (r.alike_behind _ _)
  have hpos := List.length_pos_iff.2 (Varint.isVarint_iff.1 hvarint).ne_nil
  obtain ⟨u, hskip, halike⟩ :=
    ih.skipField_of_payload ht (by omega) htype hremaining (hlevels ▸ hpayload)
  obtain ⟨hu, -, -, hlength'⟩ := ht.alike_advance hremaining halike
  exact ⟨_, u, htag, hne, hskip, hu, by omega,
    ((r.alike_behind _ _).advance_append halike).crosses_iff.1 hcrosses⟩

end Records

/-- The records that are passed over are those of the grammar, however many bytes are left. -/
theorem skipsRecords (n : Nat) : SkipsRecords n := by
  induction n with
  | zero =>
    intro r _ hleft
    omega
  | succ n ih =>
    intro r hr hleft tags r'
    rw [recordTags]
    constructor
    · intro h
      obtain ⟨tag, t, htag, h⟩ := bind_eq_ok.1 h
      rcases tagsFrom_eq_ok.1 h with ⟨hend, rfl, rfl⟩ | ⟨hne, u, tags', hskip, hrest, rfl⟩
      · exact ⟨[], hr.crosses_nil_iff.2 ⟨tag, htag, hend⟩, rfl⟩
      · obtain ⟨hu, hless, rec, rfl, hcrosses⟩ :=
          ih.crosses_of_skipField hr (by omega) htag hne hskip
        obtain ⟨rs, hrs, rfl⟩ := (ih hu (by omega) _ r').1 hrest
        exact ⟨rec :: rs, hcrosses hrs, rfl⟩
    · rintro ⟨rs, h, rfl⟩
      cases rs with
      | nil =>
        obtain ⟨tag, htag, hend⟩ := hr.crosses_nil_iff.1 h
        exact (bind_of_ok htag).trans (tagsFrom_eq_ok.2 (.inl ⟨hend, rfl, rfl⟩))
      | cons rec rs =>
        obtain ⟨t, u, htag, hne, hskip, hu, hless, hcrosses⟩ :=
          ih.skipField_of_crosses hr (by omega) h
        exact (bind_of_ok htag).trans (tagsFrom_eq_ok.2 (.inr ⟨hne, u, _, hskip,
          (ih hu (by omega) _ r').2 ⟨rs, hcrosses, rfl⟩, rfl⟩))

/-- Skipping accepts exactly the records of the grammar, with groups inside each other at most as
deep as the recursion limit leaves levels. They end at the limit or with an end-group tag that none
of them opened. The reader is then behind them, and only its latest tag differs besides. -/
theorem skipMessage_accepts_grammar (hr : r.Bounded) (r' : Reader) :
    skipMessage r = .ok () r' ↔ ∃ rs trailer tag,
      WireRecord.Sequence r.levels r.remaining rs trailer tag ∧
      r' = { r with pos := r.pos + (rs.flatMap WireRecord.bytes ++ trailer).length
                    lastTag := tag } :=
  (skipsRecords (r.bytesLeft + 1)).skipMessage hr (Nat.lt_succ_self _) r'

/-- A group with a varint in it, and the end of another group. -/
theorem skipMessage_accepts_group :
    ∃ rs trailer, WireRecord.Sequence 1 [0x0b, 0x10, 0x01, 0x0c, 0x14] rs trailer 0x14 ∧
      (rs.flatMap WireRecord.bytes ++ trailer).length = 5 := by
  have h := (skipMessage_accepts_grammar (r := ⟨[0x0b, 0x10, 0x01, 0x0c, 0x14], 0, 5, 0, 3, 4⟩)
    ⟨by decide, by decide⟩ ⟨_, 5, 5, 0x14, 3, 4⟩).1 rfl
  obtain ⟨rs, trailer, tag, hsequence, heq⟩ := h
  simp only [Reader.mk.injEq, Nat.zero_add] at heq
  obtain ⟨-, hlength, -, rfl, -⟩ := heq
  exact ⟨rs, trailer, hsequence, hlength.symm⟩

/-! ### Lookahead -/

theorem Reader.Bounded.of_skipField (hr : r.Bounded) (h : skipField tag r = .ok true t) :
    t.Bounded ∧ t.bytesLeft < r.bytesLeft + 1 := by
  obtain ⟨_, _, _, -, hpayload, -, halike⟩ :=
    (skipsRecords _).payload_of_skipField hr (Nat.lt_succ_self _) h
  obtain ⟨ht, -, -, hlength⟩ := hr.alike_advance hpayload halike
  exact ⟨ht, by omega⟩

/-- Looking ahead skips the value at the cursor and crosses the records behind it. -/
theorem repeatedLength_iff (hr : r.Bounded) (htype : Tag.wireType tag ≠ .ok .endGroup) {n : Nat} :
    repeatedLength tag r = .ok n r' ↔ r' = r ∧ ∃ t rs u, skipField tag r = .ok true t ∧
      t.Crosses rs u ∧ n = 1 + rs.countP fun rec => rec.tag.toUInt32 == tag := by
  rw [repeatedLength_eq_ok htype]
  refine and_congr_right fun _ => exists_congr fun t => ?_
  constructor
  · rintro ⟨tags, u, hskip, htags, rfl⟩
    obtain ⟨ht, hleft⟩ := hr.of_skipField hskip
    obtain ⟨rs, hrs, rfl⟩ := (skipsRecords _ ht hleft _ _).1 htags
    exact ⟨rs, u, hskip, hrs, by rw [List.count, List.countP_map, Nat.add_comm]; rfl⟩
  · rintro ⟨rs, u, hskip, hrs, rfl⟩
    obtain ⟨ht, hleft⟩ := hr.of_skipField hskip
    exact ⟨_, u, hskip, (skipsRecords _ ht hleft _ _).2 ⟨rs, hrs, rfl⟩,
      by rw [List.count, List.countP_map, Nat.add_comm]; rfl⟩

/-- Looking ahead counts one for the value at the cursor, and the records with exactly its tag
among those behind it, up to the limit or to the end-group tag that none of them opened. What
stands inside of a record or behind the end does not count. The reader is as before. Looking ahead
succeeds if and only if the value and the records behind it can be skipped. -/
theorem lookahead_exact (hr : r.Bounded) (htype : Tag.wireType tag ≠ .ok .endGroup) :
    (∀ n r', repeatedLength tag r = .ok n r' ↔ r' = r ∧ ∃ type payload rest rs trailer last,
      Tag.wireType tag = .ok type ∧ r.remaining = payload ++ rest ∧
      WireRecord.Payload r.levels (Tag.number tag) type payload ∧
      WireRecord.Sequence r.levels rest rs trailer last ∧
      n = 1 + rs.countP fun rec => rec.tag.toUInt32 == tag) ∧
    ((∃ n r', repeatedLength tag r = .ok n r') ↔
      ∃ t u, skipField tag r = .ok true t ∧ skipMessage t = .ok () u) := by
  refine ⟨fun n r' => (repeatedLength_iff hr htype).trans (and_congr_right fun _ => ?_), ?_⟩
  · constructor
    · rintro ⟨t, rs, u, hskip, ⟨trailer, last, hsequence, -⟩, hn⟩
      obtain ⟨type, payload, rest, htag, hrest, hpayload, halike⟩ :=
        (skipsRecords _).payload_of_skipField hr (Nat.lt_succ_self _) hskip
      obtain ⟨-, rfl, hlevels, -⟩ := hr.alike_advance hrest halike
      exact ⟨type, payload, _, rs, trailer, last, htag, hrest, hpayload, hlevels ▸ hsequence, hn⟩
    · rintro ⟨type, payload, rest, rs, trailer, last, htag, hrest, hpayload, hsequence, hn⟩
      obtain ⟨t, hskip, halike⟩ :=
        (skipsRecords _).skipField_of_payload hr (Nat.lt_succ_self _) htag hrest hpayload
      obtain ⟨-, rfl, hlevels, -⟩ := hr.alike_advance hrest halike
      exact ⟨t, rs, _, hskip, ⟨trailer, last, hlevels ▸ hsequence, rfl⟩, hn⟩
  · constructor
    · rintro ⟨n, r', h⟩
      obtain ⟨-, t, rs, u, hskip, hrs, -⟩ := (repeatedLength_iff hr htype).1 h
      obtain ⟨ht, hleft⟩ := hr.of_skipField hskip
      exact ⟨t, u, hskip, ((skipsRecords _).skipMessage ht hleft u).2 ⟨rs, hrs⟩⟩
    · rintro ⟨t, u, hskip, hskips⟩
      obtain ⟨ht, hleft⟩ := hr.of_skipField hskip
      obtain ⟨rs, hrs⟩ := ((skipsRecords _).skipMessage ht hleft u).1 hskips
      exact ⟨_, r, (repeatedLength_iff hr htype).2 ⟨rfl, t, rs, u, hskip, hrs, rfl⟩⟩

/-- A record in a group inside and one behind the end do not count, two others do. -/
theorem lookahead_exact_three :
    ∃ payload rest rs trailer last,
      [0x05, 0x08, 0x01, 0x13, 0x08, 0x07, 0x14, 0x08, 0x02, 0x0c, 0x08, 0x09] = payload ++ rest ∧
      WireRecord.Payload 1 1 .varint payload ∧ WireRecord.Sequence 1 rest rs trailer last ∧
      3 = 1 + rs.countP fun rec => rec.tag.toUInt32 == 8 := by
  have hr : Reader.Bounded
      ⟨[0x05, 0x08, 0x01, 0x13, 0x08, 0x07, 0x14, 0x08, 0x02, 0x0c, 0x08, 0x09], 0, 12, 8, 3, 4⟩ :=
    ⟨by decide, by decide⟩
  have htype : Tag.wireType 8 ≠ .ok .endGroup := by decide
  obtain ⟨-, _, payload, rest, rs, trailer, last, ⟨⟩, h⟩ := ((lookahead_exact hr htype).1 3 _).1 rfl
  exact ⟨payload, rest, rs, trailer, last, h⟩

end ProtoWire
