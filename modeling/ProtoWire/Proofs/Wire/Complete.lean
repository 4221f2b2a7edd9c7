import ProtoWire.Proofs.Wire.Local

/-!
# Complete records

The records of an encoded message by their form alone, whether or not their fields are known.
-/

namespace ProtoWire

variable {r r' : Reader} {rest : Bytes}

/-- A record: the bytes of its tag, the number that they spell, the wire type, and the payload. -/
structure WireRecord where
  tagBytes : Bytes
  tag : UInt64
  type : WireType
  payload : Bytes

namespace WireRecord

/-- The field number of a record. -/
def number (r : WireRecord) : UInt32 :=
  Tag.number r.tag.toUInt32

def bytes (r : WireRecord) : Bytes :=
  r.tagBytes ++ r.payload

/-- The record starts with its tag. -/
structure Tagged (r : WireRecord) : Prop where
  spells : Varint.Spells r.tagBytes r.tag
  number_ne : r.number ≠ 0
  type_eq : Tag.wireType r.tag.toUInt32 = .ok r.type

/-- The whole payload of a record with a field number and a wire type. -/
inductive Whole : UInt32 → WireType → Bytes → Prop where
  | varint {number : UInt32} {value : UInt64} {bytes : Bytes} (h : Varint.Spells bytes value) :
    Whole number .varint bytes
  | i64 {number : UInt32} {bytes : Bytes} (h : bytes.length = fixed64Size) :
    Whole number .i64 bytes
  | i32 {number : UInt32} {bytes : Bytes} (h : bytes.length = fixed32Size) :
    Whole number .i32 bytes
  /-- A length, of which the low 32 bits count, and so many bytes. -/
  | len {number : UInt32} {size : UInt64} {header bytes : Bytes}
    (hheader : Varint.Spells header size) (hlength : bytes.length = size.toUInt32.toNat) :
    Whole number .len (header ++ bytes)
  /-- Records and the end tag of the group. -/
  | group {number : UInt32} {rs : List WireRecord} {full : UInt64} {trailer : Bytes}
    (htags : ∀ r ∈ rs, r.Tagged) (hpayloads : ∀ r ∈ rs, Whole r.number r.type r.payload)
    (htrailer : Varint.Spells trailer full) (hend : full.toUInt32 = Tag.make number .endGroup) :
    Whole number .startGroup (rs.flatMap bytes ++ trailer)

/-- A whole record. -/
structure Complete (r : WireRecord) : Prop extends r.Tagged where
  whole : Whole r.number r.type r.payload

end WireRecord

/-! ### Skipping -/

theorem readLength_of_spells {header : Bytes} {size : UInt64} {n : Nat}
    (h : Varint.Spells header size) (hr : r.remaining = header ++ rest)
    (hread : readLength r = .ok n r') : n = size.toUInt32.toNat ∧ r' = r.advance header.length := by
  obtain ⟨low, hlow, -, rfl⟩ := readLength_eq_ok.1 hread
  obtain ⟨full, k, hdecode, rfl, rfl⟩ := readVarint32_eq_ok.1 hlow
  rw [hr, h.append rest] at hdecode
  cases hdecode
  exact ⟨rfl, rfl⟩

theorem readTag_of_spells {bytes : Bytes} {full : UInt64} {tag : UInt32}
    (h : Varint.Spells bytes full) (hr : r.remaining = bytes ++ rest)
    (hread : readTag r = .ok tag r') :
    tag = full.toUInt32 ∧ tag ≠ 0 ∧ (r.advance bytes.length).Alike r' := by
  rcases readTag_eq_ok.1 hread with ⟨hend, -, -⟩ | ⟨-, hnumber, t, ht, rfl⟩
  · rw [Reader.remaining_of_atEnd hend, eq_comm, List.append_eq_nil_iff] at hr
    exact absurd hr.1 h.ne_nil
  · obtain ⟨full', n, hdecode, rfl, rfl⟩ := readVarint32_eq_ok.1 ht
    rw [hr, h.append rest] at hdecode
    cases hdecode
    refine ⟨rfl, ?_, _, rfl⟩
    intro hzero
    rw [hzero] at hnumber
    exact hnumber rfl

namespace WireRecord

theorem skipMessage_group {number : UInt32} {rs : List WireRecord} {full : UInt64} {trailer : Bytes}
    (htags : ∀ r ∈ rs, r.Tagged)
    (hskips : ∀ rec ∈ rs, ∀ {r r' : Reader} {rest : Bytes} {more : Bool}, r.Sound →
      r.remaining = rec.payload ++ rest → skipField rec.tag.toUInt32 r = .ok more r' →
        more = true ∧ (r.advance rec.payload.length).Alike r')
    (htrailer : Varint.Spells trailer full) (hend : full.toUInt32 = Tag.make number .endGroup)
    (hsound : r.Sound) (hr : r.remaining = rs.flatMap bytes ++ (trailer ++ rest))
    (h : skipMessage r = .ok () r') :
    (r.advance (rs.flatMap bytes ++ trailer).length).Alike r' := by
  induction rs generalizing r with
  | nil =>
    rw [skipMessage_apply] at h
    obtain ⟨tag, r₁, htag, h⟩ := bind_eq_ok.1 h
    obtain ⟨rfl, hne, halike⟩ := readTag_of_spells htrailer hr htag
    have htype : Tag.wireType full.toUInt32 = .ok .endGroup := hend ▸ Tag.wireType_make _ _
    unfold skipFrom at h
    rw [if_neg hne, bind_of_ok (skipField_endGroup htype r₁)] at h
    cases h
    exact halike
  | cons rec rs ih =>
    rw [List.forall_mem_cons] at htags
    rw [skipMessage_apply] at h
    obtain ⟨tag, r₁, htag, h⟩ := bind_eq_ok.1 h
    simp only [List.flatMap_cons, bytes, List.append_assoc] at hr ⊢
    obtain ⟨rfl, hne, halike⟩ := readTag_of_spells htags.1.spells hr htag
    have hr₁ := halike.remaining_eq.trans (Reader.remaining_advance_append hr)
    unfold skipFrom at h
    rw [if_neg hne] at h
    obtain ⟨more, r₂, hskip, h⟩ := bind_eq_ok.1 h
    have hsound₁ := (hsound.advance _).alike halike
    obtain ⟨rfl, halike₁⟩ := hskips rec List.mem_cons_self hsound₁ hr₁ hskip
    have hr₂ := halike₁.remaining_eq.trans (Reader.remaining_advance_append hr₁)
    have hrest := ih htags.2 (fun rec hrec => hskips rec (List.mem_cons_of_mem _ hrec))
      ((hsound₁.advance _).alike halike₁) hr₂ h
    obtain ⟨t, rfl⟩ := halike
    obtain ⟨t', rfl⟩ := halike₁
    obtain ⟨t'', rfl⟩ := hrest
    exact ⟨t'', by simp [Reader.advance, Nat.add_assoc, bytes]⟩

/-- Skipping a whole payload ends right behind it. -/
theorem Whole.skipField {number : UInt32} {type : WireType} {bytes : Bytes}
    (h : Whole number type bytes) {tag : UInt32} (hnumber : Tag.number tag = number)
    (htype : Tag.wireType tag = .ok type) {more : Bool} (hsound : r.Sound)
    (hr : r.remaining = bytes ++ rest) (hskip : ProtoWire.skipField tag r = .ok more r') :
    more = true ∧ (r.advance bytes.length).Alike r' := by
  induction h generalizing tag r r' rest more with
  | varint h =>
    rw [skipField_apply, skipPayload, htype] at hskip
    obtain ⟨_, t, hread, hskip⟩ := bind_eq_ok.1 hskip
    cases hskip
    exact ⟨rfl, (reads_readVarint64 h).alike hsound hr hread⟩
  | i64 h | i32 h =>
    rw [skipField_apply, skipPayload, htype] at hskip
    obtain ⟨_, t, hraw, hskip⟩ := bind_eq_ok.1 hskip
    cases hskip
    rw [h, (skipRaw_eq_ok.1 hraw).2]
    exact ⟨rfl, .refl _⟩
  | len hheader hlength =>
    rw [skipField_apply, skipPayload, htype] at hskip
    obtain ⟨n, t, hread, hskip⟩ := bind_eq_ok.1 hskip
    obtain ⟨_, t', hraw, hskip⟩ := bind_eq_ok.1 hskip
    cases hskip
    rw [List.append_assoc] at hr
    obtain ⟨rfl, rfl⟩ := readLength_of_spells hheader hr hread
    rw [← (skipRaw_eq_ok.1 hraw).2, List.length_append, hlength]
    exact ⟨rfl, r.lastTag, by simp [Reader.advance, Nat.add_assoc]⟩
  | group htags hpayloads htrailer hend ih =>
    rw [skipField_apply, skipPayload, htype] at hskip
    obtain ⟨_, r₁, henter, hskip⟩ := bind_eq_ok.1 hskip
    obtain ⟨_, r₂, hrecords, hskip⟩ := bind_eq_ok.1 hskip
    obtain ⟨_, r₃, hlast, hskip⟩ := bind_eq_ok.1 hskip
    obtain ⟨-, rfl⟩ := checkLastTag_eq_ok.1 hlast
    cases hskip
    obtain ⟨rfl, -, hdepth⟩ := Reader.levels_of_enterNested henter
    have hsound₁ : Reader.Sound { r with depth := r.depth + 1 } := ⟨hsound.limit_le, hdepth⟩
    rw [List.append_assoc] at hr
    obtain ⟨t, rfl⟩ := skipMessage_group htags
      (fun rec hrec {_ _ _ _} => ih rec hrec rfl (htags rec hrec).type_eq) htrailer hend hsound₁ hr
      hrecords
    exact ⟨rfl, t, by simp [Reader.advance]⟩

end WireRecord

end ProtoWire
