import ProtoWire.Proofs.Wire.Complete

/-!
# Bytes that are cut off

Records that are cut off break off in the middle of one, or end between two of them.
-/

namespace ProtoWire

variable {rest : Bytes} {r r' t : Reader}

theorem Varint.Spells.decode_cut {bytes : Bytes} {value : UInt64} (h : Spells (bytes ++ rest) value)
    (hrest : rest ≠ []) : decode bytes = .error .truncated := by
  obtain ⟨more, last, hbytes, hmore, hlen, -, -⟩ := h.shape
  have hlength := congrArg List.length hbytes
  simp only [List.length_append, List.length_singleton] at hlength
  have hpos := List.length_pos_of_ne_nil hrest
  have hfirst : bytes <+: more :=
    List.prefix_of_prefix_length_le (hbytes ▸ List.prefix_append bytes rest)
      (List.prefix_append more _) (by omega)
  have hle := hfirst.length_le
  exact ProtoWire.Varint.decode_cut (fun b hb => hmore b (hfirst.subset hb)) (by omega)

/-! ### Readers -/

/-- The second reader has the first of the bytes that the first one has, and as many levels. -/
structure Reader.Cut (r r' : Reader) : Prop where
  sound : r.Sound
  sound_cut : r'.Sound
  pos_le : r'.pos ≤ r'.limit
  levels_eq : r'.levels = r.levels
  first : r'.remaining <+: r.remaining

namespace Reader.Cut

variable {t' : Reader} (h : r.Cut r')

include h

theorem alike (ht : r.Alike t) (ht' : r'.Alike t') : t.Cut t' where
  sound := h.sound.alike ht
  sound_cut := h.sound_cut.alike ht'
  pos_le := by
    obtain ⟨tag, rfl⟩ := ht'
    exact h.pos_le
  levels_eq := by rw [ht.levels_eq, ht'.levels_eq, h.levels_eq]
  first := by
    rw [ht.remaining_eq, ht'.remaining_eq]
    exact h.first

theorem bytesLeft_eq : r'.bytesLeft = r'.remaining.length :=
  (Reader.length_remaining h.sound_cut.limit_le).symm

theorem atEnd (hnil : r'.remaining = []) : r'.atEnd = true := by
  have hleft := h.bytesLeft_eq
  rw [hnil] at hleft
  have hpos := h.pos_le
  simp only [Reader.bytesLeft, List.length_nil] at hleft
  exact beq_iff_eq.2 (by omega)

theorem advance {bytes rest : Bytes} (hr' : r'.remaining = bytes ++ rest) :
    (r.advance bytes.length).Cut (r'.advance bytes.length) where
  sound := h.sound.advance _
  sound_cut := h.sound_cut.advance _
  pos_le := by
    have hleft := h.bytesLeft_eq
    have hpos := h.pos_le
    rw [hr', List.length_append, Reader.bytesLeft] at hleft
    simp only [Reader.advance]
    omega
  levels_eq := h.levels_eq
  first := by
    rw [Reader.remaining_advance, Reader.remaining_advance]
    exact h.first.drop _

/-- What is at hand for the second reader is so for the first one. -/
theorem exists_remaining {bytes : Bytes} (hr' : r'.remaining = bytes ++ rest) :
    ∃ more, r.remaining = bytes ++ more := by
  obtain ⟨after, hafter⟩ := h.first
  exact ⟨rest ++ after, by rw [← hafter, hr', List.append_assoc]⟩

/-- What the second reader reads from some bytes, the first one does. -/
theorem of_reads {α : Type} {x : Read α} {bytes : Bytes} {a : α}
    (hr' : r'.remaining = bytes ++ rest) (hreads : Reads r'.levels x bytes a) :
    ∃ t t', x r = .ok a t ∧ x r' = .ok a t' ∧ t.Cut t' ∧ t'.remaining = rest := by
  obtain ⟨more, hr⟩ := h.exists_remaining hr'
  obtain ⟨t', ht', halike'⟩ := hreads.exists_ok h.sound_cut hr'
  rw [h.levels_eq] at hreads
  obtain ⟨t, ht, halike⟩ := hreads.exists_ok h.sound hr
  exact ⟨t, t', ht, ht', (h.advance hr').alike halike halike',
    halike'.remaining_eq.trans (Reader.remaining_advance_append hr')⟩

/-- What the second reader reads, the first one does. -/
theorem exists_ok {α : Type} {x : Read α} {a : α} (hlocal : LocalAt x r') (hx : x r' = .ok a t') :
    ∃ t, x r = .ok a t ∧ t.Cut t' := by
  obtain ⟨bytes, rest, hr', hreads⟩ := hlocal h.sound_cut a t' hx
  obtain ⟨t, u, ht, hu, hcut, -⟩ := h.of_reads hr' hreads
  cases hx.symm.trans hu
  exact ⟨t, ht, hcut⟩

theorem readTag {tag : UInt32} (htag : readTag r' = .ok tag t') (hne : tag ≠ 0) :
    ∃ t, ProtoWire.readTag r = .ok tag t ∧ t.Cut t' := by
  obtain ⟨bytes, rest, hr', -, hreads⟩ := exists_reads_readTag htag hne
  obtain ⟨t, u, ht, hu, hcut, -⟩ := h.of_reads hr' (hreads _)
  cases htag.symm.trans hu
  exact ⟨t, ht, hcut⟩

/-- If the first reader may go deeper, so may the second one. -/
theorem enterNested (henter : enterNested r = .ok () t) :
    ∃ t', ProtoWire.enterNested r' = .ok () t' ∧ t.Cut t' ∧ t'.remaining = r'.remaining := by
  obtain ⟨rfl, hlevels, hdepth⟩ := Reader.levels_of_enterNested henter
  have hlt : r'.depth.toNat < r'.recursionLimit.toNat := by
    have heq := h.levels_eq
    rw [Reader.levels] at heq
    omega
  have henter' : ProtoWire.enterNested r' = .ok () { r' with depth := r'.depth + 1 } := by
    refine enterNested_eq_ok.2 ⟨fun hle => ?_, rfl⟩
    exact absurd (UInt32.le_iff_toNat_le.1 hle) (Nat.not_le_of_lt hlt)
  obtain ⟨-, hlevels', hdepth'⟩ := Reader.levels_of_enterNested henter'
  refine ⟨_, henter', ?_, rfl⟩
  exact {
    sound := ⟨h.sound.limit_le, hdepth⟩
    sound_cut := ⟨h.sound_cut.limit_le, hdepth'⟩
    pos_le := h.pos_le
    levels_eq := by
      have heq := h.levels_eq
      omega
    first := h.first }

end Reader.Cut

/-! ### Records that break off -/

namespace WireRecord

variable {data part : Bytes} {type : WireType} {number : UInt32} {n : Nat}

/-- Records break off, with an error that says so. -/
inductive BreaksOff : Bytes → DecodeError → Prop where
  /-- In a tag. -/
  | tag {rs : List WireRecord} {part rest : Bytes} {full : UInt64} (hrs : ∀ r ∈ rs, r.Complete)
    (htag : Varint.Spells (part ++ rest) full) (hpart : part ≠ []) (hrest : rest ≠ []) :
    BreaksOff (rs.flatMap bytes ++ part) .truncated
  /-- In a payload that is no group. -/
  | payload {rs : List WireRecord} {r : WireRecord} {rest : Bytes} (hrs : ∀ r ∈ rs, r.Complete)
    (htag : r.Tagged) (htype : r.type ≠ .startGroup)
    (hwhole : Whole r.number r.type (r.payload ++ rest)) (hrest : rest ≠ []) :
    BreaksOff (rs.flatMap bytes ++ r.bytes) .truncated
  /-- Between the records of a group. -/
  | group {rs inner : List WireRecord} {r : WireRecord} (hrs : ∀ r ∈ rs, r.Complete)
    (htag : r.Tagged) (htype : r.type = .startGroup) (hinner : ∀ r ∈ inner, r.Complete)
    (hpayload : r.payload = inner.flatMap bytes) :
    BreaksOff (rs.flatMap bytes ++ r.bytes) .invalidEndTag
  /-- In a record of a group, or in its end tag. -/
  | inside {rs : List WireRecord} {r : WireRecord} {e : DecodeError} (hrs : ∀ r ∈ rs, r.Complete)
    (htag : r.Tagged) (htype : r.type = .startGroup) (hpayload : BreaksOff r.payload e) :
    BreaksOff (rs.flatMap bytes ++ r.bytes) e

theorem BreaksOff.cons {r : WireRecord} {data : Bytes} {e : DecodeError} (h : BreaksOff data e)
    (hr : r.Complete) : BreaksOff (r.bytes ++ data) e := by
  have hcons : ∀ {rs : List WireRecord}, (∀ s ∈ rs, s.Complete) → ∀ s ∈ r :: rs, s.Complete :=
    fun hrs => List.forall_mem_cons.2 ⟨hr, hrs⟩
  cases h with
  | tag hrs htag hpart hrest =>
    rw [← List.append_assoc, ← List.flatMap_cons]
    exact .tag (hcons hrs) htag hpart hrest
  | payload hrs htag htype hwhole hrest =>
    rw [← List.append_assoc, ← List.flatMap_cons]
    exact .payload (hcons hrs) htag htype hwhole hrest
  | group hrs htag htype hinner hpayload =>
    rw [← List.append_assoc, ← List.flatMap_cons]
    exact .group (hcons hrs) htag htype hinner hpayload
  | inside hrs htag htype hpayload =>
    rw [← List.append_assoc, ← List.flatMap_cons]
    exact .inside (hcons hrs) htag htype hpayload

theorem BreaksOff.error_eq {e : DecodeError} (h : BreaksOff data e) :
    e = .truncated ∨ e = .invalidEndTag := by
  induction h with
  | tag | payload => exact .inl rfl
  | group => exact .inr rfl
  | inside _ _ _ _ ih => exact ih

/-- The bytes are some of the records, or break off. -/
def EndsIn (rs : List WireRecord) (data : Bytes) : Prop :=
  (∃ k, data = (rs.take k).flatMap bytes) ∨ ∃ e, BreaksOff data e

/-- By induction on the records: the first one is there as a whole, or all is inside it. -/
theorem endsIn_of_prefix {rs : List WireRecord} (hrs : ∀ r ∈ rs, r.Complete)
    (hcut : ∀ r ∈ rs, ∀ {data rest : Bytes}, r.bytes = data ++ rest → data ≠ [] → rest ≠ [] →
      ∃ e, BreaksOff data e) (h : data <+: rs.flatMap bytes) : EndsIn rs data := by
  induction rs generalizing data with
  | nil => exact .inl ⟨0, List.prefix_nil.1 h⟩
  | cons r rs ih =>
    rw [List.forall_mem_cons] at hrs hcut
    obtain ⟨rest, hrest⟩ := h
    rw [List.flatMap_cons, List.append_eq_append_iff] at hrest
    rcases hrest with ⟨tail, hr, -⟩ | ⟨behind, rfl, hbehind⟩
    · by_cases hdata : data = []
      · exact .inl ⟨0, hdata⟩
      by_cases htail : tail = []
      · exact .inl ⟨1, by simp [hr, htail]⟩
      · exact .inr (hcut.1 hr hdata htail)
    · rcases ih hrs.2 hcut.2 ⟨rest, hbehind.symm⟩ with ⟨k, rfl⟩ | ⟨e, he⟩
      · exact .inl ⟨k + 1, by rw [List.take_succ_cons, List.flatMap_cons]⟩
      · exact .inr ⟨e, he.cons hrs.1⟩

/-- A record that is cut off breaks off in its tag, or in its payload. -/
theorem Tagged.exists_breaksOff {r : WireRecord} (hr : r.Tagged)
    (hpayload : ∀ {part rest : Bytes}, r.payload = part ++ rest → rest ≠ [] →
      ∃ e, BreaksOff (r.tagBytes ++ part) e) (h : r.bytes = data ++ rest) (hdata : data ≠ [])
    (hrest : rest ≠ []) : ∃ e, BreaksOff data e := by
  rw [bytes, List.append_eq_append_iff] at h
  rcases h with ⟨part, rfl, hpart⟩ | ⟨tail, htag, htail⟩
  · exact hpayload hpart hrest
  · by_cases hnil : tail = []
    · subst hnil
      rw [List.append_nil] at htag
      rw [List.nil_append] at htail
      have hempty := hpayload (List.nil_append r.payload).symm (htail ▸ hrest)
      rwa [List.append_nil, htag] at hempty
    · exact ⟨_, .tag (List.forall_mem_nil _) (htag ▸ hr.spells) hdata hnil⟩

theorem Tagged.breaksOff_payload {r : WireRecord} (hr : r.Tagged) (hnumber : r.number = number)
    (htype : r.type = type) (hgroup : type ≠ .startGroup) (h : Whole number type (part ++ rest))
    (hrest : rest ≠ []) : BreaksOff (r.tagBytes ++ part) .truncated := by
  subst hnumber htype
  exact @BreaksOff.payload [] { r with payload := part } rest (List.forall_mem_nil _)
    ⟨hr.spells, hr.number_ne, hr.type_eq⟩ hgroup h hrest

/-- By induction on the payload: that of a group ends in its records, or in its end tag. -/
theorem Whole.exists_breaksOff {payload : Bytes} (h : Whole number type payload) {r : WireRecord}
    (hr : r.Tagged) (hnumber : r.number = number) (htype : r.type = type)
    (hpart : payload = part ++ rest) (hrest : rest ≠ []) :
    ∃ e, BreaksOff (r.tagBytes ++ part) e := by
  induction h generalizing r part rest with
  | varint h =>
    exact ⟨_, hr.breaksOff_payload hnumber htype nofun (hpart ▸ .varint h) hrest⟩
  | i64 h => exact ⟨_, hr.breaksOff_payload hnumber htype nofun (hpart ▸ .i64 h) hrest⟩
  | i32 h => exact ⟨_, hr.breaksOff_payload hnumber htype nofun (hpart ▸ .i32 h) hrest⟩
  | len hheader hlength =>
    exact ⟨_, hr.breaksOff_payload hnumber htype nofun (hpart ▸ .len hheader hlength) hrest⟩
  | @group number rs full trailer htags hpayloads htrailer hend ih =>
    let cut : WireRecord := { r with payload := part }
    have hcut : cut.Tagged := ⟨hr.spells, hr.number_ne, hr.type_eq⟩
    have hnone : ∀ s ∈ ([] : List WireRecord), s.Complete := List.forall_mem_nil _
    have hrs : ∀ s ∈ rs, s.Complete := fun s hs => ⟨htags s hs, hpayloads s hs⟩
    rcases List.append_eq_append_iff.1 hpart with ⟨tail, rfl, htail⟩ | ⟨tail, hrecords, -⟩
    · by_cases hnil : tail = []
      · exact ⟨_, .group hnone hcut htype hrs (by simp [cut, hnil])⟩
      · exact ⟨_, .inside hnone hcut htype (.tag hrs (htail ▸ htrailer) hnil hrest)⟩
    · have hends : EndsIn rs part := by
        refine endsIn_of_prefix hrs (fun s hs data rest h => ?_) ⟨tail, hrecords.symm⟩
        exact (htags s hs).exists_breaksOff (ih s hs (htags s hs) rfl rfl) h
      rcases hends with ⟨k, hk⟩ | ⟨e, he⟩
      · exact ⟨_, .group hnone hcut htype (fun s hs => hrs s (List.mem_of_mem_take hs)) hk⟩
      · exact ⟨e, .inside hnone hcut htype he⟩

/-- Records that are cut off end between two of them, or break off. -/
theorem exists_breaksOff {rs : List WireRecord} (hrs : ∀ r ∈ rs, r.Complete) {data : Bytes}
    (h : data <+: rs.flatMap bytes) : EndsIn rs data := by
  refine endsIn_of_prefix hrs (fun r hr data rest h => ?_) h
  exact (hrs r hr).toTagged.exists_breaksOff
    ((hrs r hr).whole.exists_breaksOff (hrs r hr).toTagged rfl rfl) h

/-! ### Skipping -/

theorem readTag_cut {full : UInt64} (h : Varint.Spells (r.remaining ++ rest) full)
    (hpart : r.remaining ≠ []) (hrest : rest ≠ []) : readTag r = .error .truncated r := by
  have hend : ¬ r.atEnd = true := fun hend => hpart (Reader.remaining_of_atEnd hend)
  rw [readTag_apply, if_neg hend, readVarint32_eq, h.decode_cut hrest]

theorem skipRaw_cut (h : r.bytesLeft < n) : skipRaw n r = .error .truncated r := by
  unfold skipRaw
  rw [bind_of_error (by rw [readRaw_apply, if_pos h])]

theorem skipRaw_short {header behind : Bytes} {size : UInt64} (hcut : r.Cut r')
    (hheader : Varint.Spells header size) (hshort : behind.length < size.toUInt32.toNat)
    (hr' : r'.remaining = header ++ behind) (hread : readLength r = .ok n t) :
    ∃ s, (readLength >>= skipRaw) r' = .error .truncated s := by
  obtain ⟨more, hr⟩ := hcut.exists_remaining hr'
  obtain ⟨low, hlow, hpos, -⟩ := readLength_eq_ok.1 hread
  obtain ⟨full, k, hdecode, rfl, -⟩ := readVarint32_eq_ok.1 hlow
  rw [hr, hheader.append] at hdecode
  cases hdecode
  obtain ⟨u, u', -, hu', hcut', hremaining⟩ := hcut.of_reads hr' (reads_readLength hheader hpos)
  have hlt : u'.bytesLeft < size.toUInt32.toNat := by
    rw [hcut'.bytesLeft_eq, hremaining]
    exact hshort
  exact ⟨u', by rw [bind_of_ok hu', skipRaw_cut hlt]⟩

theorem skip_len_cut {header bytes : Bytes} {size : UInt64} (hcut : r.Cut r')
    (hheader : Varint.Spells header size) (hlength : bytes.length = size.toUInt32.toNat)
    (hpart : part ++ rest = header ++ bytes) (hrest : rest ≠ []) (hr' : r'.remaining = part)
    (hread : readLength r = .ok n t) : ∃ s, (readLength >>= skipRaw) r' = .error .truncated s := by
  have hpos := List.length_pos_of_ne_nil hrest
  rcases List.append_eq_append_iff.1 hpart with ⟨tail, rfl, rfl⟩ | ⟨behind, rfl, rfl⟩
  · by_cases hnil : tail = []
    · subst hnil
      rw [List.append_nil] at hheader
      refine skipRaw_short hcut hheader ?_ (hr'.trans (List.append_nil part).symm) hread
      rw [← hlength]
      exact hpos
    · have hlen : readLength r' = .error .truncated r' := by
        rw [readLength_apply, readVarint32_eq, hr', hheader.decode_cut hnil]
      exact ⟨r', bind_of_error hlen⟩
  · refine skipRaw_short hcut hheader ?_ hr' hread
    rw [← hlength, List.length_append]
    omega

/-- The payload of a record that is cut off, unless it is a group. -/
theorem Whole.skipField_cut (h : Whole number type (part ++ rest)) (hrest : rest ≠ [])
    (hgroup : type ≠ .startGroup) {tag : UInt32} (htype : Tag.wireType tag = .ok type) {more : Bool}
    (hcut : r.Cut r') (hr' : r'.remaining = part) (hskip : ProtoWire.skipField tag r = .ok more t) :
    ∃ s, ProtoWire.skipField tag r' = .error .truncated s := by
  have hleft := hcut.bytesLeft_eq
  have hpos := List.length_pos_of_ne_nil hrest
  rw [skipField_apply, skipPayload, htype] at hskip ⊢
  generalize hpart : part ++ rest = payload at h
  cases h with
  | varint h =>
    rw [← hpart] at h
    have hread : readVarint64 r' = .error .truncated r' := by
      rw [readVarint64_eq, hr', h.decode_cut hrest]
    exact ⟨r', bind_of_error hread⟩
  | i64 h | i32 h =>
    rw [← hpart, List.length_append] at h
    exact ⟨r', bind_of_error (skipRaw_cut (by rw [hleft, hr']; omega))⟩
  | len hheader hlength =>
    obtain ⟨n, u, hread, -⟩ := bind_eq_ok.1 hskip
    obtain ⟨s, hs⟩ := skip_len_cut hcut hheader hlength hpart hrest hr' hread
    simp only [← bind_assoc]
    exact ⟨s, bind_of_error hs⟩
  | group => exact absurd rfl hgroup

end WireRecord

end ProtoWire
