import ProtoWire.Proofs.Message.RoundTrip
import ProtoWire.Proofs.Wire.Complete

/-!
# The records of a message

A message is written as complete records and nothing else. All of them can be read, whatever enums
declare.
-/

namespace ProtoWire

variable {f : Field} {L : Layout} {S : Schema} {p : PlacedField} {levels : Nat}

/-! ### Records of a field -/

/-- The wire type that a field is written with. -/
def Field.wireType (f : Field) : WireType :=
  if f.strategy.cardinality.isPacked then .len else f.strategy.category.wireType

/-- The record that a field is written as, with a payload. -/
def Field.record (f : Field) (payload : Bytes) : WireRecord :=
  { tagBytes := writeTag f.primaryTag, tag := f.primaryTag.toUInt64, type := f.wireType, payload }

theorem Field.primaryTag_eq (f : Field) : f.primaryTag = Tag.make f.number f.wireType := by
  unfold Field.primaryTag Strategy.primaryTag Field.wireType
  split <;> rfl

section Tags

variable (hL : L.Valid) (hf : f ∈ L.fields) (payload : Bytes)

include hL hf

theorem Field.number_record : (f.record payload).number = f.number := by
  rw [WireRecord.number, Field.record, UInt32.toUInt32_toUInt64, f.primaryTag_eq,
    Tag.number_make (hL.number_lt f hf)]

theorem Field.tagged_record : (f.record payload).Tagged where
  spells := Varint.spells_encode _
  number_ne := by
    rw [f.number_record hL hf]
    exact hL.number_pos f hf
  type_eq := by
    rw [Field.record, UInt32.toUInt32_toUInt64, f.primaryTag_eq, Tag.wireType_make]

end Tags

/-- What is written behind the tags of nested messages. -/
def Field.nestedPayloads (S : Schema) (order : FieldOrder) (f : Field) (ms : List Message) :
    List Bytes :=
  match f.element.type? with
  | some t => ms.map fun m => f.nestedPayload (m.encode S order (S.layout t))
  | none => []

/-- What is written for a slot, each behind a tag of its own. -/
def Field.payloads (S : Schema) (order : FieldOrder) (f : Field) : Slot Message → List Bytes
  | .scalar kind value => [kind.write value]
  | .text value => [writeBlob (utf8Bytes value)]
  | .blob value => [writeBlob value]
  | .sub value => f.nestedPayloads S order value.toList
  | .scalars kind c =>
    if f.strategy.cardinality.isPacked then
      if c.values.isEmpty then [] else [writeBlob (c.values.flatMap kind.write)]
    else c.values.map kind.write
  | .texts c => c.values.map fun value => writeBlob (utf8Bytes value)
  | .blobs c => c.values.map writeBlob
  | .subs c => f.nestedPayloads S order c.values

/-- What is written for a slot is its payloads with their tags. -/
theorem Field.Fits.encodeSlot_eq {order : FieldOrder} (hL : L.Valid) (hf : f ∈ L.fields)
    {inner : TypeId → Message → Prop} {slot : Slot Message} (h : f.Fits inner slot)
    (hstored : slot.isStored = true) :
    encodeSlot S order f slot =
      (f.payloads S order slot).flatMap fun payload => (f.record payload).bytes := by
  have hnested := @writeNested_encode S f order (hL.packed f hf)
  cases h.shape with
  | scalar | text | blob => simp [encodeSlot, Field.payloads, Field.record, WireRecord.bytes]
  | @sub t value _ ht =>
    cases value with
    | none => cases hstored
    | some m =>
      simp [encodeSlot_sub ht, hnested, Field.payloads, Field.nestedPayloads, ht, Field.record,
        WireRecord.bytes]
  | @scalars kind c =>
    have hsize : packedSize kind.size c.values = (c.values.flatMap kind.write).length :=
      (length_flatMap kind.length_write c.values).symm
    rw [encodeSlot, Field.payloads]
    by_cases hpacked : f.strategy.cardinality.isPacked = true
    · rw [if_pos hpacked, if_pos hpacked, writePacked, hsize]
      split
      · rfl
      · simp [Field.record, WireRecord.bytes, writeBlob]
    · rw [if_neg hpacked, if_neg hpacked, List.flatMap_map]
      rfl
  | texts | blobs =>
    rw [encodeSlot, Field.payloads, List.flatMap_map]
    rfl
  | @subs t c _ ht =>
    simp [encodeSlot_subs ht, hnested, Field.payloads, Field.nestedPayloads, ht, List.flatMap_map,
      Field.record, WireRecord.bytes]

/-! ### Payloads by kind -/

/-- The kind of the numbers that an element is. -/
def Element.kind? : Element → Option Scalar
  | scalar kind _ => some kind
  | enum _ _ => some .int32
  | text _ | blob _ | message _ | group _ => none

/-- The payloads of a field, with contents of nested messages that have `P`. -/
inductive Field.Payload (P : TypeId → Bytes → Prop) (f : Field) : Bytes → Prop where
  | scalar {kind : Scalar} (value : kind.Value) (hkind : f.element.kind? = some kind)
    (hpacked : f.strategy.cardinality.isPacked = false) : Payload P f (kind.write value)
  | run {kind : Scalar} (values : List kind.Value) (hkind : f.element.kind? = some kind)
    (hpacked : f.strategy.cardinality.isPacked = true) :
    Payload P f (writeBlob (values.flatMap kind.write))
  | text {default : String} (value : String) (htext : f.element = .text default) :
    Payload P f (writeBlob (utf8Bytes value))
  | blob {default : Bytes} (value : Bytes) (hblob : f.element = .blob default) :
    Payload P f (writeBlob value)
  | nested {t : TypeId} {contents : Bytes} (ht : f.element.type? = some t) (h : P t contents) :
    Payload P f (f.nestedPayload contents)

theorem Field.Fits.payload {S : Schema} {order : FieldOrder} {f : Field}
    {inner : TypeId → Message → Prop} {slot : Slot Message} (h : f.Fits inner slot)
    {payload : Bytes} (hmem : payload ∈ f.payloads S order slot) :
    f.Payload (fun t contents => ∃ m ∈ slot.valueMessages, contents = m.encode S order (S.layout t))
      payload := by
  have hnested : ∀ ms : List Message, payload ∈ f.nestedPayloads S order ms →
      ms = slot.valueMessages → f.Payload (fun t contents => ∃ m ∈ slot.valueMessages,
        contents = m.encode S order (S.layout t)) payload := by
    rintro ms hmem rfl
    unfold Field.nestedPayloads at hmem
    split at hmem
    · rename_i t ht
      obtain ⟨m, hm, rfl⟩ := List.mem_map.1 hmem
      exact .nested ht ⟨m, hm, rfl⟩
    · cases hmem
  have hunpacked : f.isRepeated = false → f.strategy.cardinality.isPacked = false := by
    obtain ⟨_, _, element, placement⟩ := f
    cases placement with
    | singular | member => exact fun _ => rfl
    | repeated packed =>
      intro hsingle
      cases hsingle
  cases hrep : f.isRepeated with
  | false =>
    have hstores := h.holds.stores hrep
    generalize helement : f.element = element at hstores
    cases hstores with
    | scalar | enum =>
      obtain rfl := List.mem_singleton.1 hmem
      exact .scalar _ (by rw [helement]; rfl) (hunpacked hrep)
    | text =>
      obtain rfl := List.mem_singleton.1 hmem
      exact .text _ helement
    | blob =>
      obtain rfl := List.mem_singleton.1 hmem
      exact .blob _ helement
    | message | group => exact hnested _ hmem rfl
  | true =>
    have hcollects := h.holds.collects hrep
    generalize helement : f.element = element at hcollects
    cases hcollects with
    | scalar | enum =>
      rw [Field.payloads] at hmem
      split at hmem
      · rename_i hpacked
        split at hmem
        · cases hmem
        · obtain rfl := List.mem_singleton.1 hmem
          exact .run _ (by rw [helement]; rfl) hpacked
      · rename_i hpacked
        obtain ⟨value, -, rfl⟩ := List.mem_map.1 hmem
        exact .scalar value (by rw [helement]; rfl) (Bool.eq_false_iff.2 hpacked)
    | text =>
      obtain ⟨value, -, rfl⟩ := List.mem_map.1 hmem
      exact .text value helement
    | blob =>
      obtain ⟨value, -, rfl⟩ := List.mem_map.1 hmem
      exact .blob value helement
    | message | group => exact hnested _ hmem rfl

/-! ### Payloads are whole -/

open WireRecord (Whole Complete)

theorem Scalar.whole_write (kind : Scalar) (value : kind.Value) (number : UInt32) :
    Whole number kind.wireType (kind.write value) := by
  have hspells := kind.spells_write value
  cases kind with
  | double | fixed64 | sfixed64 => exact .i64 rfl
  | float | fixed32 | sfixed32 => exact .i32 rfl
  | int64 | uint64 | int32 | bool | uint32 | sint32 | sint64 =>
    obtain ⟨full, hfull, -⟩ := hspells
    exact .varint hfull

theorem whole_writeBlob {bytes : Bytes} (h : bytes.length < 2 ^ 32) (number : UInt32) :
    Whole number .len (writeBlob bytes) := by
  refine .len (Varint.spells_encode _) ?_
  rw [UInt64.toNat_toUInt32, Nat.toUInt64, UInt64.toNat_ofNat']
  omega

section Payloads

variable {P : TypeId → Bytes → Prop} {payload : Bytes}
  (hpackable : f.placement.cardinality.isPacked = true → f.element.category.isPackable = true)

include hpackable

theorem Field.wireType_of_unpackable (h : f.element.category.isPackable = false) :
    f.wireType = f.element.category.wireType := by
  unfold Field.wireType
  rw [if_neg]
  · rfl
  · intro hpacked
    rw [hpackable hpacked] at h
    cases h

/-- The payloads of a field are whole, if the contents of nested messages are complete records. -/
theorem Field.Payload.whole (h : f.Payload P payload) (hlength : payload.length < 2 ^ 32)
    (hP : ∀ t contents, f.element.type? = some t → P t contents → contents.length < 2 ^ 32 →
      ∃ rs : List WireRecord, contents = rs.flatMap WireRecord.bytes ∧ ∀ rec ∈ rs, rec.Complete) :
    Whole f.number f.wireType payload := by
  cases h with
  | @scalar kind value hkind hpacked =>
    have htype : f.wireType = kind.wireType := by
      unfold Field.wireType
      rw [if_neg (by simp [hpacked]), Field.strategy]
      cases helement : f.element <;> rw [helement] at hkind <;> cases hkind <;> rfl
    rw [htype]
    exact kind.whole_write value f.number
  | run values hkind hpacked =>
    rw [Field.wireType, if_pos hpacked]
    exact whole_writeBlob (length_lt_of_writeBlob hlength) f.number
  | text value helement | blob value helement =>
    rw [Field.wireType_of_unpackable hpackable (by rw [helement]; rfl), helement]
    exact whole_writeBlob (length_lt_of_writeBlob hlength) f.number
  | @nested t contents ht h =>
    cases helement : f.element with
    | message =>
      have hpayload : f.nestedPayload contents = writeBlob contents := by
        simp [Field.nestedPayload, helement, writeBlob]
      rw [Field.wireType_of_unpackable hpackable (by rw [helement]; rfl), helement, hpayload]
      rw [hpayload] at hlength
      exact whole_writeBlob (length_lt_of_writeBlob hlength) f.number
    | group =>
      have hpayload : f.nestedPayload contents =
          contents ++ writeTag (Tag.make f.number .endGroup) := by
        simp [Field.nestedPayload, helement]
      rw [hpayload, List.length_append] at hlength
      obtain ⟨rs, rfl, hrs⟩ := hP t contents ht h (by omega)
      rw [Field.wireType_of_unpackable hpackable (by rw [helement]; rfl), helement, hpayload]
      exact .group (fun rec hrec => (hrs rec hrec).toTagged) (fun rec hrec => (hrs rec hrec).whole)
        (Varint.spells_encode _) (UInt32.toUInt32_toUInt64 _)
    | scalar | enum | text | blob =>
      rw [helement] at ht
      cases ht

end Payloads

/-! ### Payloads are read -/

section Reading

variable (hS : S.Valid) {type : TypeId} {P : TypeId → Bytes → Prop} {payload : Bytes}

theorem Field.primaryForm_eq_run :
    f.primaryForm = .run ↔ f.strategy.cardinality.isPacked = true := by
  obtain ⟨_, _, _, placement⟩ := f
  cases placement with
  | repeated packed => cases packed <;> simp [Field.primaryForm, Field.strategy,
      Placement.cardinality, Cardinality.isPacked]
  | singular | member => simp [Field.primaryForm, Field.strategy, Placement.cardinality,
      Cardinality.isPacked]

theorem PlacedField.readUpdate_of_kind {kind : Scalar} (hkind : p.1.element.kind? = some kind)
    (read : Reading) : p.readUpdate read = Update.scalar p.2 kind <$> readScalar kind := by
  unfold PlacedField.readUpdate
  cases helement : p.1.element <;> rw [helement] at hkind <;> cases hkind <;> rfl

theorem PlacedField.exists_reads_run (h : p.1.Payload P payload)
    (hpackable : p.1.placement.cardinality.isPacked = true →
      p.1.element.category.isPackable = true)
    (hpacked : p.1.strategy.cardinality.isPacked = true) (hlength : payload.length < 2 ^ 31)
    {read : Reading} : ∃ us, Reads levels (p.readPackedUpdates read) payload us := by
  have hpack := hpackable hpacked
  cases h with
  | scalar value hkind hunpacked =>
    rw [hpacked] at hunpacked
    cases hunpacked
  | run values hkind =>
    exact ⟨_, p.reads_run (p.readUpdate_of_kind hkind read) (length_lt_of_writeBlob hlength)⟩
  | text value helement | blob value helement =>
    rw [helement] at hpack
    cases hpack
  | nested ht =>
    cases helement : p.1.element <;> rw [helement] at ht hpack <;> cases ht <;> cases hpack

include hS in
theorem PlacedField.exists_reads_value (h : p.1.Payload P payload)
    (hpacked : p.1.strategy.cardinality.isPacked = false)
    (hlength : payload.length < 2 ^ 31) (hpos : p.1.number ≠ 0) (hlt : p.1.number < 0x20000000)
    (hP : ∀ t contents, p.1.element.type? = some t → P t contents → contents.length < 2 ^ 31 →
      ∃ below us, levels = below + 1 ∧ Conveys below (readContents S t) contents us) :
    ∃ u, Reads levels (p.readUpdate (readContents S)) payload u := by
  cases h with
  | @scalar kind value hkind =>
    rw [p.readUpdate_of_kind hkind]
    exact ⟨_, (reads_readScalar (kind.spells_write value)).map _⟩
  | run values hkind hrun =>
    rw [hpacked] at hrun
    cases hrun
  | text value helement =>
    simp only [PlacedField.readUpdate, helement]
    exact ⟨_, (reads_readText (length_lt_of_writeBlob hlength)).map _⟩
  | blob value helement =>
    simp only [PlacedField.readUpdate, helement]
    exact ⟨_, (reads_readBlob (length_lt_of_writeBlob hlength)).map _⟩
  | @nested t contents ht h =>
    have hshort : contents.length < 2 ^ 31 := by
      unfold Field.nestedPayload at hlength
      split at hlength
      · rw [List.length_append] at hlength
        omega
      · rw [List.length_append] at hlength
        omega
    obtain ⟨below, us, rfl, hconveys⟩ := hP t contents ht h hshort
    rw [PlacedField.readUpdate_of_type ht]
    exact ⟨_, (reads_nestedPayload hS ht hpos hlt hshort hconveys).map _⟩

include hS in
theorem PlacedField.exists_conveys_record (hp : (S.layout type).fields[p.2]? = some p.1)
    (h : p.1.Payload P payload) (hlength : payload.length < 2 ^ 31)
    (hP : ∀ t contents, p.1.element.type? = some t → P t contents → contents.length < 2 ^ 31 →
      ∃ below us, levels = below + 1 ∧ Conveys below (readContents S t) contents us) :
    ∃ us, Conveys levels (readContents S type) (p.1.record payload).bytes us := by
  have hmem := List.mem_of_getElem? hp
  have hroute := p.route_primaryTag hS hp
  suffices hpayload : ∃ us, Reads levels
      (readPayload (readContents S) (S.layout type) p.1.primaryTag) payload (us, true) from
    hpayload.imp fun us hus => p.conveys_primary hS hp hus
  unfold readPayload
  rw [hroute]
  cases hform : p.1.primaryForm with
  | run =>
    have hpacked := Field.primaryForm_eq_run.1 hform
    obtain ⟨us, hus⟩ := p.exists_reads_run h ((hS type).packed _ hmem) hpacked hlength
    exact ⟨us, hus.bind_pure rfl⟩
  | value | element =>
    have hpacked : p.1.strategy.cardinality.isPacked = false := by
      rw [Bool.eq_false_iff, ne_eq, ← Field.primaryForm_eq_run, hform]
      exact nofun
    obtain ⟨u, hu⟩ := p.exists_reads_value hS h hpacked hlength
      ((hS type).number_pos _ hmem) ((hS type).number_lt _ hmem) hP
    exact ⟨_, hu.bind_pure rfl⟩

end Reading

/-! ### Records of a message -/

/-- The records that are written for a field of a message. -/
def Message.recordsOf (S : Schema) (order : FieldOrder) (m : Message) (p : PlacedField) :
    List WireRecord :=
  match m.slots[p.2]? with
  | some slot =>
    if p.1.isPresent m.presence m.cases slot then (p.1.payloads S order slot).map p.1.record else []
  | none => []

/-- The records that are written for a message. -/
def Message.records (S : Schema) (order : FieldOrder) (L : Layout) (m : Message) :
    List WireRecord :=
  (L.placed order).flatMap (m.recordsOf S order)

section Messages

variable (hS : S.Valid) {order : FieldOrder} {type : TypeId} {m : Message}

theorem Message.exists_of_mem_recordsOf {rec : WireRecord} (h : rec ∈ m.recordsOf S order p) :
    ∃ slot payload, m.slots[p.2]? = some slot ∧ p.1.isPresent m.presence m.cases slot = true ∧
      payload ∈ p.1.payloads S order slot ∧ rec = p.1.record payload := by
  unfold Message.recordsOf at h
  split at h
  · rename_i slot hslot
    split at h
    · rename_i hpresent
      obtain ⟨payload, hpayload, rfl⟩ := List.mem_map.1 h
      exact ⟨slot, payload, hslot, hpresent, hpayload, rfl⟩
    · cases h
  · cases h

theorem Message.Fits.isStored_of_isPresent (hm : m.Fits S type) {i : Nat}
    (hf : (S.layout type).fields[i]? = some f) {slot : Slot Message}
    (hslot : m.slots[i]? = some slot) (hpresent : f.isPresent m.presence m.cases slot = true) :
    slot.isStored = true := by
  refine hm.isStored_of_shown hf hslot fun hrep => ?_
  rwa [Field.isPresent_of_singular hrep] at hpresent

include hS

theorem Message.Fits.tagged_of_mem_recordsOf (hp : (S.layout type).fields[p.2]? = some p.1)
    {rec : WireRecord} (h : rec ∈ m.recordsOf S order p) :
    rec.Tagged ∧ rec.number = p.1.number := by
  obtain ⟨slot, payload, -, -, -, rfl⟩ := Message.exists_of_mem_recordsOf h
  have hmem := List.mem_of_getElem? hp
  exact ⟨p.1.tagged_record (hS type) hmem payload, p.1.number_record (hS type) hmem payload⟩

/-- Nothing but records is written. -/
theorem Message.Fits.encode_eq_records (hm : m.Fits S type) :
    m.encode S order (S.layout type) =
      (m.records S order (S.layout type)).flatMap WireRecord.bytes := by
  rw [Message.encode_eq_flatMap S order hm.length, Message.records, List.flatMap_assoc]
  refine List.flatMap_congr fun p hp => ?_
  have hf := Layout.getElem?_of_mem_placed hp
  obtain ⟨slot, hslot⟩ := hm.exists_slot hf
  rw [Message.written_eq hslot, Message.recordsOf, hslot]
  simp only
  split
  · rename_i hpresent
    rw [(hm.atSlot hf hslot).encodeSlot_eq (hS type) (List.mem_of_getElem? hf)
      (hm.isStored_of_isPresent hf hslot hpresent), List.flatMap_map]
  · rfl

/-- A record that is written is complete. By induction on the message: the records of a group are
those of a message inside. -/
theorem Message.Fits.complete_of_mem_records (hm : m.Fits S type)
    (hlength : (m.encode S order (S.layout type)).length < 2 ^ 32) :
    ∀ rec ∈ m.records S order (S.layout type), rec.Complete := by
  induction hm with
  | @step type m hm ih =>
    intro rec hrec
    have hshort : rec.bytes.length < 2 ^ 32 := by
      rw [hm.encode_eq_records hS] at hlength
      exact Nat.lt_of_le_of_lt (length_le_of_mem WireRecord.bytes hrec) hlength
    obtain ⟨p, hp, hrec⟩ := List.mem_flatMap.1 hrec
    have hf := Layout.getElem?_of_mem_placed hp
    have hmem := List.mem_of_getElem? hf
    obtain ⟨slot, payload, hslot, hpresent, hpayload, rfl⟩ := Message.exists_of_mem_recordsOf hrec
    refine ⟨p.1.tagged_record (hS type) hmem payload, ?_⟩
    rw [p.1.number_record (hS type) hmem]
    rw [WireRecord.bytes, List.length_append] at hshort
    refine ((hm.atSlot hf hslot).payload hpayload).whole ((hS type).packed _ hmem)
      (Nat.lt_of_le_of_lt (Nat.le_add_left ..) hshort) ?_
    rintro t _ ht ⟨m', hm', rfl⟩ hlength'
    have hsub := slot.valueMessages_subset hm'
    exact ⟨_, ((hm.atSlot hf hslot).inner t ht m' hsub).encode_eq_records hS,
      ih hf hslot t ht m' hsub hlength'⟩

omit hS in
theorem exists_conveys_flatMap {x : Read (List Update)} {rs : List WireRecord}
    (h : ∀ rec ∈ rs, ∃ us, Conveys levels x rec.bytes us) :
    ∃ us, Conveys levels x (rs.flatMap WireRecord.bytes) us := by
  induction rs with
  | nil => exact ⟨[], .nil⟩
  | cons rec rs ih =>
    obtain ⟨us, hus⟩ := h rec List.mem_cons_self
    obtain ⟨us', hus'⟩ := ih fun rec hrec => h rec (List.mem_cons_of_mem _ hrec)
    exact ⟨us ++ us', hus.append hus'⟩

/-- What is written for a message can be read, if there are as many levels as it nests. -/
theorem Message.Fits.exists_conveys_records (hm : m.Fits S type) {depth : Nat}
    (hparts : ∀ part ∈ m.parts S type depth, part.depth ≤ depth + levels)
    (hlength : (m.encode S order (S.layout type)).length < 2 ^ 31) :
    ∃ us, Conveys levels (readContents S type) (m.encode S order (S.layout type)) us := by
  induction hm generalizing levels depth with
  | @step type m hm ih =>
    rw [hm.encode_eq_records hS] at hlength ⊢
    refine exists_conveys_flatMap fun rec hrec => ?_
    have hshort : rec.bytes.length < 2 ^ 31 :=
      Nat.lt_of_le_of_lt (length_le_of_mem WireRecord.bytes hrec) hlength
    obtain ⟨p, hp, hrec⟩ := List.mem_flatMap.1 hrec
    have hf := Layout.getElem?_of_mem_placed hp
    obtain ⟨slot, payload, hslot, hpresent, hpayload, rfl⟩ := Message.exists_of_mem_recordsOf hrec
    rw [WireRecord.bytes, List.length_append] at hshort
    refine p.exists_conveys_record hS hf ((hm.atSlot hf hslot).payload hpayload)
      (Nat.lt_of_le_of_lt (Nat.le_add_left ..) hshort) ?_
    rintro t _ ht ⟨m', hm', rfl⟩ hlength'
    have hsubset : m'.parts S t (depth + 1) ⊆ m.parts S type depth :=
      Message.parts_subset hf hslot hpresent ht hm'
    have hdepth : depth + 1 ≤ depth + levels := hparts _ (hsubset (m'.mem_parts S t (depth + 1)))
    obtain ⟨below, rfl⟩ : ∃ n, levels = n + 1 := ⟨levels - 1, by omega⟩
    have hparts' : ∀ part ∈ m'.parts S t (depth + 1), part.depth ≤ depth + 1 + below := by
      intro part hpart
      have := hparts part (hsubset hpart)
      omega
    obtain ⟨us, hus⟩ := ih hf hslot t ht m' (slot.valueMessages_subset hm') hparts'
      hlength'
    exact ⟨below, us, rfl, hus⟩

end Messages

end ProtoWire
