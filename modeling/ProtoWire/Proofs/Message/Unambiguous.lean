import ProtoWire.Proofs.Message.Exclusive
import ProtoWire.Proofs.Wire.Unambiguous

/-!
# Messages that are told apart by their bytes

* `equality_is_equality_of_encodings`: messages in use are equal if they are encoded alike.
-/

namespace ProtoWire

variable {f : Field} {payload payload' : Bytes} {m : Message} {S : Schema} {type : TypeId}
  {slot : Slot Message}

/-! ### Payloads -/

/-- What a field is written with never ends a group. -/
theorem Field.wireType_ne_endGroup (f : Field) : f.wireType ≠ .endGroup := by
  unfold Field.wireType
  split
  · intro h
    cases h
  · obtain ⟨_, _, element, _⟩ := f
    cases element with
    | scalar kind => cases kind <;> exact WireType.noConfusion
    | enum | text | blob | message | group => exact WireType.noConfusion

theorem Element.kind?_wireType {element : Element} {kind : Scalar}
    (h : element.kind? = some kind) : element.category.wireType = kind.wireType := by
  cases element <;> cases h <;> rfl

theorem Scalar.wireType_ne_len (kind : Scalar) : kind.wireType ≠ .len := by
  cases kind <;> exact WireType.noConfusion

section Payloads

variable {P P' : TypeId → Bytes → Prop}
  (hpackable : f.placement.cardinality.isPacked = true → f.element.category.isPackable = true)

include hpackable

theorem Field.Payload.cases_wireType (h : f.Payload P payload) :
    (f.wireType = .len ∧ ∃ bytes, payload = writeBlob bytes) ∨
      (∃ t contents, f.element = .group t ∧ f.wireType = .startGroup ∧ P t contents ∧
        payload = contents ++ writeTag (Tag.make f.number .endGroup)) ∨
      ∃ kind value, f.element.kind? = some kind ∧ f.wireType = kind.wireType ∧
        payload = kind.write value := by
  cases h with
  | @scalar kind value hkind hpacked =>
    refine .inr (.inr ⟨kind, value, hkind, ?_, rfl⟩)
    rw [Field.wireType, if_neg (by simp [hpacked])]
    exact Element.kind?_wireType hkind
  | run values hkind hpacked => exact .inl ⟨if_pos hpacked, _, rfl⟩
  | text value helement | blob value helement =>
    refine .inl ⟨?_, _, rfl⟩
    rw [Field.wireType_of_unpackable hpackable (by rw [helement]; rfl), helement]
    rfl
  | @nested t contents ht h =>
    cases helement : f.element with
    | message =>
      refine .inl ⟨?_, contents, by simp [Field.nestedPayload, helement, writeBlob]⟩
      rw [Field.wireType_of_unpackable hpackable (by rw [helement]; rfl), helement]
      rfl
    | group t' =>
      rw [helement] at ht
      cases ht
      refine .inr (.inl ⟨t, contents, rfl, ?_, h, by simp [Field.nestedPayload, helement]⟩)
      rw [Field.wireType_of_unpackable hpackable (by rw [helement]; rfl), helement]
      rfl
    | scalar | enum | text | blob =>
      rw [helement] at ht
      cases ht

/-- Two payloads of a field are told apart, if the contents of groups are. -/
theorem Field.Payload.separates (h : f.Payload P payload) (h' : f.Payload P' payload')
    (hlength : payload.length < 2 ^ 64) (hlength' : payload'.length < 2 ^ 64)
    (hgroup : ∀ t contents contents', f.element = .group t → P t contents → P' t contents' →
      Separates (· ++ writeTag (Tag.make f.number .endGroup)) contents contents') :
    Separates id payload payload' := by
  intro r s heq
  rcases h.cases_wireType hpackable with ⟨htype, bytes, rfl⟩ |
      ⟨t, contents, helement, htype, hcontents, rfl⟩ | ⟨kind, value, hkind, htype, rfl⟩ <;>
    rcases h'.cases_wireType hpackable with ⟨htype', bytes', rfl⟩ |
      ⟨t', contents', helement', htype', hcontents', rfl⟩ | ⟨kind', value', hkind', htype', rfl⟩
  · obtain ⟨rfl, rfl⟩ := separates_writeBlob (length_lt_of_writeBlob hlength)
      (length_lt_of_writeBlob hlength') r s heq
    exact ⟨rfl, rfl⟩
  · exact WireType.noConfusion (htype.symm.trans htype')
  · exact absurd (htype'.symm.trans htype) kind'.wireType_ne_len
  · exact WireType.noConfusion (htype.symm.trans htype')
  · cases helement.symm.trans helement'
    obtain ⟨rfl, rfl⟩ := hgroup t contents contents' helement hcontents hcontents' r s heq
    exact ⟨rfl, rfl⟩
  · rw [helement] at hkind'
    cases hkind'
  · exact absurd (htype.symm.trans htype') kind.wireType_ne_len
  · rw [helement'] at hkind
    cases hkind
  · cases hkind.symm.trans hkind'
    obtain ⟨rfl, rfl⟩ := kind.separates_write value value' r s heq
    exact ⟨rfl, rfl⟩

end Payloads

/-! ### Records -/

/-- The bytes start with the tag of no field. -/
def Layout.EndsBefore (L : Layout) (bytes : Bytes) : Prop :=
  ∀ f ∈ L.fields, ¬ writeTag f.primaryTag <+: bytes

theorem Layout.endsBefore_nil (L : Layout) : L.EndsBefore [] := fun _ _ h =>
  (Varint.spells_encode _).ne_nil (List.prefix_nil.1 h)

theorem Layout.endsBefore_endGroup (L : Layout) (number : UInt32) (rest : Bytes) :
    L.EndsBefore (writeTag (Tag.make number .endGroup) ++ rest) := by
  rintro f - ⟨after, hafter⟩
  obtain ⟨htag, -⟩ := separates_writeTag _ _ _ _ hafter
  have htype := congrArg Tag.wireType htag
  rw [f.primaryTag_eq, Tag.wireType_make, Tag.wireType_make, Except.ok.injEq] at htype
  exact f.wireType_ne_endGroup htype

/-- Records of the fields of a layout are told apart, if payloads of the same field are. -/
theorem Layout.Valid.separates_record {L : Layout} (hL : L.Valid) {g : Field} (hf : f ∈ L.fields)
    (hg : g ∈ L.fields) (h : f = g → Separates id payload payload') :
    Separates WireRecord.bytes (f.record payload) (g.record payload') := by
  intro r s heq
  rw [WireRecord.bytes, WireRecord.bytes, List.append_assoc, List.append_assoc] at heq
  obtain ⟨htag, hrest⟩ := separates_writeTag f.primaryTag g.primaryTag _ _ heq
  have hnumber := congrArg Tag.number htag
  rw [f.primaryTag_eq, g.primaryTag_eq, Tag.number_make (hL.number_lt f hf),
    Tag.number_make (hL.number_lt g hg)] at hnumber
  obtain rfl := hL.field_eq hf hg hnumber
  obtain ⟨rfl, rfl⟩ := h rfl r s hrest
  exact ⟨rfl, rfl⟩

section Records

variable (hS : S.Valid) {order : FieldOrder} {n : Message}

theorem Message.not_prefix_of_endsBefore {r : Bytes} (hr : (S.layout type).EndsBefore r) :
    ∀ rec ∈ m.records S order (S.layout type), ¬ rec.bytes <+: r := by
  intro rec hrec hprefix
  obtain ⟨p, hp, hrec⟩ := List.mem_flatMap.1 hrec
  obtain ⟨slot, payload, -, -, -, rfl⟩ := Message.exists_of_mem_recordsOf hrec
  exact hr p.1 (List.mem_of_getElem? (Layout.getElem?_of_mem_placed hp))
    ((List.prefix_append _ _).trans hprefix)

include hS

theorem Message.Fits.length_payload_le (hm : m.Fits S type) {rec : WireRecord}
    (hrec : rec ∈ m.records S order (S.layout type)) :
    rec.payload.length ≤ (m.encode S order (S.layout type)).length := by
  rw [hm.encode_eq_records hS]
  have hle := length_le_of_mem WireRecord.bytes hrec
  rw [WireRecord.bytes, List.length_append] at hle
  omega

/-- The bytes of a message tell its records, and where it ends. By induction on the message: the
contents of a group end before its end tag. -/
theorem Message.Fits.records_eq (hm : m.Fits S type) (hn : n.Fits S type)
    (hlength : (m.encode S order (S.layout type)).length < 2 ^ 64)
    (hlength' : (n.encode S order (S.layout type)).length < 2 ^ 64) {r s : Bytes}
    (hr : (S.layout type).EndsBefore r) (hs : (S.layout type).EndsBefore s)
    (heq : m.encode S order (S.layout type) ++ r = n.encode S order (S.layout type) ++ s) :
    m.records S order (S.layout type) = n.records S order (S.layout type) ∧ r = s := by
  induction hm generalizing n r s with
  | @step type m hm ih =>
    rw [hm.encode_eq_records hS, hn.encode_eq_records hS] at heq
    refine Separates.flatMap (fun rec hrec rec' hrec' => ?_)
      (Message.not_prefix_of_endsBefore hr) (Message.not_prefix_of_endsBefore hs) heq
    have hlt := (hm.length_payload_le hS hrec).trans_lt hlength
    have hlt' := (hn.length_payload_le hS hrec').trans_lt hlength'
    obtain ⟨p, hp, hrec⟩ := List.mem_flatMap.1 hrec
    obtain ⟨q, hq, hrec'⟩ := List.mem_flatMap.1 hrec'
    have hf := Layout.getElem?_of_mem_placed hp
    have hg := Layout.getElem?_of_mem_placed hq
    obtain ⟨slot, payload, hslot, hpresent, hpayload, rfl⟩ := Message.exists_of_mem_recordsOf hrec
    obtain ⟨slot', payload', hslot', hpresent', hpayload', rfl⟩ :=
      Message.exists_of_mem_recordsOf hrec'
    refine (hS type).separates_record (List.mem_of_getElem? hf) (List.mem_of_getElem? hg) ?_
    intro hfield
    have hpayload' := (hn.atSlot hg hslot').payload hpayload'
    rw [← hfield] at hpayload'
    refine ((hm.atSlot hf hslot).payload hpayload).separates
      ((hS type).packed _ (List.mem_of_getElem? hf)) hpayload' hlt hlt' ?_
    rintro t _ _ helement ⟨m', hm', rfl⟩ ⟨n', hn', rfl⟩ r s heq
    have ht : p.1.element.type? = some t := by rw [helement]; rfl
    have ht' : q.1.element.type? = some t := hfield ▸ ht
    have hsub := slot.valueMessages_subset hm'
    have hsub' := slot'.valueMessages_subset hn'
    have hfits := (hm.atSlot hf hslot).inner t ht m' hsub
    have hfits' := (hn.atSlot hg hslot').inner t ht' n' hsub'
    have hle := Message.length_encode_lt (S := S) hm.length hp hslot hpresent ht hm'
    have hle' := Message.length_encode_lt (S := S) hn.length hq hslot' hpresent' ht' hn'
    rw [List.append_assoc, List.append_assoc] at heq
    obtain ⟨hrecords, hrest⟩ := ih hf hslot t ht m' hsub hfits' (by omega) (by omega)
      (Layout.endsBefore_endGroup _ _ _) (Layout.endsBefore_endGroup _ _ _) heq
    refine ⟨?_, List.append_cancel_left hrest⟩
    rw [hfits.encode_eq_records hS, hfits'.encode_eq_records hS, hrecords]

end Records

/-! ### Values -/

theorem writeBlob_inj {bytes bytes' : Bytes} (h : writeBlob bytes = writeBlob bytes') :
    bytes = bytes' :=
  (Varint.separates_encode _ _ _ _ h).2

theorem Field.nestedPayload_inj {contents contents' : Bytes}
    (h : f.nestedPayload contents = f.nestedPayload contents') : contents = contents' := by
  unfold Field.nestedPayload at h
  split at h
  · exact List.append_cancel_right h
  · exact writeBlob_inj h

section Slots

variable {order : FieldOrder} {slot' : Slot Message}

theorem Field.payloads_sub {t : TypeId} (ht : f.element.type? = some t) (m : Message) :
    f.payloads S order (.sub (some m)) = [f.nestedPayload (m.encode S order (S.layout t))] := by
  simp [Field.payloads, Field.nestedPayloads, ht]

theorem Field.payloads_subs {t : TypeId} (ht : f.element.type? = some t) (c : Repeated Message) :
    f.payloads S order (.subs c) =
      c.values.map fun m => f.nestedPayload (m.encode S order (S.layout t)) := by
  simp [Field.payloads, Field.nestedPayloads, ht]

theorem Field.values_eq_of_payloads_eq {kind : Scalar} {c c' : Repeated kind.Value}
    (h : f.payloads S order (.scalars kind c) = f.payloads S order (.scalars kind c')) :
    c.values = c'.values := by
  have hne : ∀ value, kind.write value ≠ [] := fun value => (kind.spells_write value).ne_nil
  simp only [Field.payloads] at h
  split at h
  · split at h
    · rename_i hnil
      split at h
      · rename_i hnil'
        rw [List.isEmpty_iff.1 hnil, List.isEmpty_iff.1 hnil']
      · cases h
    · split at h
      · cases h
      · exact Separates.eq_of_flatMap (fun x _ y _ => kind.separates_write x y) hne
          (writeBlob_inj (List.singleton_inj.1 h))
  · exact List.map_injective_iff.2 (fun x y => (kind.separates_write x y).eq) h

/-- The payloads of a slot tell what is seen of it, if the contents of messages tell what is present
in them. -/
theorem Field.Fits.gistSlot_eq {inner inner' : TypeId → Message → Prop} (h : f.Fits inner slot)
    (h' : f.Fits inner' slot') (hstored : slot.isStored = true) (hstored' : slot'.isStored = true)
    (hpayloads : f.payloads S order slot = f.payloads S order slot')
    (hinner : ∀ t ∈ f.element.type?, ∀ m ∈ slot.valueMessages, ∀ n ∈ slot'.valueMessages,
      m.encode S order (S.layout t) = n.encode S order (S.layout t) →
        m.gist S (S.layout t) = n.gist S (S.layout t)) :
    gistSlot S f slot = gistSlot S f slot' := by
  cases h.pair h' hstored hstored' with
  | scalar value value' =>
    rw [(Scalar.separates_write _ value value').eq (List.singleton_inj.1 hpayloads)]
  | text value value' =>
    rw [utf8Bytes_inj (writeBlob_inj (List.singleton_inj.1 hpayloads))]
  | blob value value' => rw [writeBlob_inj (List.singleton_inj.1 hpayloads)]
  | @sub t ht m n =>
    rw [Field.payloads_sub ht, Field.payloads_sub ht, List.singleton_inj] at hpayloads
    rw [gistSlot_sub ht, gistSlot_sub ht, hinner t ht m (List.mem_singleton_self m) n
      (List.mem_singleton_self n) (Field.nestedPayload_inj hpayloads)]
  | scalars c c' =>
    simp only [ProtoWire.gistSlot, ProtoWire.stripSlot, ProtoWire.viewSlot,
      Field.values_eq_of_payloads_eq hpayloads]
  | texts c c' =>
    have hvalues : c.values = c'.values :=
      List.map_injective_iff.2 (fun _ _ heq => utf8Bytes_inj (writeBlob_inj heq)) hpayloads
    simp only [ProtoWire.gistSlot, ProtoWire.stripSlot, ProtoWire.viewSlot, hvalues]
  | blobs c c' =>
    have hvalues : c.values = c'.values :=
      List.map_injective_iff.2 (fun _ _ heq => writeBlob_inj heq) hpayloads
    simp only [ProtoWire.gistSlot, ProtoWire.stripSlot, ProtoWire.viewSlot, hvalues]
  | @subs t ht c c' =>
    rw [Field.payloads_subs ht, Field.payloads_subs ht] at hpayloads
    rw [gistSlot_subs ht, gistSlot_subs ht, map_eq_of_map_eq hpayloads fun m hm n hn heq =>
      hinner t ht m hm n hn (Field.nestedPayload_inj heq)]

theorem Field.payloads_of_isEmpty (h : slot.isEmpty = true) : f.payloads S order slot = [] := by
  cases slot with
  | scalar | text | blob | sub => cases h
  | scalars kind c | texts c | blobs c =>
    have hnil : c.values = [] := List.isEmpty_iff.1 h
    simp [Field.payloads, hnil]
  | subs c =>
    have hnil : c.values = [] := List.isEmpty_iff.1 h
    have hpayloads : f.payloads S order (.subs c) = f.nestedPayloads S order c.values := rfl
    rw [hpayloads, hnil, Field.nestedPayloads]
    split <;> rfl

end Slots

/-! ### Messages -/

theorem eq_of_flatMap_eq_of_key {α β κ : Type} [DecidableEq κ] {key : β → κ} {k : α → κ}
    {g h : α → List β} {ps : List α} (hps : (ps.map k).Nodup)
    (hg : ∀ p ∈ ps, ∀ b ∈ g p, key b = k p) (hh : ∀ p ∈ ps, ∀ b ∈ h p, key b = k p)
    (heq : ps.flatMap g = ps.flatMap h) : ∀ p ∈ ps, g p = h p := by
  induction ps with
  | nil => exact fun p hp => absurd hp List.not_mem_nil
  | cons p ps ih =>
    rw [List.map_cons, List.nodup_cons] at hps
    rw [List.forall_mem_cons] at hg hh ⊢
    have hown : ∀ {g : α → List β}, (∀ b ∈ g p, key b = k p) →
        (g p).filter (key · == k p) = g p := fun hg =>
      List.filter_eq_self.2 fun b hb => beq_iff_eq.2 (hg b hb)
    have hother : ∀ {g : α → List β}, (∀ q ∈ ps, ∀ b ∈ g q, key b = k q) →
        (ps.flatMap g).filter (key · == k p) = [] := by
      intro g hg
      refine List.filter_eq_nil_iff.2 fun b hb hkey => ?_
      obtain ⟨q, hq, hb⟩ := List.mem_flatMap.1 hb
      exact hps.1 (List.mem_map.2 ⟨q, hq, (hg q hq b hb).symm.trans (beq_iff_eq.1 hkey)⟩)
    rw [List.flatMap_cons, List.flatMap_cons] at heq
    have hfirst : g p = h p := by
      have hfilter := congrArg (List.filter (key · == k p)) heq
      rwa [List.filter_append, List.filter_append, hown hg.1, hown hh.1, hother hg.2, hother hh.2,
        List.append_nil, List.append_nil] at hfilter
    rw [hfirst, List.append_cancel_left_eq] at heq
    exact ⟨hfirst, ih hps.2 hg.2 hh.2 heq⟩

section Messages

variable (hS : S.Valid) {order : FieldOrder} {n : Message} (hm : m.Fits S type) (hn : n.Fits S type)

theorem Layout.Valid.nodup_placed {L : Layout} (hL : L.Valid) (order : FieldOrder) :
    ((L.placed order).map fun p => p.1.number).Nodup := by
  have hfields := (L.placed_perm order).map Prod.fst
  rw [List.zipIdx_map_fst] at hfields
  have hperm := hfields.map Field.number
  rw [List.map_map] at hperm
  exact hperm.nodup_iff.2 hL.numbers

include hS in
theorem Message.recordsOf_eq
    (h : m.records S order (S.layout type) = n.records S order (S.layout type)) :
    ∀ p ∈ (S.layout type).placed order, m.recordsOf S order p = n.recordsOf S order p :=
  eq_of_flatMap_eq_of_key ((hS type).nodup_placed order)
    (fun _ hp _ hrec => (Message.Fits.tagged_of_mem_recordsOf hS
      (Layout.getElem?_of_mem_placed hp) hrec).2)
    (fun _ hp _ hrec => (Message.Fits.tagged_of_mem_recordsOf hS
      (Layout.getElem?_of_mem_placed hp) hrec).2) h

theorem Message.recordsOf_eq_map {p : PlacedField} (hslot : m.slots[p.2]? = some slot)
    (hmarked : p.1.isRepeated = false → p.1.isMarked m.presence m.cases = true) :
    m.recordsOf S order p = (p.1.payloads S order slot).map p.1.record := by
  rw [Message.recordsOf, hslot]
  simp only
  cases hrep : p.1.isRepeated with
  | false => rw [Field.isPresent_of_singular hrep, if_pos (hmarked hrep)]
  | true =>
    rw [Field.isPresent_of_repeated hrep]
    cases hempty : slot.isEmpty with
    | false => rfl
    | true => rw [Field.payloads_of_isEmpty hempty]; rfl

theorem Field.isPresent_of_mem {m' : Message} (hm' : m' ∈ slot.valueMessages)
    (hmarked : f.isRepeated = false → f.isMarked m.presence m.cases = true) :
    f.isPresent m.presence m.cases slot = true := by
  cases hrep : f.isRepeated with
  | false => rw [Field.isPresent_of_singular hrep, hmarked hrep]
  | true =>
    rw [Field.isPresent_of_repeated hrep]
    cases slot with
    | subs c =>
      obtain ⟨values, _⟩ := c
      cases values with
      | nil => cases hm'
      | cons => rfl
    | sub => rfl
    | scalar | text | blob | scalars | texts | blobs => cases hm'

theorem Field.record_inj (h : f.record payload = f.record payload') : payload = payload' :=
  congrArg WireRecord.payload h

include hS hm hn

theorem Message.Fits.isMarked_eq
    (h : ∀ p ∈ (S.layout type).placed order, m.recordsOf S order p = n.recordsOf S order p) :
    ∀ f ∈ (S.layout type).fields,
      f.isMarked m.presence m.cases = f.isMarked n.presence n.cases := by
  intro f hf
  cases hrep : f.isRepeated with
  | true =>
    have hbit := Field.bit?_of_repeated hrep
    rw [Field.isMarked_repeated hbit, Field.isMarked_repeated hbit]
  | false =>
    obtain ⟨i, hi⟩ := List.mem_iff_getElem?.1 hf
    have hnumbers := congrArg (List.map WireRecord.number) (h (f, i) (Layout.mem_placed order hi))
    rw [hm.numbers_recordsOf hi hrep (hS type), hn.numbers_recordsOf hi hrep (hS type)] at hnumbers
    revert hnumbers
    cases f.isMarked m.presence m.cases <;> cases f.isMarked n.presence n.cases <;> simp

/-- The bytes of a message tell what is present in it. By induction on the message: the bytes tell
the records, these tell the payloads of each field, and these the bytes of the messages inside. -/
theorem Message.Fits.gist_eq_of_encode_eq
    (hlength : (m.encode S order (S.layout type)).length < 2 ^ 64)
    (heq : m.encode S order (S.layout type) = n.encode S order (S.layout type)) :
    m.gist S (S.layout type) = n.gist S (S.layout type) := by
  induction hm generalizing n with
  | @step type m hm ih =>
    have hrecords := (hm.records_eq hS hn hlength (heq ▸ hlength) (Layout.endsBefore_nil _)
      (Layout.endsBefore_nil _) (congrArg (· ++ []) heq)).1
    have hrecordsOf := Message.recordsOf_eq hS hrecords
    have hmarked := hm.isMarked_eq hS hn hrecordsOf
    obtain ⟨hpresence, hcases⟩ := hm.coherent.ext hn.coherent hmarked
    refine (hm.gist_eq_iff hn).2 ⟨hpresence, hcases, fun i f slot slot' hf hs hs' hshown => ?_⟩
    have hshown' : f.isRepeated = false → f.isMarked n.presence n.cases = true :=
      hpresence ▸ hcases ▸ hshown
    have hplaced := Layout.mem_placed (p := (f, i)) order hf
    have hpayloads := hrecordsOf _ hplaced
    rw [Message.recordsOf_eq_map hs hshown, Message.recordsOf_eq_map hs' hshown'] at hpayloads
    refine (hm.atSlot hf hs).gistSlot_eq (hn.atSlot hf hs') (hm.isStored_of_shown hf hs hshown)
      (hn.isStored_of_shown hf hs' hshown')
      (List.map_injective_iff.2 (fun _ _ => Field.record_inj) hpayloads)
      fun t ht m' hm' n' hn' hencode => ?_
    have hlt := Message.length_encode_lt (S := S) hm.length hplaced hs
      (Field.isPresent_of_mem hm' hshown) ht hm'
    exact ih hf hs t ht m' (slot.valueMessages_subset hm')
      ((hn.atSlot hf hs').inner t ht n' (slot'.valueMessages_subset hn')) (hlt.trans hlength)
      hencode

end Messages

/-! ### The conformance schema -/

section Conformance

open Conformance (schema)

theorem Message.Fits.getElem?_run_store (hS : S.Valid) (order : FieldOrder) (hm : m.Fits S type)
    {i : Nat} (hf : (S.layout type).fields[i]? = some f) (hrep : f.isRepeated = false)
    (value : FieldValue) :
    let m' := ((Action.store i value).run S order type m).2
    m'.slots[i]? = some value.toSlot ∧ f.isMarked m'.presence m'.cases = true := by
  have hprepare := hm.prepare hS f
  obtain ⟨slot, hslot⟩ := hprepare.exists_slot hf
  obtain ⟨bit, hbit⟩ := Field.exists_bit? hrep
  have hset : ((m.prepare S (S.layout type) f).setSlot i value.toSlot).Coherent (S.layout type) :=
    hprepare.coherent.congr rfl rfl
  simp only [Action.run, hf]
  exact ⟨by rw [Message.slots_markPresent, getElem?_setSlot hslot],
    hset.isMarked_markPresent_self (hS type) (List.mem_of_getElem? hf) hbit⟩

/-- Messages in use are equal if they are encoded alike. So equality is an equivalence, in which
a message counts as what is present in it, and numbers, also floats, as their bits. Lengths are
written with 64 bits, which is enough for every message that can be encoded. -/
theorem equality_is_equality_of_encodings (V : Conformance.Variant) (type : TypeId)
    {a b c : Message} (ha : Reachable schema V.order type a) (hb : Reachable schema V.order type b)
    (hc : Reachable schema V.order type c) :
    let L := schema.layout type
    (a.size schema L < 2 ^ 64 → (a.beq schema L b = true ↔
      a.encode schema V.order L = b.encode schema V.order L)) ∧
    (a.beq schema L a = true ∧ (a.beq schema L b = true → b.beq schema L a = true) ∧
      (a.beq schema L b = true → b.beq schema L c = true → a.beq schema L c = true)) ∧
    (a.beq schema L b = true ↔ a.gist schema L = b.gist schema L) ∧
    ∀ (i : Nat) (f : Field) (kind : Scalar) (default v w : kind.Value),
      L.fields[i]? = some f → f.isRepeated = false → f.element = .scalar kind default →
      (((Action.store i (.scalar kind v)).run schema V.order type a).2.beq schema L
        ((Action.store i (.scalar kind w)).run schema V.order type a).2 = true ↔ v = w) := by
  intro L
  have hS := Conformance.valid
  have hbeq : ∀ {m n : Message}, Reachable schema V.order type m → Reachable schema V.order type n →
      (m.beq schema L n = true ↔ m.gist schema L = n.gist schema L) := fun hm hn =>
    (hm.fits hS).beq_iff_gist_eq (hn.fits hS)
  refine ⟨fun hsize => ?_, ⟨(hbeq ha ha).2 rfl, fun h => ?_, fun h h' => ?_⟩, hbeq ha hb, ?_⟩
  · rw [← Message.length_encode schema V.order] at hsize
    rw [hbeq ha hb]
    exact ⟨(ha.fits hS).encode_eq_of_gist_eq (hb.fits hS),
      (ha.fits hS).gist_eq_of_encode_eq hS (hb.fits hS) hsize⟩
  · exact (hbeq hb ha).2 ((hbeq ha hb).1 h).symm
  · exact (hbeq ha hc).2 (((hbeq ha hb).1 h).trans ((hbeq hb hc).1 h'))
  · intro i f kind default v w hf hrep helement
    have hstore : ∀ u : kind.Value, Reachable schema V.order type
        ((Action.store i (.scalar kind u)).run schema V.order type a).2 := fun u =>
      .run ha (.store hf hrep (by rw [helement]; exact .scalar) fun t m ht => by
        rw [helement] at ht
        cases ht)
    rw [hbeq (hstore v) (hstore w)]
    refine ⟨fun hgist => ?_, fun h => by rw [h]⟩
    obtain ⟨hv, hmarked⟩ :=
      Message.Fits.getElem?_run_store hS V.order (ha.fits hS) hf hrep (.scalar kind v)
    obtain ⟨hw, hmarked'⟩ :=
      Message.Fits.getElem?_run_store hS V.order (ha.fits hS) hf hrep (.scalar kind w)
    have hslots := congrArg (fun m => m.slots[i]?) hgist
    simp only [L, Message.getElem?_gist hf hv, Message.getElem?_gist hf hw, hmarked, hmarked',
      implies_true, if_true, Option.some.injEq] at hslots
    exact eq_of_heq (Slot.scalar.inj hslots).2

/-- A number that is no number, set, and read after another one: the messages are equal, and are
encoded alike. The two zeros are different. -/
theorem equality_is_equality_of_encodings_floats :
    let L := schema.layout Conformance.Floats
    let blank := schema.blank Conformance.Floats
    let set (bits : UInt64) : Message :=
      ((Action.store 0 (.scalar .double bits)).run schema .ascending Conformance.Floats blank).2
    let read := ((Action.merge 100
      [9, 0, 0, 0, 0, 0, 0, 240, 63, 9, 1, 0, 0, 0, 0, 0, 248, 127]).run schema .ascending
        Conformance.Floats blank).2
    (set 0x7ff8000000000001).size schema L = 9 ∧
      (set 0x7ff8000000000001).beq schema L read = true ∧
      ¬ (set 0).beq schema L (set 0x8000000000000000) = true := by
  intro L blank set read
  have hblank : Reachable schema Conformance.Variant.ascending.order Conformance.Floats blank :=
    .blank _
  have hset : Reachable schema Conformance.Variant.ascending.order Conformance.Floats
      (set 0x7ff8000000000001) := .run hblank (.store rfl rfl .scalar fun _ _ ht => by cases ht)
  have hread : Reachable schema Conformance.Variant.ascending.order Conformance.Floats read :=
    .run hblank (.merge 100 _)
  have hsize : (set 0x7ff8000000000001).size schema L = 9 := by cbv
  have hencodeSet : (set 0x7ff8000000000001).encode schema .ascending L =
      [9, 1, 0, 0, 0, 0, 0, 248, 127] := by decide +kernel
  have hencodeRead : read.encode schema .ascending L = [9, 1, 0, 0, 0, 0, 0, 248, 127] := by
    decide +kernel
  refine ⟨hsize, ?_, ?_⟩
  · exact ((equality_is_equality_of_encodings .ascending Conformance.Floats hset hread hblank).1
      (hsize ▸ by decide)).2 (hencodeSet.trans hencodeRead.symm)
  · have hzeros := (equality_is_equality_of_encodings .ascending Conformance.Floats hblank hblank
      hblank).2.2.2 0 _ .double (0 : UInt64) (0 : UInt64) (0x8000000000000000 : UInt64) rfl rfl rfl
    exact mt hzeros.1 (by decide)

end Conformance

end ProtoWire
