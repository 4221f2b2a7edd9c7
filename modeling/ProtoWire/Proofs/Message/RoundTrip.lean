import ProtoWire.Proofs.Message.Rebuild
import ProtoWire.Proofs.Message.Written

/-!
# Messages are read back

* `Message.Fits.parse_encode`: a message that is written is read back.
-/

namespace ProtoWire

variable {α : Type} {update : α → Update} {values : List α} {levels i : Nat} {S : Schema}
  {f : Field} {kind : Scalar} {slot : Slot Message} {order : FieldOrder} {p : PlacedField}
  {type t : TypeId} {m v : Message}

/-- A message of a field is read back, behind its tag, as what is present in it. -/
def Field.ReadsBack (S : Schema) (order : FieldOrder) (levels : Nat) (f : Field) (type : TypeId)
    (m : Message) : Prop :=
  ∃ us, Reads levels (f.readContents (ProtoWire.readContents S))
      (f.nestedPayload (m.encode S order (S.layout type))) us ∧
    applyAll S type us (S.blank type) =
      some ((m.strip S (S.layout type)).view S (S.layout type))

/-- What is written for the slot of a repeated field is read back, as updates that make what is
present in it. -/
def PlacedField.Restores (S : Schema) (order : FieldOrder) (levels : Nat) (type : TypeId)
    (p : PlacedField) (slot : Slot Message) : Prop :=
  ∃ us : List Update, (∀ u ∈ us, u.index = p.2) ∧
    Conveys levels (readContents S type) (encodeSlot S order p.1 slot) us ∧
    changeAll S p.1 us p.1.blankSlot = some (viewSlot S p.1 (stripSlot S p.1 slot))

/-! ### Values in a row -/

theorem conveys_flatMap {x : Read (List Update)} {write : α → Bytes}
    (h : ∀ a ∈ values, Conveys levels x (write a) [update a]) :
    Conveys levels x (values.flatMap write) (values.map update) := by
  induction values with
  | nil => exact .nil
  | cons a values ih =>
    rw [List.flatMap_cons, List.map_cons]
    exact (h a List.mem_cons_self).append (ih fun a ha => h a (List.mem_cons_of_mem _ ha))

theorem changeAll_push {β : Type} (size : Nat) {store : Repeated β → Slot Message} {shown : α → β}
    (h : ∀ a ∈ values, ∀ c, (update a).change S f (store c) = (c.push size (shown a)).map store)
    {start : List β} (hroom : start.length + values.length ≤ Repeated.maxCapacity size) :
    changeAll S f (values.map update) (store (.ofList start)) =
      some (store (.ofList (start ++ values.map shown))) := by
  induction values generalizing start with
  | nil => simp [changeAll]
  | cons a values ih =>
    rw [List.length_cons] at hroom
    have hpush : (Repeated.ofList start).push size (shown a) =
        some (.ofList (start ++ [shown a])) :=
      Repeated.push_eq_some.2 ⟨by simp only [Repeated.ofList]; omega, rfl⟩
    rw [List.map_cons, changeAll, h a List.mem_cons_self, hpush, Option.map_some, Option.bind_some,
      ih (fun a ha => h a (List.mem_cons_of_mem _ ha)) (by simp; omega)]
    simp

theorem changeAll_scalars {start values : List kind.Value}
    (hroom : start.length + values.length ≤ Repeated.maxCapacity kind.storageSize) :
    changeAll S f (values.map (.scalar i kind)) (.scalars kind (.ofList start)) =
      some (.scalars kind (.ofList (start ++ values))) := by
  have hchange : changeAll S f (values.map (.scalar i kind)) (.scalars kind (.ofList start)) =
      some (.scalars kind (.ofList (start ++ values.map id))) :=
    changeAll_push kind.storageSize (fun value _ c => by simp [Update.change]) hroom
  rwa [List.map_id] at hchange

/-! ### Values of one field -/

theorem Field.primaryForm_of_singular (hrep : f.isRepeated = false) : f.primaryForm = .value := by
  obtain ⟨_, _, _, placement⟩ := f
  cases placement with
  | repeated packed => cases hrep
  | singular bit | member oneof bit => rfl

theorem Field.primaryForm_of_repeated (hrep : f.isRepeated = true) :
    f.primaryForm = if f.strategy.cardinality.isPacked then .run else .element := by
  obtain ⟨_, _, _, placement⟩ := f
  cases placement with
  | repeated packed => cases packed <;> rfl
  | singular bit | member oneof bit => cases hrep

section Slots

variable {payload : Bytes} (hS : S.Valid) (hp : (S.layout type).fields[p.2]? = some p.1)
  {inner : TypeId → Message → Prop}

include hS hp

theorem PlacedField.route_primaryTag :
    (S.layout type).route p.1.primaryTag = some (p, p.1.primaryForm) :=
  (hS type).routed.route_primaryTag (List.mem_zipIdx_iff_getElem?.2 hp)

theorem PlacedField.conveys_primary {us : List Update} (hus : Reads levels
      (readPayload (readContents S) (S.layout type) p.1.primaryTag) payload (us, true)) :
    Conveys levels (readContents S type) (writeTag p.1.primaryTag ++ payload) us :=
  (conveys_record (hS type) (skippable_readContents hS)
    (reads_readTag_writeTag ((hS type).number_primaryTag (List.mem_of_getElem? hp))) hus).congr
      (readContents_apply hS type)

theorem PlacedField.conveys_primary_value (hrep : p.1.isRepeated = false) {u : Update}
    (hu : Reads levels (p.readUpdate (readContents S)) payload u)
    (hadmits : p.1.element.admits u = true) :
    Conveys levels (readContents S type) (writeTag p.1.primaryTag ++ payload) [u] := by
  refine p.conveys_primary hS hp (reads_value ?_ hu hadmits)
  rw [p.route_primaryTag hS hp, Field.primaryForm_of_singular hrep]

omit hS hp in
theorem PlacedField.readUpdate_of_type (ht : p.1.element.type? = some t) (read : Reading) :
    p.readUpdate read = Update.message p.2 <$> p.1.readContents read := by
  unfold PlacedField.readUpdate
  cases helement : p.1.element with
  | message | group => rfl
  | scalar | enum | text | blob =>
    rw [helement] at ht
    cases ht

omit hS hp in
theorem Element.admits_message (element : Element) (i : Nat) (us : List Update) :
    element.admits (.message i us) = true := by
  cases element with
  | enum declared default => cases default <;> rfl
  | scalar | text | blob | message | group => rfl

omit hS hp in
theorem writeNested_encode
    (hpacked : f.placement.cardinality.isPacked = true → f.element.category.isPackable = true)
    (t : TypeId) (m : Message) :
    writeNested f (m.size S (S.layout t)) (m.encode S order (S.layout t)) =
      writeTag f.primaryTag ++ f.nestedPayload (m.encode S order (S.layout t)) := by
  rw [← Message.length_encode S order, Field.writeNested_eq _ hpacked]

/-- The message of a singular field that is written is read back if its contents are. -/
theorem PlacedField.conveys_sub (hrep : p.1.isRepeated = false) (ht : p.1.element.type? = some t)
    (hnone : p.1.element.blankSlot = .sub none) (hm : p.1.ReadsBack S order levels t m) :
    ∃ u : Update, u.index = p.2 ∧
      Conveys levels (readContents S type) (encodeSlot S order p.1 (.sub (some m))) [u] ∧
      u.change S p.1 p.1.blankSlot =
        some (viewSlot S p.1 (stripSlot S p.1 (.sub (some m)))) := by
  obtain ⟨us, hus, happly⟩ := hm
  refine ⟨.message p.2 us, rfl, ?_, ?_⟩
  · rw [encodeSlot_sub ht, writeNested_encode ((hS type).packed _ (List.mem_of_getElem? hp))]
    refine p.conveys_primary_value hS hp hrep ?_ (p.1.element.admits_message _ _)
    rw [PlacedField.readUpdate_of_type ht]
    exact hus.map _
  · rw [Field.blankSlot_of_singular hrep, hnone, stripSlot_sub ht, Option.map_some,
      viewSlot_sub ht, Option.bind_some]
    simp only [Update.change, ht, Option.getD_none, happly, Option.map_some]

/-- The value of a singular field that is written is read back. -/
theorem PlacedField.conveys_singular (hrep : p.1.isRepeated = false) (hfits : p.1.Fits inner slot)
    (hstored : slot.isStored = true) (hdeclares : p.1.element.declares slot = true)
    (hlength : (encodeSlot S order p.1 slot).length < 2 ^ 31)
    (hinner : ∀ t ∈ p.1.element.type?, ∀ m ∈ slot.valueMessages,
      p.1.ReadsBack S order levels t m) :
    ∃ u : Update, u.index = p.2 ∧
      Conveys levels (readContents S type) (encodeSlot S order p.1 slot) [u] ∧
      u.change S p.1 p.1.blankSlot = some (viewSlot S p.1 (stripSlot S p.1 slot)) := by
  have hstores := hfits.holds.stores hrep
  have hblank := Field.blankSlot_of_singular hrep
  obtain ⟨⟨_, number, _, _⟩, i⟩ := p
  simp only at hstores hblank hdeclares hinner
  cases hstores with
  | @scalar kind default value =>
    refine ⟨.scalar i kind value, rfl, ?_, ?_⟩
    · rw [encodeSlot]
      exact PlacedField.conveys_primary_value hS hp hrep
        ((reads_readScalar (kind.spells_write value)).map _) rfl
    · rw [hblank]
      simp [Element.blankSlot, Update.change, stripSlot, viewSlot]
  | @enum declared default value =>
    refine ⟨.scalar i .int32 value, rfl, ?_, ?_⟩
    · rw [encodeSlot]
      refine PlacedField.conveys_primary_value hS hp hrep
        ((reads_readScalar (Scalar.spells_write .int32 value)).map _) ?_
      -- without a default, a number that is not declared would be dropped
      cases default with
      | none => exact hdeclares
      | some default => rfl
    · rw [hblank]
      simp [Element.blankSlot, Update.change, stripSlot, viewSlot]
  | @text default value =>
    refine ⟨.text i value, rfl, ?_, ?_⟩
    · rw [encodeSlot, List.length_append] at hlength
      rw [encodeSlot]
      exact PlacedField.conveys_primary_value hS hp hrep
        ((reads_readText (length_lt_of_writeBlob (by omega))).map _) rfl
    · rw [hblank]
      simp [Element.blankSlot, Update.change, stripSlot, viewSlot]
  | @blob default value =>
    refine ⟨.blob i value, rfl, ?_, ?_⟩
    · rw [encodeSlot, List.length_append] at hlength
      rw [encodeSlot]
      exact PlacedField.conveys_primary_value hS hp hrep
        ((reads_readBlob (length_lt_of_writeBlob (by omega))).map _) rfl
    · rw [hblank]
      simp [Element.blankSlot, Update.change, stripSlot, viewSlot]
  | @message t value | @group t value =>
    cases value with
    | none => cases hstored
    | some m =>
      exact PlacedField.conveys_sub hS hp hrep rfl rfl (hinner t rfl m List.mem_cons_self)

theorem PlacedField.conveys_elements (hform : p.1.primaryForm = .element) {write : α → Bytes}
    (h : ∀ a ∈ values, Reads levels (p.readUpdate (readContents S)) (write a) (update a)) :
    Conveys levels (readContents S type)
      (values.flatMap fun a => writeTag p.1.primaryTag ++ write a) (values.map update) :=
  conveys_flatMap fun a ha => p.conveys_primary hS hp
    (reads_element (hform ▸ p.route_primaryTag hS hp) (h a ha))

omit hS hp in
theorem PlacedField.reads_run {values : List kind.Value} {read : Reading}
    (hread : p.readUpdate read = Update.scalar p.2 kind <$> readScalar kind)
    (hlength : (values.flatMap kind.write).length < 2 ^ 31) :
    Reads levels (p.readPackedUpdates read) (writeBlob (values.flatMap kind.write))
      (values.map (Update.scalar p.2 kind)) := by
  have hspells : ∀ s ∈ values.map fun value => (kind.write value, value),
      kind.Spells s.1 s.2 := by
    rintro _ hs
    obtain ⟨value, -, rfl⟩ := List.mem_map.1 hs
    exact kind.spells_write value
  have hheader : Reads levels readLength (writeLength (values.flatMap kind.write).length)
      ((values.map fun value => (kind.write value, value)).flatMap Prod.fst).length := by
    rw [List.flatMap_map]
    exact reads_readLength_writeLength hlength
  have hrun := PlacedField.reads_scalarRun hread hheader (writeLength_ne_nil _) hspells
  rwa [List.flatMap_map, List.map_map, List.map_map] at hrun

theorem PlacedField.conveys_scalars (hrep : p.1.isRepeated = true) {c : Repeated kind.Value}
    (hread : p.readUpdate (readContents S) = Update.scalar p.2 kind <$> readScalar kind)
    (hlength : p.1.strategy.cardinality.isPacked = true →
      (c.values.flatMap kind.write).length < 2 ^ 31) :
    Conveys levels (readContents S type) (encodeSlot S order p.1 (.scalars kind c))
      (c.values.map (Update.scalar p.2 kind)) := by
  have hform := Field.primaryForm_of_repeated hrep
  rw [encodeSlot]
  by_cases hpacked : p.1.strategy.cardinality.isPacked = true
  · rw [if_pos hpacked] at hform ⊢
    unfold writePacked
    by_cases hnil : c.values.isEmpty = true
    · rw [if_pos hnil, List.isEmpty_iff.1 hnil]
      exact .nil
    · have hsize : packedSize kind.size c.values = (c.values.flatMap kind.write).length :=
        (length_flatMap kind.length_write c.values).symm
      rw [if_neg hnil, hsize, List.append_assoc]
      exact p.conveys_primary hS hp (reads_packed (hform ▸ p.route_primaryTag hS hp)
        (p.reads_run hread (hlength hpacked)))
  · rw [if_neg hpacked] at hform ⊢
    refine p.conveys_elements hS hp hform fun value _ => ?_
    rw [hread]
    exact (reads_readScalar (kind.spells_write value)).map _

omit hS hp in
/-- A packed run is part of what is written for its field. -/
theorem length_run_le (hpacked : f.strategy.cardinality.isPacked = true) (c : Repeated kind.Value) :
    (c.values.flatMap kind.write).length ≤ (encodeSlot S order f (.scalars kind c)).length := by
  rw [encodeSlot, if_pos hpacked, writePacked]
  split
  · next hnil =>
    rw [List.isEmpty_iff.1 hnil]
    exact Nat.le_refl 0
  · rw [List.length_append]
    exact Nat.le_add_left ..

theorem PlacedField.conveys_row (hform : p.1.primaryForm = .element) {α β : Type} (size : Nat)
    (store : Repeated β → Slot Message) (write : α → Bytes) (update : α → Update) (shown : α → β)
    {values : List α} (hblank : p.1.blankSlot = store .empty)
    (hroom : values.length ≤ Repeated.maxCapacity size)
    (hindex : ∀ a, (update a).index = p.2)
    (hlength : (values.flatMap fun a => writeTag p.1.primaryTag ++ write a).length < 2 ^ 31)
    (hread : ∀ a ∈ values, (write a).length < 2 ^ 31 →
      Reads levels (p.readUpdate (readContents S)) (write a) (update a))
    (hchange : ∀ a ∈ values, ∀ c,
      (update a).change S p.1 (store c) = (c.push size (shown a)).map store) :
    ∃ us : List Update, (∀ u ∈ us, u.index = p.2) ∧
      Conveys levels (readContents S type)
        (values.flatMap fun a => writeTag p.1.primaryTag ++ write a) us ∧
      changeAll S p.1 us p.1.blankSlot = some (store (.ofList (values.map shown))) := by
  have hshort : ∀ a ∈ values, (write a).length < 2 ^ 31 := by
    intro a ha
    have hle := length_le_of_mem (fun a => writeTag p.1.primaryTag ++ write a) ha
    rw [List.length_append] at hle
    omega
  refine ⟨values.map update, ?_,
    p.conveys_elements hS hp hform fun a ha => hread a ha (hshort a ha), ?_⟩
  · rintro _ hu
    obtain ⟨a, -, rfl⟩ := List.mem_map.1 hu
    exact hindex a
  · rw [hblank]
    exact changeAll_push size hchange (by simpa using hroom)

theorem PlacedField.restores_scalars (hrep : p.1.isRepeated = true) {c : Repeated kind.Value}
    (hempty : p.1.element.emptySlot = .scalars kind .empty)
    (hread : p.readUpdate (readContents S) = Update.scalar p.2 kind <$> readScalar kind)
    (hroom : c.values.length ≤ Repeated.maxCapacity kind.storageSize)
    (hlength : (encodeSlot S order p.1 (.scalars kind c)).length < 2 ^ 31) :
    p.Restores S order levels type (.scalars kind c) := by
  refine ⟨c.values.map (.scalar p.2 kind), ?_, p.conveys_scalars hS hp hrep hread fun hpacked =>
    Nat.lt_of_le_of_lt (length_run_le hpacked c) hlength, ?_⟩
  · rintro _ hu
    obtain ⟨value, -, rfl⟩ := List.mem_map.1 hu
    rfl
  · have hchange : changeAll S p.1 (c.values.map (.scalar p.2 kind))
        (.scalars kind (.ofList [])) = some (.scalars kind (.ofList ([] ++ c.values))) :=
      changeAll_scalars (by simpa using hroom)
    rw [Field.blankSlot_of_repeated hrep, hempty]
    exact hchange

theorem PlacedField.restores_messages (hrep : p.1.isRepeated = true)
    (hform : p.1.primaryForm = .element) (ht : p.1.element.type? = some t)
    (hempty : p.1.element.emptySlot = .subs .empty) {c : Repeated Message}
    (hroom : c.values.length ≤ Repeated.maxCapacity messageSize)
    (hlength : (encodeSlot S order p.1 (.subs c)).length < 2 ^ 31)
    (hinner : ∀ m ∈ c.values, p.1.ReadsBack S order levels t m) :
    p.Restores S order levels type (.subs c) := by
  have hpack := (hS type).packed _ (List.mem_of_getElem? hp)
  -- the contents of each message are chosen, so that the updates are a function of the messages
  have hchoice : ∀ m, ∃ us, m ∈ c.values →
      Reads levels (p.1.readContents (readContents S))
          (p.1.nestedPayload (m.encode S order (S.layout t))) us ∧
        applyAll S t us (S.blank t) = some ((m.strip S (S.layout t)).view S (S.layout t)) := by
    intro m
    by_cases hm : m ∈ c.values
    · obtain ⟨us, hus⟩ := hinner m hm
      exact ⟨us, fun _ => hus⟩
    · exact ⟨[], fun h => absurd h hm⟩
  obtain ⟨contents, hcontents⟩ := Classical.skolem.1 hchoice
  have hrow := p.conveys_row hS hp hform messageSize .subs
    (fun m => p.1.nestedPayload (m.encode S order (S.layout t)))
    (fun m => .message p.2 (contents m))
    (Message.view S (S.layout t) ∘ Message.strip S (S.layout t))
    ((Field.blankSlot_of_repeated hrep).trans hempty) hroom (fun _ => rfl)
    (by simpa only [encodeSlot_subs ht, writeNested_encode hpack] using hlength)
    (fun m hm _ => by
      rw [PlacedField.readUpdate_of_type ht]
      exact (hcontents m hm).1.map _)
    (fun m hm c => by simp [Update.change, ht, (hcontents m hm).2])
  unfold PlacedField.Restores
  rw [encodeSlot_subs ht, stripSlot_subs ht, viewSlot_subs ht]
  simpa only [writeNested_encode hpack, List.map_map] using hrow

/-- The values of a repeated field that are written are read back. -/
theorem PlacedField.restores (hrep : p.1.isRepeated = true) (hfits : p.1.Fits inner slot)
    (hlength : (encodeSlot S order p.1 slot).length < 2 ^ 31)
    (hinner : ∀ t ∈ p.1.element.type?, ∀ m ∈ slot.valueMessages,
      p.1.ReadsBack S order levels t m) :
    p.Restores S order levels type slot := by
  have hcollects := hfits.holds.collects hrep
  have hblank := Field.blankSlot_of_repeated hrep
  have hform : p.1.element.category.isPackable = false → p.1.primaryForm = .element := by
    intro hpack
    rw [Field.primaryForm_of_repeated hrep, if_neg]
    intro hpacked
    rw [(hS type).packed p.1 (List.mem_of_getElem? hp) hpacked] at hpack
    cases hpack
  obtain ⟨⟨⟩, i⟩ := p
  simp only at hcollects hblank hinner
  cases hcollects with
  | @scalar kind default c hsound | @enum declared default c hsound =>
    exact PlacedField.restores_scalars hS hp hrep rfl rfl hsound.length_le hlength
  | @message t c hsound | @group t c hsound =>
    exact PlacedField.restores_messages hS hp hrep (hform rfl) rfl rfl hsound.length_le hlength
      (hinner t rfl)
  | @text default c hsound =>
    rw [encodeSlot] at hlength
    have hrow := @PlacedField.conveys_row levels S _ type hS hp (hform rfl) _ _ textSize .texts
      (fun value => writeBlob (utf8Bytes value)) (.text i) id _ hblank hsound.length_le
      (fun _ => rfl) hlength
      (fun value _ hshort => (reads_readText (length_lt_of_writeBlob hshort)).map _)
      (fun value _ c => rfl)
    simpa [PlacedField.Restores, encodeSlot, stripSlot, viewSlot] using hrow
  | @blob default c hsound =>
    rw [encodeSlot] at hlength
    have hrow := @PlacedField.conveys_row levels S _ type hS hp (hform rfl) _ _ blobSize .blobs
      writeBlob (.blob i) id _ hblank hsound.length_le (fun _ => rfl) hlength
      (fun value _ hshort => (reads_readBlob (length_lt_of_writeBlob hshort)).map _)
      (fun value _ c => rfl)
    simpa [PlacedField.Restores, encodeSlot, stripSlot, viewSlot] using hrow

end Slots

/-! ### Fields in a row -/

/-- What is written for a field of a message. -/
def Message.written (S : Schema) (order : FieldOrder) (m : Message) (p : PlacedField) : Bytes :=
  match m.slots[p.2]? with
  | some slot => (p.1.written S order m.presence m.cases slot).2
  | none => []

theorem Message.encode_eq_flatMap (S : Schema) (order : FieldOrder) {L : Layout}
    (hlength : m.slots.length = L.fields.length) :
    m.encode S order L = (L.placed order).flatMap (m.written S order) := by
  have hslots : encodeSlots S order m.presence m.cases L.fields m.slots =
      L.fields.zipIdx.map fun p => (p.1.number, m.written S order p) := by
    rw [encodeSlots_eq_zipWith]
    refine List.ext_getElem? fun i => ?_
    rw [List.getElem?_zipWith, List.getElem?_map, List.getElem?_zipIdx]
    cases hf : L.fields[i]? with
    | none => rfl
    | some f =>
      obtain ⟨hlt, -⟩ := List.getElem?_eq_some_iff.1 hf
      have hslot := List.getElem?_eq_getElem (hlength ▸ hlt)
      simp [Message.written, Field.written, hslot]
  cases m
  rw [Message.encode, hslots, FieldOrder.arrange_map, List.flatMap_map, Layout.placed]

theorem Layout.getElem?_of_mem_placed {L : Layout} (h : p ∈ L.placed order) :
    L.fields[p.2]? = some p.1 :=
  List.mem_zipIdx_iff_getElem?.1 ((L.placed_perm order).mem_iff.1 h)

theorem Layout.mem_placed {L : Layout} (order : FieldOrder) (h : L.fields[p.2]? = some p.1) :
    p ∈ L.placed order :=
  (L.placed_perm order).mem_iff.2 (List.mem_zipIdx_iff_getElem?.2 h)

/-- Nothing is written for a container without values. -/
theorem encodeSlot_of_isEmpty (h : slot.isEmpty = true) : encodeSlot S order f slot = [] := by
  cases slot with
  | scalar | text | blob | sub => cases h
  | scalars kind c =>
    obtain ⟨values, retained, capacity⟩ := c
    obtain rfl := List.isEmpty_iff.1 h
    rw [encodeSlot]
    split
    · rfl
    · rfl
  | texts c | blobs c =>
    rw [encodeSlot, List.isEmpty_iff.1 h]
    rfl
  | subs c =>
    cases c
    obtain rfl := List.isEmpty_iff.1 h
    rw [encodeSlot]
    split
    · rfl
    · rfl
    · rfl

theorem Message.written_eq (hslot : m.slots[p.2]? = some slot) :
    m.written S order p =
      if p.1.isPresent m.presence m.cases slot then encodeSlot S order p.1 slot else [] := by
  simp [Message.written, hslot, Field.written]

theorem Message.written_of_repeated (hrep : p.1.isRepeated = true)
    (hslot : m.slots[p.2]? = some slot) : m.written S order p = encodeSlot S order p.1 slot := by
  rw [Message.written_eq hslot, Field.isPresent_of_repeated hrep]
  cases hempty : slot.isEmpty with
  | true => exact (encodeSlot_of_isEmpty hempty).symm
  | false => rfl

/-- The contents of a message that is written are part of what is written for its field, behind a
tag. -/
theorem length_encode_lt_encodeSlot (ht : f.element.type? = some t) (hm : m ∈ slot.valueMessages) :
    (m.encode S order (S.layout t)).length < (encodeSlot S order f slot).length := by
  have hnested : ∀ size contents, contents.length < (writeNested f size contents).length := by
    intro size contents
    have htag : ∀ tag, 0 < (writeTag tag).length :=
      fun tag => List.length_pos_of_ne_nil (Varint.spells_encode _).ne_nil
    unfold writeNested
    split
    · have := htag (Tag.make f.number .startGroup)
      simp only [List.length_append]
      omega
    · have := htag f.primaryTag
      simp only [List.length_append]
      omega
  cases slot with
  | sub value =>
    obtain rfl := Option.mem_toList.1 hm
    rw [encodeSlot_sub ht]
    exact hnested _ _
  | subs c =>
    rw [encodeSlot_subs ht]
    exact Nat.lt_of_lt_of_le (hnested (m.size S (S.layout t)) _) (length_le_of_mem
      (fun m => writeNested f (m.size S (S.layout t)) (m.encode S order (S.layout t))) hm)
  | scalar | text | blob | scalars | texts | blobs => cases hm

theorem Element.Collects.isEmpty_eq_false {element : Element} (h : element.Collects slot)
    (hm : m ∈ slot.valueMessages) : slot.isEmpty = false := by
  cases h with
  | scalar | enum | text | blob => cases hm
  | message | group => exact List.isEmpty_eq_false_iff.2 (List.ne_nil_of_mem hm)

/-- The messages that are present in a field are read back. -/
def Message.ReadsBackAt (S : Schema) (order : FieldOrder) (levels : Nat) (m : Message)
    (p : PlacedField) : Prop :=
  ∀ slot, m.slots[p.2]? = some slot → p.1.isPresent m.presence m.cases slot = true →
    ∀ t ∈ p.1.element.type?, ∀ m' ∈ slot.valueMessages, p.1.ReadsBack S order levels t m'

section Fields

variable (hS : S.Valid) (hm : m.Fits S type)

include hS hm in
/-- What is written for one more field conveys what is present in it. -/
theorem exists_conveys_field (hp : (S.layout type).fields[p.2]? = some p.1)
    (hdeclares : m.declaresEnums (S.layout type) = true)
    (hlength : (m.written S order p).length < 2 ^ 31) (hinner : m.ReadsBackAt S order levels p)
    {done : List PlacedField} (hnew : p ∉ done)
    (hv : Agrees (S.layout type) done (m.gist S (S.layout type)) v) :
    ∃ us v', Conveys levels (readContents S type) (m.written S order p) us ∧
      applyAll S type us v = some v' ∧
      Agrees (S.layout type) (p :: done) (m.gist S (S.layout type)) v' := by
  obtain ⟨slot, hslot⟩ := hm.exists_slot hp
  have hfits := hm.atSlot hp hslot
  have hshown := Message.getElem?_gist (S := S) hp hslot
  cases hrep : p.1.isRepeated with
  | false =>
    rw [Message.written_eq hslot] at hlength ⊢
    have hpresent := Field.isPresent_of_singular hrep m.presence m.cases slot
    have hmarked : p.1.isMarked (m.gist S (S.layout type)).presence
        (m.gist S (S.layout type)).cases = p.1.isMarked m.presence m.cases := by simp
    cases hmark : p.1.isMarked m.presence m.cases with
    | false =>
      rw [hmark] at hpresent hmarked hshown
      rw [if_neg fun h => Bool.false_ne_true (h hrep)] at hshown
      rw [hpresent]
      exact ⟨[], v, .nil, rfl, hv.skip hp hmarked hshown⟩
    | true =>
      rw [hmark] at hpresent hmarked hshown
      rw [if_pos fun _ => rfl] at hshown
      rw [if_pos hpresent] at hlength ⊢
      obtain ⟨u, hindex, hconveys, hchange⟩ := p.conveys_singular hS hp hrep hfits
        (hm.stored hp hslot hmark) (m.declares_of_declaresEnums hdeclares hp hslot hpresent)
        hlength (hinner slot hslot hpresent)
      obtain ⟨v', happly, hv'⟩ := hv.applyAll_singular hS hp hnew hshown hmarked hindex hchange
      exact ⟨[u], v', hconveys, happly, hv'⟩
  | true =>
    rw [Message.written_of_repeated hrep hslot] at hlength ⊢
    have hvalues : ∀ t ∈ p.1.element.type?, ∀ m' ∈ slot.valueMessages,
        p.1.ReadsBack S order levels t m' := by
      intro t ht m' hm'
      refine hinner slot hslot ?_ t ht m' hm'
      rw [Field.isPresent_of_repeated hrep, (hfits.holds.collects hrep).isEmpty_eq_false hm']
      rfl
    obtain ⟨us, hindex, hconveys, hchange⟩ :=
      p.restores hS hp hrep hfits hlength hvalues
    rw [if_pos (by simp [hrep])] at hshown
    obtain ⟨v', happly, hv'⟩ := hv.applyAll_repeated hS hp hnew hshown hrep hindex hchange
    exact ⟨us, v', hconveys, happly, hv'⟩

include hS hm in
/-- What is written for fields in a row conveys what is present in them. -/
theorem exists_conveys_fields (hdeclares : m.declaresEnums (S.layout type) = true)
    {ps : List PlacedField} (hps : ps.Nodup)
    (hfields : ∀ p ∈ ps, (S.layout type).fields[p.2]? = some p.1)
    (hlength : (ps.flatMap (m.written S order)).length < 2 ^ 31)
    (hinner : ∀ p ∈ ps, m.ReadsBackAt S order levels p) {done : List PlacedField}
    (hnew : ∀ p ∈ ps, p ∉ done) (hv : Agrees (S.layout type) done (m.gist S (S.layout type)) v) :
    ∃ us v', Conveys levels (readContents S type) (ps.flatMap (m.written S order)) us ∧
      applyAll S type us v = some v' ∧
      Agrees (S.layout type) (ps.reverse ++ done) (m.gist S (S.layout type)) v' := by
  induction ps generalizing done v with
  | nil => exact ⟨[], v, .nil, rfl, hv⟩
  | cons p ps ih =>
    obtain ⟨hp, hps⟩ := List.nodup_cons.1 hps
    rw [List.forall_mem_cons] at hfields hinner hnew
    rw [List.flatMap_cons, List.length_append] at hlength
    obtain ⟨us, w, hconveys, happly, hw⟩ := exists_conveys_field hS hm hfields.1 hdeclares
      (by omega) hinner.1 hnew.1 hv
    have hnew' : ∀ q ∈ ps, q ∉ p :: done := by
      intro q hq hmem
      rcases List.mem_cons.1 hmem with rfl | hdone
      · exact hp hq
      · exact hnew.2 q hq hdone
    obtain ⟨us', v', hconveys', happly', hv'⟩ :=
      ih hps hfields.2 (by omega) hinner.2 hnew' hw
    refine ⟨us ++ us', v', hconveys.append hconveys', ?_, by simpa using hv'⟩
    rw [applyAll_append, happly]
    exact happly'

end Fields

/-! ### Whole messages -/

theorem nodup_zipIdx (xs : List α) : xs.zipIdx.Nodup := by
  have hsnd : (xs.zipIdx.map Prod.snd).Nodup := by
    rw [List.zipIdx_map_snd]
    exact List.nodup_range'
  exact List.Pairwise.of_map Prod.snd (fun p q hne heq => hne (congrArg Prod.snd heq)) hsnd

theorem Slot.valueMessages_subset (slot : Slot Message) : slot.valueMessages ⊆ slot.messages := by
  cases slot with
  | subs c => exact List.subset_append_left _ _
  | scalar | text | blob | sub | scalars | texts | blobs => exact List.Subset.refl _

/-- A message that is present in another one takes fewer bytes. -/
theorem Message.length_encode_lt {L : Layout} (hlength : m.slots.length = L.fields.length)
    (hp : p ∈ L.placed order) (hslot : m.slots[p.2]? = some slot)
    (hpresent : p.1.isPresent m.presence m.cases slot = true) (ht : p.1.element.type? = some t)
    {m' : Message} (hm' : m' ∈ slot.valueMessages) :
    (m'.encode S order (S.layout t)).length < (m.encode S order L).length := by
  have hslotLength : _ < (encodeSlot S order p.1 slot).length :=
    length_encode_lt_encodeSlot ht hm'
  have hwritten := length_le_of_mem (m.written S order) hp
  rw [Message.written_eq hslot, if_pos hpresent] at hwritten
  rw [Message.encode_eq_flatMap S order hlength]
  exact Nat.lt_of_lt_of_le hslotLength hwritten

/-- What is written for a message conveys what is present in it. -/
theorem Message.Fits.exists_conveys (hS : S.Valid) (hm : m.Fits S type) {depth : Nat}
    (hparts : ∀ part ∈ m.parts S type depth, part.depth ≤ depth + levels ∧
      part.message.declaresEnums (S.layout part.type) = true)
    (hlength : (m.encode S order (S.layout type)).length < 2 ^ 31) :
    ∃ us, Conveys levels (readContents S type) (m.encode S order (S.layout type)) us ∧
      applyAll S type us (S.blank type) = some (m.gist S (S.layout type)) := by
  induction hm generalizing levels depth with
  | @step type m hm ih =>
    have hperm := (S.layout type).placed_perm order
    have hnodup : ((S.layout type).placed order).Nodup :=
      hperm.nodup_iff.2 (nodup_zipIdx _)
    -- a message inside another one is a level deeper, and shorter
    have hinner : ∀ p ∈ (S.layout type).placed order, m.ReadsBackAt S order levels p := by
      intro p hp slot hslot hpresent t ht m' hm'
      have hf := Layout.getElem?_of_mem_placed hp
      have hmem := List.mem_of_getElem? hf
      have hsubset : m'.parts S t (depth + 1) ⊆ m.parts S type depth :=
        Message.parts_subset hf hslot hpresent ht hm'
      obtain ⟨levels, rfl⟩ : ∃ n, levels = n + 1 := by
        have hdepth : depth + 1 ≤ depth + levels :=
          (hparts _ (hsubset (m'.mem_parts S t (depth + 1)))).1
        exact ⟨levels - 1, by omega⟩
      have hshort : (m'.encode S order (S.layout t)).length < 2 ^ 31 :=
        Nat.lt_trans (Message.length_encode_lt hm.length hp hslot hpresent ht hm') hlength
      have hparts' : ∀ part ∈ m'.parts S t (depth + 1), part.depth ≤ depth + 1 + levels ∧
          part.message.declaresEnums (S.layout part.type) = true := by
        intro part hpart
        obtain ⟨hdepth, hdeclares⟩ := hparts part (hsubset hpart)
        exact ⟨by omega, hdeclares⟩
      obtain ⟨us, hconveys, happly⟩ := ih hf hslot t ht m'
        (slot.valueMessages_subset hm') hparts' hshort
      exact ⟨us, reads_nestedPayload hS ht ((hS type).number_pos _ hmem)
        ((hS type).number_lt _ hmem) hshort hconveys, happly⟩
    rw [Message.encode_eq_flatMap S order hm.length] at hlength ⊢
    obtain ⟨us, v, hconveys, happly, hv⟩ := exists_conveys_fields hS hm
      (hparts _ (m.mem_parts S type depth)).2 hnodup
      (fun p => Layout.getElem?_of_mem_placed) hlength hinner
      (fun p _ => List.not_mem_nil) (.start (hS type) _)
    have hcoherent : (m.gist S (S.layout type)).Coherent _ :=
      hm.coherent.congr Message.presence_gist Message.cases_gist
    have hall : ∀ p ∈ (S.layout type).fields.zipIdx,
        p ∈ ((S.layout type).placed order).reverse ++ [] := by
      intro p hp
      simpa using hperm.mem_iff.2 hp
    exact ⟨us, hconveys, happly.trans (congrArg some (hv.eq hcoherent hm.length_gist hall))⟩

theorem parse_of_conveys (hS : S.Valid) {data : Bytes} {us : List Update}
    (h : Conveys defaultRecursionLimit.toNat (readContents S type) data us)
    (happly : applyAll S type us (S.blank type) = some v) (order : FieldOrder) :
    ∃ n : Message, Message.parse S order type data = .ok n ∧ n.Fits S type ∧
      n.view S (S.layout type) = v := by
  have hblank : (S.blank type).Fits S type := .blank (hS type)
  have hmerge : (readBytes S type defaultRecursionLimit data).bind
      (fun us => applyAll S type us ((S.blank type).view S (S.layout type))) = some v := by
    rw [readBytes_of_conveys hS h, Message.view_blank]
    exact happly
  obtain ⟨hok, hview⟩ := (hblank.mergeBytes_eq_ok hS).2 hmerge
  exact ⟨_, Message.parse_eq_ok.2 ⟨hok, rfl⟩, hblank.mergeBytes hS order defaultRecursionLimit _,
    hview⟩

/-- A message that is not nested too deep is parsed back, in any order, as what is present in it. -/
theorem Message.Fits.parse_encode (hS : S.Valid) (hm : m.Fits S type)
    (hparts : ∀ part ∈ m.parts S type 0, part.depth ≤ defaultRecursionLimit.toNat ∧
      part.message.declaresEnums (S.layout part.type) = true)
    (hlength : (m.encode S order (S.layout type)).length < 2 ^ 31) (order' : FieldOrder) :
    ∃ n : Message, Message.parse S order' type (m.encode S order (S.layout type)) = .ok n ∧
      n.Fits S type ∧
      n.view S (S.layout type) = (m.strip S (S.layout type)).view S (S.layout type) := by
  have hdepth : ∀ part ∈ m.parts S type 0, part.depth ≤ 0 + defaultRecursionLimit.toNat ∧
      part.message.declaresEnums (S.layout part.type) = true := by
    simpa using hparts
  obtain ⟨us, hconveys, happly⟩ := hm.exists_conveys hS hdepth hlength
  exact parse_of_conveys hS hconveys happly order'

section Present

/-- A message has the fields that are present in it, with or without what is stored for others. -/
theorem Message.Fits.has_strip (hm : m.Fits S type) (hf : (S.layout type).fields[i]? = some f) :
    (m.strip S (S.layout type)).has f i = m.has f i := by
  obtain ⟨slot, hslot⟩ := hm.exists_slot hf
  unfold Message.has
  rw [Message.slots_strip, getElem?_stripSlots hf hslot, hslot, Message.presence_strip,
    Message.cases_strip]
  cases hrep : f.isRepeated with
  | false => simp only [Field.isPresent_of_singular hrep]
  | true => simp [Field.isPresent_of_repeated hrep, isEmpty_stripSlot]

theorem Message.Fits.get_strip (hm : m.Fits S type) (hp : (S.layout type).fields[p.2]? = some p.1)
    (hpresent : m.has p.1 p.2 = true) (hleaf : p.1.element.type? = none) :
    (m.strip S (S.layout type)).get S p = m.get S p := by
  obtain ⟨slot, hslot⟩ := hm.exists_slot hp
  have hstrip : stripSlot S p.1 slot = slot := by
    unfold stripSlot
    split <;> simp [hleaf]
  replace hpresent : p.1.isPresent m.presence m.cases slot = true := by
    rwa [Message.has, hslot] at hpresent
  rw [Message.get, Message.get, Message.slots_strip, getElem?_stripSlots hp hslot, hslot, hpresent,
    Bool.not_true, Bool.and_false, if_neg Bool.false_ne_true, hstrip]

end Present

section Conformance

open Conformance (schema)

/-- A message that is written in one variant is parsed back in any other. The message that is parsed
has the same fields and the same oneof cases, shows the same values, and is equal. -/
theorem encoded_message_parses_back (V W : Conformance.Variant) (type : TypeId) {m : Message}
    (hm : Reachable schema V.order type m)
    (hdepth : ∀ part ∈ m.parts schema type 0, part.depth ≤ 100)
    (hsize : m.size schema (schema.layout type) < 2 ^ 31)
    (hdeclares : ∀ part ∈ m.parts schema type 0,
      part.message.declaresEnums (schema.layout part.type) = true) :
    ∃ n : Message,
      Message.parse schema W.order type (m.encode schema V.order (schema.layout type)) = .ok n ∧
      (∀ p ∈ (schema.layout type).fields.zipIdx, n.has p.1 p.2 = m.has p.1 p.2 ∧
        (m.has p.1 p.2 = true → p.1.element.type? = none →
          n.get schema p = m.get schema p)) ∧
      n.cases = m.cases ∧ m.beq schema (schema.layout type) n = true := by
  have hS := Conformance.valid
  have hfits := hm.fits hS
  have hlength : (m.encode schema V.order (schema.layout type)).length < 2 ^ 31 := by
    rwa [Message.length_encode]
  obtain ⟨n, hparse, hn, hview⟩ := hfits.parse_encode hS
    (fun part hpart => ⟨hdepth part hpart, hdeclares part hpart⟩) hlength W.order
  have hstrip := hfits.strip
  refine ⟨n, hparse, fun p hp => ⟨?_, fun hpresent hleaf => ?_⟩, ?_, ?_⟩
  · have hp := List.mem_zipIdx_iff_getElem?.1 hp
    rw [← hn.has_view hp, hview, hstrip.has_view hp, hfits.has_strip hp]
  · have hp := List.mem_zipIdx_iff_getElem?.1 hp
    rw [← hfits.get_strip hp hpresent hleaf, Message.get_eq_view hp, Message.get_eq_view hp, hview]
  · have hcases := congrArg Message.cases hview
    rwa [Message.cases_view, Message.cases_view, Message.cases_strip] at hcases
  · exact hfits.beq_of_view_eq_gist hn hview

/-- A tree with a child and a value, written in the order of the numbers and parsed in any order. -/
theorem encoded_message_parses_back_tree :
    (∃ n, Message.parse schema .unordered Conformance.Tree
        (((schema.blank Conformance.Tree).mergeBytes schema .ascending Conformance.Tree 100
          [10, 2, 16, 5, 16, 7]).2.encode schema .ascending (schema.layout Conformance.Tree)) =
            .ok n) ∧
      ((schema.blank Conformance.Tree).mergeBytes schema .ascending Conformance.Tree 100
        [10, 2, 16, 5, 16, 7]).2.size schema (schema.layout Conformance.Tree) = 6 := by
  have hm : Reachable schema Conformance.Variant.ascending.order Conformance.Tree
      ((Action.merge 100 [10, 2, 16, 5, 16, 7]).run schema .ascending Conformance.Tree
        (schema.blank Conformance.Tree)).2 :=
    .run (.blank _) (.merge 100 [10, 2, 16, 5, 16, 7])
  have hparts : (((schema.blank Conformance.Tree).mergeBytes schema .ascending Conformance.Tree 100
      [10, 2, 16, 5, 16, 7]).2.parts schema Conformance.Tree 0).all (fun part =>
        part.depth ≤ 100 && part.message.declaresEnums (schema.layout part.type)) = true := by cbv
  have hsize : ((schema.blank Conformance.Tree).mergeBytes schema .ascending Conformance.Tree 100
      [10, 2, 16, 5, 16, 7]).2.size schema (schema.layout Conformance.Tree) = 6 := by cbv
  simp only [List.all_eq_true, Bool.and_eq_true, decide_eq_true_eq] at hparts
  obtain ⟨n, hparse, -⟩ := encoded_message_parses_back .ascending .unordered Conformance.Tree hm
    (fun part hpart => (hparts part hpart).1) (hsize ▸ by decide)
    (fun part hpart => (hparts part hpart).2)
  exact ⟨⟨n, hparse⟩, hsize⟩

end Conformance

end ProtoWire
