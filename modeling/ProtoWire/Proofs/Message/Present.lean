import ProtoWire.Proofs.Message.View

/-!
# What is present in a message

* `Message.strip`: a message without what is stored for absent fields.
-/

namespace ProtoWire

variable {slots : List (Slot Message)} {cases : List UInt32} {fields : List Field}
  {presence : Presence}

/-! ### Definitions -/

/-- A message that is present inside another one, so many levels deep. -/
structure Part where
  depth : Nat
  type : TypeId
  message : Message

mutual

/-- A message at a depth, and the messages that are present inside it. -/
def Message.parts (S : Schema) (type : TypeId) (depth : Nat) : Message → List Part
  | ⟨presence, cases, slots⟩ =>
    ⟨depth, type, ⟨presence, cases, slots⟩⟩ ::
      partsOfSlots S presence cases depth (S.layout type).fields slots

/-- The messages that are present in slots. -/
def partsOfSlots (S : Schema) (presence : Presence) (cases : List UInt32) (depth : Nat) :
    List Field → List (Slot Message) → List Part
  | f :: fields, slot :: slots =>
    (if f.isPresent presence cases slot then partsOfSlot S depth f slot else []) ++
      partsOfSlots S presence cases depth fields slots
  | _, _ => []

/-- The messages that are present in the slot of a field. -/
def partsOfSlot (S : Schema) (depth : Nat) (f : Field) : Slot Message → List Part
  | .sub (some m) =>
    match f.element.type? with
    | some type => m.parts S type (depth + 1)
    | none => []
  | .subs ⟨values, _, _⟩ =>
    match f.element.type? with
    | some type => partsOfMessages S type (depth + 1) values
    | none => []
  | .sub none | .scalar _ _ | .text _ | .blob _ | .scalars _ _ | .texts _ | .blobs _ => []

/-- Messages at a depth, and the messages that are present inside them. -/
def partsOfMessages (S : Schema) (type : TypeId) (depth : Nat) : List Message → List Part
  | [] => []
  | m :: ms => m.parts S type depth ++ partsOfMessages S type depth ms

end

/-- Whether a slot holds a number that is declared, if it is that of an enum without default. -/
def Element.declares : Element → Slot Message → Bool
  | .enum declared none, .scalar .int32 value => declared.any (·.2 == value)
  | _, _ => true

/-- Whether the enum fields without default that are present hold declared numbers. -/
def Message.declaresEnums (L : Layout) (m : Message) : Bool :=
  (List.zipWith (fun f slot =>
    !f.isPresent m.presence m.cases slot || f.element.declares slot) L.fields m.slots).all id

mutual

/-- A message without what is stored for absent fields. -/
def Message.strip (S : Schema) (L : Layout) : Message → Message
  | ⟨presence, cases, slots⟩ => ⟨presence, cases, stripSlots S presence cases L.fields slots⟩

/-- Slots without what is stored for absent fields. -/
def stripSlots (S : Schema) (presence : Presence) (cases : List UInt32) :
    List Field → List (Slot Message) → List (Slot Message)
  | f :: fields, slot :: slots =>
    (if !f.isRepeated && !f.isPresent presence cases slot then f.blankSlot
      else stripSlot S f slot) :: stripSlots S presence cases fields slots
  | _, slots => slots

/-- The slot of a field that is present. -/
def stripSlot (S : Schema) (f : Field) : Slot Message → Slot Message
  | .sub (some m) =>
    match f.element.type? with
    | some type => .sub (some (m.strip S (S.layout type)))
    | none => .sub (some m)
  | .subs ⟨values, retained, capacity⟩ =>
    match f.element.type? with
    | some type => .subs ⟨stripMessages S (S.layout type) values, retained, capacity⟩
    | none => .subs ⟨values, retained, capacity⟩
  | .sub none => .sub none
  | .scalar kind value => .scalar kind value
  | .text value => .text value
  | .blob value => .blob value
  | .scalars kind c => .scalars kind c
  | .texts c => .texts c
  | .blobs c => .blobs c

/-- Messages without what is stored for absent fields. -/
def stripMessages (S : Schema) (L : Layout) : List Message → List Message
  | [] => []
  | m :: ms => m.strip S L :: stripMessages S L ms

end

/-! ### Parts -/

section Parts

variable {S : Schema} {type : TypeId} {depth : Nat} {m : Message} {f : Field} {i : Nat}
  {slot : Slot Message}

theorem Message.mem_parts (S : Schema) (type : TypeId) (depth : Nat) (m : Message) :
    ⟨depth, type, m⟩ ∈ m.parts S type depth := by
  cases m
  exact List.mem_cons_self

theorem partsOfSlot_subset (hf : fields[i]? = some f) (hslot : slots[i]? = some slot)
    (hpresent : f.isPresent presence cases slot = true) :
    partsOfSlot S depth f slot ⊆ partsOfSlots S presence cases depth fields slots := by
  induction fields generalizing slots i with
  | nil => simp at hf
  | cons g fields ih =>
    cases slots with
    | nil => simp at hslot
    | cons slot' slots =>
      rw [partsOfSlots]
      cases i with
      | zero =>
        rw [List.getElem?_cons_zero, Option.some.injEq] at hf hslot
        subst hf hslot
        rw [if_pos hpresent]
        exact List.subset_append_left ..
      | succ i => exact List.subset_append_of_subset_right _ (ih hf hslot)

theorem partsOfMessages_subset {ms : List Message} (hm : m ∈ ms) :
    m.parts S type depth ⊆ partsOfMessages S type depth ms := by
  induction ms with
  | nil => exact absurd hm List.not_mem_nil
  | cons m' ms ih =>
    rw [partsOfMessages]
    rcases List.mem_cons.1 hm with rfl | hm
    · exact List.subset_append_left ..
    · exact List.subset_append_of_subset_right _ (ih hm)

/-- The messages that are the values of a slot. -/
def Slot.valueMessages : Slot Message → List Message
  | sub value => value.toList
  | subs c => c.values
  | scalar _ _ | text _ | blob _ | scalars _ _ | texts _ | blobs _ => []

theorem Message.parts_subset (hf : (S.layout type).fields[i]? = some f)
    (hslot : m.slots[i]? = some slot) (hpresent : f.isPresent m.presence m.cases slot = true)
    {t : TypeId} (htype : f.element.type? = some t) {m' : Message}
    (hm' : m' ∈ slot.valueMessages) :
    m'.parts S t (depth + 1) ⊆ m.parts S type depth := by
  have hinner : m'.parts S t (depth + 1) ⊆ partsOfSlot S depth f slot := by
    cases slot with
    | sub value =>
      obtain rfl : value = some m' := Option.mem_toList.1 hm'
      simp only [partsOfSlot, htype]
      exact List.Subset.refl _
    | subs c =>
      simp only [partsOfSlot, htype]
      exact partsOfMessages_subset hm'
    | scalar | text | blob | scalars | texts | blobs => cases hm'
  cases m
  have hslots := List.Subset.trans hinner (partsOfSlot_subset hf hslot hpresent)
  exact List.Subset.trans hslots (List.subset_cons_self ..)

theorem Message.declares_of_declaresEnums {L : Layout} (h : m.declaresEnums L = true)
    (hf : L.fields[i]? = some f) (hslot : m.slots[i]? = some slot)
    (hpresent : f.isPresent m.presence m.cases slot = true) : f.element.declares slot = true := by
  unfold Message.declaresEnums at h
  have hmem := List.all_eq_true.1 h _ (List.mem_of_getElem? (i := i) (by
    rw [List.getElem?_zipWith, hf, hslot]))
  simpa [hpresent] using hmem

end Parts

/-! ### Absent fields -/

section Strip

variable {S : Schema} {L : Layout} {type : TypeId} {m : Message} {f : Field} {i : Nat}
  {slot : Slot Message}

@[simp] theorem Message.presence_strip : (m.strip S L).presence = m.presence := by
  cases m; rfl

@[simp] theorem Message.cases_strip : (m.strip S L).cases = m.cases := by
  cases m; rfl

theorem Message.slots_strip :
    (m.strip S L).slots = stripSlots S m.presence m.cases L.fields m.slots := by
  cases m; rfl

theorem slotWise_strip : SlotWise
    (fun f slot => if !f.isRepeated && !f.isPresent presence cases slot then f.blankSlot
      else stripSlot S f slot) (stripSlots S presence cases) where
  cons _ _ _ _ := rfl
  nil_left slots := by cases slots <;> rfl
  nil_right fields := by cases fields <;> rfl

theorem getElem?_stripSlots (hf : fields[i]? = some f) (hslot : slots[i]? = some slot) :
    (stripSlots S presence cases fields slots)[i]? =
      some (if !f.isRepeated && !f.isPresent presence cases slot then f.blankSlot
        else stripSlot S f slot) := by
  rw [slotWise_strip.getElem?_eq hf, hslot, Option.map_some]

theorem stripMessages_eq_map (ms : List Message) :
    stripMessages S L ms = ms.map (Message.strip S L) := by
  induction ms with
  | nil => rfl
  | cons m ms ih => rw [stripMessages, ih, List.map_cons]

theorem stripSlot_sub (htype : f.element.type? = some type) (value : Option Message) :
    stripSlot S f (.sub value) = .sub (value.map (Message.strip S (S.layout type))) := by
  cases value with
  | none => rfl
  | some m => simp [stripSlot, htype]

theorem stripSlot_subs (htype : f.element.type? = some type) (c : Repeated Message) :
    stripSlot S f (.subs c) =
      .subs { c with values := c.values.map (Message.strip S (S.layout type)) } := by
  cases c
  simp [stripSlot, htype, stripMessages_eq_map]

theorem Field.Fits.stripSlot {inner : TypeId → Message → Prop} (h : f.Fits inner slot)
    (hstrip : ∀ type ∈ f.element.type?, ∀ m ∈ slot.messages,
      inner type (m.strip S (S.layout type))) : f.Fits inner (stripSlot S f slot) := by
  cases h.shape with
  | @sub type value _ htype _ store =>
    rw [stripSlot_sub htype]
    refine store _ fun m hm => ?_
    obtain ⟨m', hm', rfl⟩ := Option.map_eq_some_iff.1 hm
    exact hstrip type htype m' (Option.mem_toList.2 hm')
  | @subs type c _ htype sound store =>
    rw [stripSlot_subs htype]
    refine store _ (sound.withValues (List.length_map _) fun m hm => ?_)
    obtain ⟨m', hm', rfl⟩ := List.mem_map.1 hm
    exact hstrip type htype m' (List.mem_append_left _ hm')
  | scalar | text | blob | scalars | texts | blobs => exact h

theorem isStored_stripSlot (h : slot.isStored = true) : (stripSlot S f slot).isStored = true := by
  cases slot with
  | sub value =>
    cases value with
    | none => cases h
    | some m =>
      unfold stripSlot
      split <;> rfl
  | subs c =>
    unfold stripSlot
    split <;> rfl
  | scalar | text | blob | scalars | texts | blobs => rfl

/-- A message fits without what is stored for absent fields. -/
theorem Message.Fits.strip (h : m.Fits S type) : (m.strip S (S.layout type)).Fits S type := by
  induction h with
  | @step type m hm ih =>
    refine .of_slots (hm.coherent.congr Message.presence_strip Message.cases_strip) ?_
      fun i f slot hf hslot => ?_
    · rw [Message.slots_strip, slotWise_strip.length_eq, hm.length]
    · obtain ⟨slot', hslot'⟩ := hm.exists_slot hf
      rw [Message.slots_strip, getElem?_stripSlots hf hslot', Option.some.injEq] at hslot
      subst hslot
      rw [Message.presence_strip, Message.cases_strip]
      split
      · rename_i habsent
        refine ⟨.of_leaf f.holds_blankSlot f.messages_blankSlot, fun hmarked => ?_⟩
        rw [Bool.and_eq_true, Bool.not_eq_true', Bool.not_eq_true'] at habsent
        rw [Field.isPresent_of_singular habsent.1, hmarked] at habsent
        cases habsent.2
      · exact ⟨(hm.atSlot hf hslot').stripSlot (ih hf hslot'), fun hmarked =>
            isStored_stripSlot (hm.stored hf hslot' hmarked)⟩

theorem Message.getElem?_view_strip (hf : (S.layout type).fields[i]? = some f)
    (hslot : m.slots[i]? = some slot) :
    ((m.strip S (S.layout type)).view S (S.layout type)).slots[i]? =
      some (viewSlot S f
        (if !f.isRepeated && !f.isPresent m.presence m.cases slot then f.blankSlot
          else stripSlot S f slot)) := by
  rw [Message.getElem?_view hf, Message.slots_strip, getElem?_stripSlots hf hslot, Option.map_some]

theorem isEmpty_stripSlot (slot : Slot Message) :
    (stripSlot S f slot).isEmpty = slot.isEmpty := by
  cases slot with
  | sub value =>
    cases value with
    | none => rfl
    | some m =>
      unfold stripSlot
      split
      · rfl
      · rfl
  | subs c =>
    cases c
    unfold stripSlot
    split
    · simp [Slot.isEmpty, stripMessages_eq_map]
    · rfl
  | scalar | text | blob | scalars | texts | blobs => rfl

end Strip

end ProtoWire
