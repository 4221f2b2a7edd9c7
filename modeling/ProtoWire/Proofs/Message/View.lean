import ProtoWire.Proofs.Message.Fits
import ProtoWire.Proofs.Message.Size

/-!
# What is seen of a message

Containers keep room and retained elements, and a message that was touched stays allocated after it
was cleared. Nothing of it is seen from outside.
-/

namespace ProtoWire

variable {L : Layout} {type : TypeId} {inner : TypeId → Message → Prop}

/-! ### Definitions -/

/-- Whether all fields of a message are at their defaults. A nested message counts as not. -/
def Message.isBlank (S : Schema) (L : Layout) (m : Message) : Bool :=
  m.presence.all (· == 0) && m.cases.all (· == 0) &&
    (List.zipWith (fun f slot => beqSlot S f.element slot f.blankSlot) L.fields m.slots).all id

/-- A nested message as it is stored in a view: one that holds nothing is left out. -/
def Schema.trim (S : Schema) (type : TypeId) (m : Message) : Option Message :=
  if m.isBlank S (S.layout type) then none else some m

mutual

/-- What is seen of a message. -/
def Message.view (S : Schema) (L : Layout) : Message → Message
  | ⟨presence, cases, slots⟩ => ⟨presence, cases, viewSlots S L.fields slots⟩

/-- What is seen of slots, each for its field. -/
def viewSlots (S : Schema) : List Field → List (Slot Message) → List (Slot Message)
  | f :: fields, slot :: slots => viewSlot S f slot :: viewSlots S fields slots
  | _, slots => slots

/-- What is seen of the slot of a field. -/
def viewSlot (S : Schema) (f : Field) : Slot Message → Slot Message
  | .scalar kind value => .scalar kind value
  | .text value => .text value
  | .blob value => .blob value
  | .sub none => .sub none
  | .sub (some m) =>
    match f.element.type? with
    | some type => .sub (S.trim type (m.view S (S.layout type)))
    | none => .sub none
  | .scalars kind c => .scalars kind (.ofList c.values)
  | .texts c => .texts (.ofList c.values)
  | .blobs c => .blobs (.ofList c.values)
  | .subs ⟨values, _, _⟩ =>
    match f.element.type? with
    | some type => .subs (.ofList (viewMessages S (S.layout type) values))
    | none => .subs .empty

/-- What is seen of messages. -/
def viewMessages (S : Schema) (L : Layout) : List Message → List Message
  | [] => []
  | m :: ms => m.view S L :: viewMessages S L ms

end

/-- What the getter of a field shows. -/
def Message.get (S : Schema) (m : Message) (p : PlacedField) : Option (Slot Message) :=
  m.slots[p.2]?.map (viewSlot S p.1)

/-! ### Parts of a view -/

section Parts

variable {S : Schema} {m : Message} {f : Field} {i : Nat} {slot : Slot Message}

@[simp] theorem Message.presence_view : (m.view S L).presence = m.presence := by
  cases m; rfl

@[simp] theorem Message.cases_view : (m.view S L).cases = m.cases := by
  cases m; rfl

theorem Message.slots_view : (m.view S L).slots = viewSlots S L.fields m.slots := by
  cases m; rfl

theorem slotWise_view : SlotWise (viewSlot S) (viewSlots S) where
  cons _ _ _ _ := rfl
  nil_left slots := by cases slots <;> rfl
  nil_right fields := by cases fields <;> rfl

theorem viewMessages_eq_map (ms : List Message) :
    viewMessages S L ms = ms.map (Message.view S L) := by
  induction ms with
  | nil => rfl
  | cons m ms ih => rw [viewMessages, ih, List.map_cons]

theorem Message.getElem?_view (hf : L.fields[i]? = some f) :
    (m.view S L).slots[i]? = m.slots[i]?.map (viewSlot S f) := by
  rw [slots_view, slotWise_view.getElem?_eq hf]

theorem Message.slot_view (hf : L.fields[i]? = some f) (hslot : m.slots[i]? = some slot) :
    (m.view S L).slots[i]? = some (viewSlot S f slot) := by
  rw [Message.getElem?_view hf, hslot, Option.map_some]

theorem viewSlot_sub (htype : f.element.type? = some type) (value : Option Message) :
    viewSlot S f (.sub value) =
      .sub (value.bind fun m => S.trim type (m.view S (S.layout type))) := by
  cases value with
  | none => rfl
  | some m => simp [viewSlot, htype]

theorem viewSlot_subs (htype : f.element.type? = some type) (c : Repeated Message) :
    viewSlot S f (.subs c) = .subs (.ofList (c.values.map (Message.view S (S.layout type)))) := by
  cases c
  simp [viewSlot, htype, viewMessages_eq_map]

theorem Repeated.ofList_inj {α : Type} {xs ys : List α} :
    Repeated.ofList xs = Repeated.ofList ys ↔ xs = ys := by
  constructor
  · intro h
    exact congrArg Repeated.values h
  · rintro rfl
    rfl

theorem Message.ext_slots {v w : Message} (hpresence : v.presence = w.presence)
    (hcases : v.cases = w.cases) (hv : v.slots.length = L.fields.length)
    (hw : w.slots.length = L.fields.length)
    (hslots : ∀ (i : Nat) (f : Field), L.fields[i]? = some f → v.slots[i]? = w.slots[i]?) :
    v = w := by
  cases v
  cases w
  simp only at hpresence hcases hv hw hslots
  subst hpresence hcases
  congr 1
  refine List.ext_getElem? fun i => ?_
  cases hf : L.fields[i]? with
  | some f => exact hslots i f hf
  | none =>
    rw [List.getElem?_eq_none_iff] at hf
    rw [List.getElem?_eq_none (by omega), List.getElem?_eq_none (by omega)]

theorem Message.view_setSlot (hf : L.fields[i]? = some f) (slot : Slot Message)
    (hm : m.slots.length = L.fields.length) :
    (m.setSlot i slot).view S L = (m.view S L).setSlot i (viewSlot S f slot) := by
  refine Message.ext_slots (L := L) ?_ ?_ ?_ ?_ fun j g hg => ?_
  · simp [Message.setSlot]
  · simp [Message.setSlot]
  · simp [Message.setSlot, slots_view, slotWise_view.length_eq, hm]
  · simp [Message.setSlot, slots_view, slotWise_view.length_eq, hm]
  · have hlt : i < m.slots.length := by
      rw [hm]
      exact (List.getElem?_eq_some_iff.1 hf).1
    rw [Message.getElem?_view hg]
    by_cases hij : i = j
    · subst hij
      rw [hf, Option.some.injEq] at hg
      subst hg
      simp [Message.setSlot, slots_view, slotWise_view.length_eq, hlt]
    · simp [Message.setSlot, hij, Message.getElem?_view hg]

theorem Message.view_markPresent : (m.markPresent f).view S L = (m.view S L).markPresent f := by
  cases m
  unfold Message.markPresent
  cases f.placement <;> rfl

end Parts

/-! ### Unset fields -/

section Blank

variable {S : Schema} {m : Message} {f : Field} {slot : Slot Message}

theorem viewSlot_blankSlot (f : Field) : viewSlot S f f.blankSlot = f.blankSlot := by
  obtain ⟨_, _, element, placement⟩ := f
  cases placement <;> cases element <;> rfl

theorem Message.view_blank : (S.blank type).view S (S.layout type) = S.blank type := by
  have hlength : (S.blank type).slots.length = (S.layout type).fields.length := List.length_map _
  refine Message.ext_slots (L := S.layout type) presence_view cases_view ?_ hlength fun i f hf => ?_
  · rw [slots_view, slotWise_view.length_eq, hlength]
  · rw [getElem?_view hf]
    simp [Schema.blank, Layout.blank, hf, viewSlot_blankSlot]

theorem beqSlot_viewSlot_blankSlot (h : f.Fits inner slot) :
    beqSlot S f.element (viewSlot S f slot) f.blankSlot = true ↔
      viewSlot S f slot = f.blankSlot := by
  cases hrep : f.isRepeated with
  | false =>
    have hstores := h.holds.stores hrep
    rw [Field.blankSlot_of_singular hrep]
    cases f
    cases hstores with
    | scalar | enum | text | blob => simp [viewSlot, Element.blankSlot, beqSlot]
    | @message type value | @group type value =>
      rw [viewSlot_sub rfl]
      cases (value.bind fun m => S.trim type (m.view S (S.layout type))) <;>
        simp [Element.blankSlot, beqSlot]
  | true =>
    have hcollects := h.holds.collects hrep
    rw [Field.blankSlot_of_repeated hrep]
    cases f
    cases hcollects with
    | scalar | enum | text | blob =>
      simp [viewSlot, Element.emptySlot, beqSlot, Repeated.ofList, Repeated.empty]
    | @message type c | @group type c =>
      rw [viewSlot_subs rfl]
      cases c.values <;>
        simp [Element.emptySlot, beqSlot, Repeated.ofList, Repeated.empty, beqMessages]

theorem isBlank_iff {v : Message} :
    v.isBlank S L = true ↔
      (∀ word ∈ v.presence, word = 0) ∧ (∀ number ∈ v.cases, number = 0) ∧
        ∀ (i : Nat) (f : Field) (slot : Slot Message), L.fields[i]? = some f →
          v.slots[i]? = some slot → beqSlot S f.element slot f.blankSlot = true := by
  have hslots : (List.zipWith (fun f slot => beqSlot S f.element slot f.blankSlot) L.fields
      v.slots).all id = true ↔
      ∀ (i : Nat) (f : Field) (slot : Slot Message), L.fields[i]? = some f →
        v.slots[i]? = some slot → beqSlot S f.element slot f.blankSlot = true := by
    rw [List.all_eq_true]
    constructor
    · intro h i f slot hf hslot
      refine h _ (List.mem_of_getElem? (i := i) ?_)
      rw [List.getElem?_zipWith, hf, hslot]
    · intro h b hb
      obtain ⟨i, hi⟩ := List.mem_iff_getElem?.1 hb
      rw [List.getElem?_zipWith] at hi
      cases hf : L.fields[i]? with
      | none => simp [hf] at hi
      | some f =>
        cases hslot : v.slots[i]? with
        | none => simp [hf, hslot] at hi
        | some slot =>
          simp only [hf, hslot, Option.some.injEq] at hi
          exact hi ▸ h i f slot hf hslot
  rw [Message.isBlank, Bool.and_eq_true, Bool.and_eq_true, hslots, and_assoc]
  simp

theorem Message.Fits.isBlank_view (h : m.Fits S type) :
    (m.view S (S.layout type)).isBlank S (S.layout type) = true ↔
      m.view S (S.layout type) = S.blank type := by
  have hblank : (S.blank type).slots.length = (S.layout type).fields.length := List.length_map _
  have hslot : ∀ (i : Nat) (f : Field) (slot : Slot Message), (S.layout type).fields[i]? = some f →
      m.slots[i]? = some slot →
      (beqSlot S f.element (viewSlot S f slot) f.blankSlot = true ↔
        viewSlot S f slot = f.blankSlot) :=
    fun i f slot hf hslot => beqSlot_viewSlot_blankSlot (h.atSlot hf hslot)
  rw [isBlank_iff, Message.presence_view, Message.cases_view]
  constructor
  · rintro ⟨hpresence, hcases, hslots⟩
    refine Message.ext_slots (L := S.layout type) ?_ ?_ ?_ hblank fun i f hf => ?_
    · rw [Message.presence_view]
      exact List.eq_replicate_iff.2 ⟨h.coherent.presence_length, hpresence⟩
    · rw [Message.cases_view]
      exact List.eq_replicate_iff.2 ⟨h.coherent.cases_length, hcases⟩
    · rw [Message.slots_view, slotWise_view.length_eq, h.length]
    · obtain ⟨slot, hm⟩ := h.exists_slot hf
      have hview := Message.getElem?_view (S := S) (m := m) hf
      rw [hm, Option.map_some] at hview
      rw [hview, (hslot i f slot hf hm).1 (hslots i f _ hf hview)]
      simp [Schema.blank, Layout.blank, hf]
  · intro heq
    have hpresence := congrArg Message.presence heq
    have hcases := congrArg Message.cases heq
    rw [Message.presence_view] at hpresence
    rw [Message.cases_view] at hcases
    refine ⟨?_, ?_, fun i f slot hf hslot' => ?_⟩
    · rw [hpresence]
      exact fun word hword => List.eq_of_mem_replicate hword
    · rw [hcases]
      exact fun number hnumber => List.eq_of_mem_replicate hnumber
    · obtain ⟨slot', hm⟩ := h.exists_slot hf
      have hview := Message.getElem?_view (S := S) (m := m) hf
      rw [hm, Option.map_some, hslot'] at hview
      have hdefault : slot = f.blankSlot := by
        rw [heq] at hslot'
        simpa [Schema.blank, Layout.blank, hf, eq_comm] using hslot'
      rw [Option.some.injEq] at hview
      rw [hview, (hslot i f slot' hf hm)]
      rw [← hview, hdefault]

theorem Message.Fits.getD_trim (h : m.Fits S type) :
    (S.trim type (m.view S (S.layout type))).getD (S.blank type) = m.view S (S.layout type) := by
  unfold Schema.trim
  split
  · rename_i hblank
    exact (h.isBlank_view.1 hblank).symm
  · rfl

theorem Message.Fits.trim_inj {n : Message} (hm : m.Fits S type) (hn : n.Fits S type)
    (h : S.trim type (m.view S (S.layout type)) = S.trim type (n.view S (S.layout type))) :
    m.view S (S.layout type) = n.view S (S.layout type) := by
  rw [← hm.getD_trim, ← hn.getD_trim, h]

theorem Schema.trim_blank (hS : (S.layout type).Valid) : S.trim type (S.blank type) = none := by
  have hblank := (Message.Fits.blank hS).isBlank_view.2 Message.view_blank
  rw [Message.view_blank] at hblank
  exact if_pos hblank

theorem viewSlot_clearSlot (hS : S.Valid) (h : f.Fits inner slot)
    (hinner : ∀ type ∈ f.element.type?, ∀ m ∈ slot.messages,
      (m.clear S (S.layout type)).view S (S.layout type) = S.blank type) :
    viewSlot S f (clearSlot S f slot) = f.blankSlot := by
  have hblank := viewSlot_blankSlot (S := S) f
  cases hrep : f.isRepeated with
  | false =>
    have hstores := h.holds.stores hrep
    have hslot := Field.blankSlot_of_singular hrep
    have hsub : ∀ (type : TypeId) (m : Message), f.element.type? = some type → m ∈ slot.messages →
        viewSlot S f (.sub (some (m.clear S (S.layout type)))) = .sub none := by
      intro type m htype hm
      rw [viewSlot_sub htype, Option.bind_some, hinner type htype m hm, S.trim_blank (hS type)]
    cases f
    cases hstores with
    | scalar | enum | text | blob => exact hblank
    | @message type value | @group type value =>
      rw [hslot]
      cases value with
      | none => rfl
      | some m => exact hsub type m rfl (List.mem_singleton_self m)
  | true =>
    have hcollects := h.holds.collects hrep
    rw [Field.blankSlot_of_repeated hrep]
    cases f
    cases hcollects <;> rfl

/-- A message that was cleared looks like a new one. -/
theorem Message.view_clear (hS : S.Valid) (h : m.Fits S type) :
    (m.clear S (S.layout type)).view S (S.layout type) = S.blank type := by
  induction h with
  | @step type m hm ih =>
    have hblank : (S.blank type).slots.length = (S.layout type).fields.length := List.length_map _
    cases m
    unfold Message.clear
    refine Message.ext_slots (L := S.layout type) ?_ ?_ ?_ hblank fun i f hf => ?_
    · rw [presence_view]
      exact List.eq_replicate_iff.2
        ⟨(List.length_map _).trans hm.coherent.presence_length, by simp⟩
    · rw [cases_view]
      exact List.eq_replicate_iff.2 ⟨(List.length_map _).trans hm.coherent.cases_length, by simp⟩
    · rw [slots_view, slotWise_view.length_eq]
      exact slotWise_clear.length_eq.trans hm.length
    · obtain ⟨slot, hslot⟩ := Message.exists_slot hm.length hf
      have hfits := hm.atSlot hf hslot
      rw [getElem?_view hf, slotWise_clear.getElem?_eq hf, hslot, Option.map_some, Option.map_some,
        viewSlot_clearSlot hS hfits (ih hf hslot)]
      simp [Schema.blank, Layout.blank, hf]

end Blank

/-! ### Encoding -/

section Encoding

variable {S : Schema} {order : FieldOrder} {m : Message} {f : Field} {slot : Slot Message}

theorem isEmpty_viewSlot (h : f.Fits inner slot) : (viewSlot S f slot).isEmpty = slot.isEmpty := by
  cases h.shape with
  | sub _ htype => rw [viewSlot_sub htype]; rfl
  | subs _ htype => simp [viewSlot_subs htype, Slot.isEmpty, Repeated.ofList]
  | scalar | text | blob | scalars | texts | blobs => rfl

theorem isPresent_viewSlot (h : f.Fits inner slot) (presence : Presence) (cases : List UInt32) :
    f.isPresent presence cases (viewSlot S f slot) = f.isPresent presence cases slot := by
  unfold Field.isPresent
  rw [isEmpty_viewSlot h]

theorem Message.Unset.isPresent (h : m.Unset) (hnumber : f.number ≠ 0)
    (hslot : slot.isEmpty = f.isRepeated) : f.isPresent m.presence m.cases slot = false := by
  cases hrep : f.isRepeated with
  | false => rw [Field.isPresent_of_singular hrep, h.isMarked hnumber]
  | true => rw [Field.isPresent_of_repeated hrep, hslot, hrep]; rfl

theorem Field.isEmpty_blankSlot (f : Field) : f.blankSlot.isEmpty = f.isRepeated := by
  obtain ⟨_, _, element, placement⟩ := f
  cases placement <;> cases element <;> rfl

theorem encodeSlot_sub (htype : f.element.type? = some type) (m : Message) :
    encodeSlot S order f (.sub (some m)) =
      writeNested f (m.size S (S.layout type)) (m.encode S order (S.layout type)) := by
  rw [encodeSlot]
  obtain ⟨_, _, element, _⟩ := f
  cases element <;> cases htype <;> rfl

theorem encodeSlot_subs (htype : f.element.type? = some type) (c : Repeated Message) :
    encodeSlot S order f (.subs c) = c.values.flatMap fun m =>
      writeNested f (m.size S (S.layout type)) (m.encode S order (S.layout type)) := by
  rw [← encodeMessages_eq_flatMap]
  obtain ⟨_, _, element, _⟩ := f
  cases c
  rw [encodeSlot]
  cases element <;> cases htype <;> rfl

/-- A message is written like another one with the same marks, if each of its fields is. -/
theorem Message.encode_congr {n : Message} (hpresence : m.presence = n.presence)
    (hcases : m.cases = n.cases) (hlength : m.slots.length = n.slots.length)
    (h : ∀ (i : Nat) (f : Field) (slot slot' : Slot Message), L.fields[i]? = some f →
      m.slots[i]? = some slot → n.slots[i]? = some slot' →
        f.written S order m.presence m.cases slot = f.written S order m.presence m.cases slot') :
    m.encode S order L = n.encode S order L := by
  obtain ⟨_, _, slots⟩ := m
  cases n
  simp only at hpresence hcases hlength h
  subst hpresence hcases
  rw [Message.encode, Message.encode, encodeSlots_eq_zipWith, encodeSlots_eq_zipWith]
  congr 2
  refine List.ext_getElem? fun i => ?_
  rw [List.getElem?_zipWith, List.getElem?_zipWith]
  cases hf : L.fields[i]? with
  | none => rfl
  | some f =>
    by_cases hi : i < slots.length
    · have hslot := List.getElem?_eq_getElem hi
      have hslot' := List.getElem?_eq_getElem (hlength ▸ hi)
      simp only [hslot, hslot', h i f _ _ hf hslot hslot']
    · simp [hi, ← hlength]

end Encoding

end ProtoWire
