import ProtoWire.Proofs.Message.Coherent
import ProtoWire.Proofs.Repeated.Sound

/-!
# Messages that fit their layout

* `Message.Fits`: every slot holds what its field says, presence is coherent, a message that is
  present is there, and the messages inside fit as well.
* `Message.Fits.blank`, `Message.Fits.setSlot`, `Message.Fits.markPresent`,
  `Message.Fits.clear`, …: the operations that a message is changed by keep it fitting.
-/

namespace ProtoWire

variable {slot : Slot Message} {f : Field} {α : Type} {c : Repeated α} {size i : Nat}
  {inner : TypeId → Message → Prop} {type : TypeId} {S : Schema} {m : Message}

/-! ### Slots -/

/-- The storage of a singular field. -/
inductive Element.Stores : Element → Slot Message → Prop where
  | scalar {kind : Scalar} {default value : kind.Value} :
    Stores (.scalar kind default) (.scalar kind value)
  | enum {declared : List (String × Int32)} {default : Option Int32} {value : Int32} :
    Stores (.enum declared default) (.scalar .int32 value)
  | text {default value : String} : Stores (.text default) (.text value)
  | blob {default value : Bytes} : Stores (.blob default) (.blob value)
  | message {type : TypeId} {value : Option Message} : Stores (.message type) (.sub value)
  | group {type : TypeId} {value : Option Message} : Stores (.group type) (.sub value)

/-- The storage of a repeated field. -/
inductive Element.Collects : Element → Slot Message → Prop where
  | scalar {kind : Scalar} {default : kind.Value} {c : Repeated kind.Value}
    (sound : c.Sound kind.storageSize fun _ => True) :
    Collects (.scalar kind default) (.scalars kind c)
  | enum {declared : List (String × Int32)} {default : Option Int32} {c : Repeated Int32}
    (sound : c.Sound (Scalar.storageSize .int32) fun _ => True) :
    Collects (.enum declared default) (.scalars .int32 c)
  | text {default : String} {c : Repeated String} (sound : c.Sound textSize fun _ => True) :
    Collects (.text default) (.texts c)
  | blob {default : Bytes} {c : Repeated Bytes} (sound : c.Sound blobSize fun _ => True) :
    Collects (.blob default) (.blobs c)
  | message {type : TypeId} {c : Repeated Message} (sound : c.Sound messageSize fun _ => True) :
    Collects (.message type) (.subs c)
  | group {type : TypeId} {c : Repeated Message} (sound : c.Sound messageSize fun _ => True) :
    Collects (.group type) (.subs c)

/-- A slot is of the kind that the field is stored in. -/
def Field.Holds (f : Field) (slot : Slot Message) : Prop :=
  if f.isRepeated then f.element.Collects slot else f.element.Stores slot

theorem Field.Holds.collects (h : f.Holds slot) (hrep : f.isRepeated = true) :
    f.element.Collects slot := by
  rwa [Field.Holds, if_pos hrep] at h

theorem Field.Holds.stores (h : f.Holds slot) (hrep : f.isRepeated = false) :
    f.element.Stores slot := by
  rwa [Field.Holds, if_neg (by simp [hrep])] at h

theorem Field.holds_of_collects (hrep : f.isRepeated = true) (h : f.element.Collects slot) :
    f.Holds slot := by
  rwa [Field.Holds, if_pos hrep]

theorem Field.holds_of_stores (hrep : f.isRepeated = false) (h : f.element.Stores slot) :
    f.Holds slot := by
  rwa [Field.Holds, if_neg (by simp [hrep])]

namespace Slot

/-- The messages inside a slot, with those a container retains. -/
def messages : Slot Message → List Message
  | sub value => value.toList
  | subs c => c.values ++ c.retained
  | scalar _ _ | text _ | blob _ | scalars _ _ | texts _ | blobs _ => []

/-- Whether something is stored: all but a message that was never touched. -/
def isStored {M : Type} : Slot M → Bool
  | sub none => false
  | _ => true

end Slot

/-- A slot is of the kind of its field, and the messages in it have a property. -/
structure Field.Fits (inner : TypeId → Message → Prop) (f : Field) (slot : Slot Message) : Prop where
  holds : f.Holds slot
  inner : ∀ type ∈ f.element.type?, ∀ m ∈ slot.messages, inner type m

theorem Repeated.Sound.of_all {P : α → Prop} (h : c.Sound size fun _ => True)
    (hall : ∀ a ∈ c.values ++ c.retained, P a) : c.Sound size P :=
  ⟨h.room, h.capacity_le, fun a ha => hall a (List.mem_append_left _ ha),
    fun a ha => hall a (List.mem_append_right _ ha)⟩

theorem Repeated.Sound.all {P : α → Prop} (h : c.Sound size P) :
    ∀ a ∈ c.values ++ c.retained, P a := by
  intro a ha
  rcases List.mem_append.1 ha with ha | ha
  · exact h.values a ha
  · exact h.retained a ha

section Kinds

theorem Field.Fits.of_leaf (h : f.Holds slot) (hnil : slot.messages = []) : f.Fits inner slot := by
  refine ⟨h, ?_⟩
  rw [hnil]
  exact fun _ _ _ => nofun

theorem Field.Fits.of_messages (h : f.Holds slot) (htype : f.element.type? = some type)
    (hinner : ∀ m ∈ slot.messages, inner type m) : f.Fits inner slot := by
  refine ⟨h, fun t ht m hm => ?_⟩
  rw [Option.mem_def, htype, Option.some.injEq] at ht
  exact ht ▸ hinner m hm

/-- What a slot that fits looks like, and what else may be stored in it: by the kind of the slot. -/
inductive Field.Shape (inner : TypeId → Message → Prop) (f : Field) : Slot Message → Prop where
  | scalar {kind : Scalar} {value : kind.Value} (singular : f.isRepeated = false)
    (store : ∀ value, f.Fits inner (.scalar kind value)) : Shape inner f (.scalar kind value)
  | text {value : String} (singular : f.isRepeated = false)
    (store : ∀ value, f.Fits inner (.text value)) : Shape inner f (.text value)
  | blob {value : Bytes} (singular : f.isRepeated = false)
    (store : ∀ value, f.Fits inner (.blob value)) : Shape inner f (.blob value)
  | sub {type : TypeId} {value : Option Message} (singular : f.isRepeated = false)
    (element : f.element.type? = some type) (stored : ∀ m ∈ value, inner type m)
    (store : ∀ value, (∀ m ∈ value, inner type m) → f.Fits inner (.sub value)) :
    Shape inner f (.sub value)
  | scalars {kind : Scalar} {c : Repeated kind.Value} (repeated : f.isRepeated = true)
    (sound : c.Sound kind.storageSize fun _ => True)
    (store : ∀ c : Repeated kind.Value, c.Sound kind.storageSize (fun _ => True) →
      f.Fits inner (.scalars kind c)) : Shape inner f (.scalars kind c)
  | texts {c : Repeated String} (repeated : f.isRepeated = true)
    (sound : c.Sound textSize fun _ => True)
    (store : ∀ c : Repeated String, c.Sound textSize (fun _ => True) → f.Fits inner (.texts c)) :
    Shape inner f (.texts c)
  | blobs {c : Repeated Bytes} (repeated : f.isRepeated = true)
    (sound : c.Sound blobSize fun _ => True)
    (store : ∀ c : Repeated Bytes, c.Sound blobSize (fun _ => True) → f.Fits inner (.blobs c)) :
    Shape inner f (.blobs c)
  | subs {type : TypeId} {c : Repeated Message} (repeated : f.isRepeated = true)
    (element : f.element.type? = some type) (sound : c.Sound messageSize (inner type))
    (store : ∀ c : Repeated Message, c.Sound messageSize (inner type) → f.Fits inner (.subs c)) :
    Shape inner f (.subs c)

theorem Field.Fits.shape_of_singular (h : f.Fits inner slot) (hrep : f.isRepeated = false) :
    f.Shape inner slot := by
  have hstores := h.holds.stores hrep
  have hinner := h.inner
  have hleaf : ∀ {slot : Slot Message}, f.element.Stores slot → slot.messages = [] →
      f.Fits inner slot := fun h => .of_leaf (Field.holds_of_stores hrep h)
  have hsub : ∀ type, f.element.type? = some type → (∀ value, f.element.Stores (.sub value)) →
      ∀ value : Option Message, (∀ m ∈ value, inner type m) → f.Fits inner (.sub value) :=
    fun type htype hsub value hvalue =>
      .of_messages (Field.holds_of_stores hrep (hsub value)) htype
        fun m hm => hvalue m (Option.mem_toList.1 hm)
  cases f
  cases hstores with
  | scalar => exact .scalar hrep fun _ => hleaf .scalar rfl
  | enum => exact .scalar hrep fun _ => hleaf .enum rfl
  | text => exact .text hrep fun _ => hleaf .text rfl
  | blob => exact .blob hrep fun _ => hleaf .blob rfl
  | @message type value =>
    exact .sub hrep rfl (fun m hm => hinner type rfl m (Option.mem_toList.2 hm))
      (hsub type rfl fun _ => .message)
  | @group type value =>
    exact .sub hrep rfl (fun m hm => hinner type rfl m (Option.mem_toList.2 hm))
      (hsub type rfl fun _ => .group)

theorem Field.Fits.shape_of_repeated (h : f.Fits inner slot) (hrep : f.isRepeated = true) :
    f.Shape inner slot := by
  have hcollects := h.holds.collects hrep
  have hinner := h.inner
  have hleaf : ∀ {slot : Slot Message}, f.element.Collects slot → slot.messages = [] →
      f.Fits inner slot := fun h => .of_leaf (Field.holds_of_collects hrep h)
  have hsubs : ∀ type, f.element.type? = some type →
      (∀ c : Repeated Message, c.Sound messageSize (fun _ => True) → f.element.Collects (.subs c)) →
      ∀ c : Repeated Message, c.Sound messageSize (inner type) → f.Fits inner (.subs c) :=
    fun type htype hsubs c hc =>
      .of_messages (Field.holds_of_collects hrep (hsubs c (hc.mono fun _ _ => trivial))) htype hc.all
  cases f
  cases hcollects with
  | scalar sound => exact .scalars hrep sound fun _ hc => hleaf (.scalar hc) rfl
  | enum sound => exact .scalars hrep sound fun _ hc => hleaf (.enum hc) rfl
  | text sound => exact .texts hrep sound fun _ hc => hleaf (.text hc) rfl
  | blob sound => exact .blobs hrep sound fun _ hc => hleaf (.blob hc) rfl
  | @message type c sound =>
    exact .subs hrep rfl (sound.of_all (hinner type rfl)) (hsubs type rfl fun _ hc => .message hc)
  | @group type c sound =>
    exact .subs hrep rfl (sound.of_all (hinner type rfl)) (hsubs type rfl fun _ hc => .group hc)

theorem Field.Fits.shape (h : f.Fits inner slot) : f.Shape inner slot := by
  cases hrep : f.isRepeated with
  | true => exact h.shape_of_repeated hrep
  | false => exact h.shape_of_singular hrep

end Kinds

/-! ### Messages -/

/-- A message that a message type's layout describes. -/
inductive Message.Fits (S : Schema) : TypeId → Message → Prop where
  | intro {type : TypeId} {m : Message}
    (coherent : m.Coherent (S.layout type))
    (length : m.slots.length = (S.layout type).fields.length)
    (holds : ∀ (i : Nat) (f : Field) (slot : Slot Message),
      (S.layout type).fields[i]? = some f → m.slots[i]? = some slot → f.Holds slot)
    (stored : ∀ (i : Nat) (f : Field) (slot : Slot Message),
      (S.layout type).fields[i]? = some f → m.slots[i]? = some slot →
        f.isMarked m.presence m.cases = true → slot.isStored = true)
    (inner : ∀ (i : Nat) (f : Field) (slot : Slot Message) (t : TypeId) (m' : Message),
      (S.layout type).fields[i]? = some f → m.slots[i]? = some slot →
        f.element.type? = some t → m' ∈ slot.messages → Fits S t m') :
    Fits S type m

/-- A slot is of the kind of its field, and the messages in it fit. -/
abbrev Field.FitsIn (S : Schema) (f : Field) : Slot Message → Prop :=
  f.Fits fun t m => m.Fits S t

namespace Message.Fits

theorem coherent (h : m.Fits S type) : m.Coherent (S.layout type) := by
  cases h with
  | intro coherent => exact coherent

theorem length (h : m.Fits S type) : m.slots.length = (S.layout type).fields.length := by
  cases h with
  | intro _ length => exact length

theorem atSlot (h : m.Fits S type) (hf : (S.layout type).fields[i]? = some f)
    (hslot : m.slots[i]? = some slot) : f.FitsIn S slot := by
  cases h with
  | intro _ _ holds _ inner =>
    exact ⟨holds i f slot hf hslot, fun t ht m' hm' => inner i f slot t m' hf hslot ht hm'⟩

theorem stored (h : m.Fits S type) (hf : (S.layout type).fields[i]? = some f)
    (hslot : m.slots[i]? = some slot) (hmarked : f.isMarked m.presence m.cases = true) :
    slot.isStored = true := by
  cases h with
  | intro _ _ _ stored => exact stored i f slot hf hslot hmarked

theorem of_slots (coherent : m.Coherent (S.layout type))
    (length : m.slots.length = (S.layout type).fields.length)
    (hslots : ∀ (i : Nat) (f : Field) (slot : Slot Message),
      (S.layout type).fields[i]? = some f → m.slots[i]? = some slot →
        f.FitsIn S slot ∧
          (f.isMarked m.presence m.cases = true → slot.isStored = true)) :
    m.Fits S type :=
  .intro coherent length (fun i f slot hf hslot => (hslots i f slot hf hslot).1.holds)
    (fun i f slot hf hslot => (hslots i f slot hf hslot).2)
    (fun i f slot t m' hf hslot ht hm' => (hslots i f slot hf hslot).1.inner t ht m' hm')

/-- Induction on a message that fits: what is to be shown holds of the messages in its slots. -/
@[induction_eliminator]
theorem slot_induction {motive : ∀ (type : TypeId) (m : Message), m.Fits S type → Prop}
    (step : ∀ {type : TypeId} {m : Message} (hm : m.Fits S type),
      (∀ {i : Nat} {f : Field} {slot : Slot Message} (hf : (S.layout type).fields[i]? = some f)
        (hslot : m.slots[i]? = some slot) (t : TypeId) (ht : t ∈ f.element.type?) (m' : Message)
        (hm' : m' ∈ slot.messages), motive t m' ((hm.atSlot hf hslot).inner t ht m' hm')) →
      motive type m hm) (h : m.Fits S type) : motive type m h := by
  induction h using Message.Fits.rec with
  | intro coherent length holds stored inner ih =>
    exact step _ fun hf hslot t ht m' hm' => ih _ _ _ t m' hf hslot ht hm'

end Message.Fits

/-! ### Unset fields -/

theorem Field.blankSlot_of_repeated (hrep : f.isRepeated = true) :
    f.blankSlot = f.element.emptySlot := by
  obtain ⟨_, _, _, placement⟩ := f
  cases placement with
  | repeated packed => rfl
  | singular bit | member oneof bit => cases hrep

theorem Field.blankSlot_of_singular (hrep : f.isRepeated = false) :
    f.blankSlot = f.element.blankSlot := by
  obtain ⟨_, _, _, placement⟩ := f
  cases placement with
  | repeated packed => cases hrep
  | singular bit | member oneof bit => rfl

theorem Element.collects_emptySlot (element : Element) : element.Collects element.emptySlot := by
  cases element
  · exact .scalar .empty
  · exact .enum .empty
  · exact .text .empty
  · exact .blob .empty
  · exact .message .empty
  · exact .group .empty

theorem Element.stores_blankSlot (element : Element) : element.Stores element.blankSlot := by
  cases element <;> constructor

theorem Field.holds_blankSlot (f : Field) : f.Holds f.blankSlot := by
  cases hrep : f.isRepeated with
  | true =>
    rw [Field.blankSlot_of_repeated hrep]
    exact Field.holds_of_collects hrep f.element.collects_emptySlot
  | false =>
    rw [Field.blankSlot_of_singular hrep]
    exact Field.holds_of_stores hrep f.element.stores_blankSlot

theorem Field.messages_blankSlot (f : Field) : f.blankSlot.messages = [] := by
  unfold Field.blankSlot
  cases f.placement <;> cases f.element <;> rfl

theorem Message.Fits.blank (hS : (S.layout type).Valid) : (S.blank type).Fits S type := by
  refine .of_slots (.blank hS) (List.length_map _) fun i f slot hf hslot => ?_
  have hslot : f.blankSlot = slot := by
    simpa [Schema.blank, Layout.blank, hf] using hslot
  subst hslot
  refine ⟨⟨f.holds_blankSlot, ?_⟩, ?_⟩
  · rw [f.messages_blankSlot]
    intro _ _ _ hm
    cases hm
  · intro hmarked
    have hnumber := hS.number_pos f (List.mem_of_getElem? hf)
    rw [Schema.blank, (S.layout type).unset_blank.isMarked hnumber] at hmarked
    cases hmarked

/-! ### Slot by slot -/

/-- Changes each slot by its field, and leaves those that have none. -/
structure SlotWise (change : Field → Slot Message → Slot Message)
    (walk : List Field → List (Slot Message) → List (Slot Message)) : Prop where
  cons : ∀ f fields slot slots,
    walk (f :: fields) (slot :: slots) = change f slot :: walk fields slots
  nil_left : ∀ slots, walk [] slots = slots
  nil_right : ∀ fields, walk fields [] = []

namespace SlotWise

variable {change : Field → Slot Message → Slot Message}
  {walk : List Field → List (Slot Message) → List (Slot Message)} {fields : List Field}
  {slots : List (Slot Message)} (h : SlotWise change walk)

include h

theorem getElem?_eq (hf : fields[i]? = some f) :
    (walk fields slots)[i]? = slots[i]?.map (change f) := by
  induction fields generalizing slots i with
  | nil => cases hf
  | cons g fields ih =>
    cases slots with
    | nil => rw [h.nil_right, List.getElem?_nil, Option.map_none]
    | cons slot slots =>
      rw [h.cons]
      cases i with
      | zero =>
        rw [List.getElem?_cons_zero, Option.some.injEq] at hf
        rw [hf, List.getElem?_cons_zero, List.getElem?_cons_zero, Option.map_some]
      | succ i => exact ih hf

theorem length_eq : (walk fields slots).length = slots.length := by
  induction fields generalizing slots with
  | nil => rw [h.nil_left]
  | cons g fields ih =>
    cases slots with
    | nil => rw [h.nil_right]
    | cons slot slots => rw [h.cons, List.length_cons, List.length_cons, ih]

end SlotWise

/-! ### Clearing -/

theorem slotWise_clear : SlotWise (clearSlot S) (clearSlots S) where
  cons _ _ _ _ := rfl
  nil_left slots := by cases slots <;> rfl
  nil_right fields := by cases fields <;> rfl

theorem clearSlot_sub (htype : f.element.type? = some type) (value : Option Message) :
    clearSlot S f (.sub value) = .sub (value.map (Message.clear S (S.layout type))) := by
  obtain ⟨_, _, element, _⟩ := f
  cases element <;> cases htype <;> cases value <;> rfl

theorem Field.Fits.clearSlot (h : f.Fits inner slot)
    (hclear : ∀ type ∈ f.element.type?, ∀ m ∈ slot.messages, inner type (m.clear S (S.layout type))) :
    f.Fits inner (clearSlot S f slot) := by
  cases h.shape with
  | scalar | text | blob => exact .of_leaf f.holds_blankSlot f.messages_blankSlot
  | @sub type value _ htype _ store =>
    rw [clearSlot_sub htype]
    refine store _ fun m' hm' => ?_
    obtain ⟨m, hm, rfl⟩ := Option.map_eq_some_iff.1 hm'
    exact hclear type htype m (Option.mem_toList.2 hm)
  | scalars _ sound store | texts _ sound store | blobs _ sound store | subs _ _ sound store =>
    exact store _ sound.clear

theorem Field.Holds.clearSlot (h : f.Holds slot) : f.Holds (clearSlot S f slot) := by
  have hfits : f.Fits (fun _ _ => True) slot := ⟨h, fun _ _ _ _ => trivial⟩
  exact (hfits.clearSlot fun _ _ _ _ => trivial).holds

theorem isStored_of_collects {element : Element} (h : element.Collects slot) :
    slot.isStored = true := by
  cases h <;> rfl

theorem isStored_clearSlot (h : f.Holds slot) (hstored : slot.isStored = true) :
    (clearSlot S f slot).isStored = true := by
  cases hrep : f.isRepeated with
  | true => exact isStored_of_collects (h.clearSlot.collects hrep)
  | false =>
    have hstores := h.stores hrep
    have hblank := Field.blankSlot_of_singular hrep
    cases f
    cases hstores with
    | scalar | enum | text | blob => rw [clearSlot, hblank]; rfl
    | @message type value | @group type value =>
      cases value with
      | none => cases hstored
      | some m => rfl

theorem Message.exists_slot {L : Layout} (hlength : m.slots.length = L.fields.length)
    (hf : L.fields[i]? = some f) : ∃ slot, m.slots[i]? = some slot := by
  obtain ⟨hlt, -⟩ := List.getElem?_eq_some_iff.1 hf
  rw [← hlength] at hlt
  exact ⟨m.slots[i], List.getElem?_eq_getElem hlt⟩

namespace Message.Fits

variable (hS : S.Valid) (h : m.Fits S type)
  (hf : (S.layout type).fields[i]? = some f)

include hS h in
/-- A message that is cleared still fits. -/
theorem clear : (m.clear S (S.layout type)).Fits S type := by
  induction h with
  | @step type m hm ih =>
    have hunset := m.unset_clear S (S.layout type)
    have hcoherent := hm.coherent.clear (S := S) (hS type)
    cases m
    unfold Message.clear at hunset hcoherent ⊢
    refine .of_slots hcoherent (slotWise_clear.length_eq.trans hm.length)
      fun i f slot hf hslot => ⟨?_, ?_⟩
    · rw [slotWise_clear.getElem?_eq hf, Option.map_eq_some_iff] at hslot
      obtain ⟨slot', hslot', rfl⟩ := hslot
      have hfits := hm.atSlot hf hslot'
      exact hfits.clearSlot (ih hf hslot')
    · intro hmarked
      rw [hunset.isMarked ((hS type).number_pos f (List.mem_of_getElem? hf))] at hmarked
      cases hmarked

include h hf in
/-- Storing in a slot what fits, and something if the field is present. -/
theorem setSlot (hslot : f.FitsIn S slot)
    (hstored : f.isMarked m.presence m.cases = true → slot.isStored = true) :
    (m.setSlot i slot).Fits S type := by
  refine .of_slots (h.coherent.congr rfl rfl) (List.length_set.trans h.length)
    fun j g slot' hg hslot' => ?_
  by_cases hij : i = j
  · subst hij
    rw [hf, Option.some.injEq] at hg
    subst hg
    have hlt : i < m.slots.length := by
      rw [h.length]
      exact (List.getElem?_eq_some_iff.1 hf).1
    rw [Message.setSlot, List.getElem?_set_self hlt, Option.some.injEq] at hslot'
    exact hslot' ▸ ⟨hslot, hstored⟩
  · simp only [Message.setSlot, List.getElem?_set_ne hij] at hslot'
    exact ⟨h.atSlot hg hslot', h.stored hg hslot'⟩

include hS h hf in
theorem markPresent (hslot : m.slots[i]? = some slot) (hstored : slot.isStored = true) :
    (m.markPresent f).Fits S type := by
  refine .of_slots (h.coherent.markPresent (hS type) (List.mem_of_getElem? hf))
    (by rw [slots_markPresent]; exact h.length) fun j g slot' hg hslot' => ?_
  rw [slots_markPresent] at hslot'
  refine ⟨h.atSlot hg hslot', fun hmarked => ?_⟩
  by_cases hnumber : f.number = g.number
  · rw [← (hS type).eq_of_number_eq hf hg hnumber, hslot, Option.some.injEq] at hslot'
    exact hslot' ▸ hstored
  · rw [h.coherent.isMarked_markPresent (hS type) (List.mem_of_getElem? hf)
      (List.mem_of_getElem? hg) hnumber, Bool.and_eq_true] at hmarked
    exact h.stored hg hslot' hmarked.2

include h hf in
theorem exists_slot : ∃ slot, m.slots[i]? = some slot :=
  Message.exists_slot h.length hf

include h in
theorem unmark {m' : Message} (hcoherent : m'.Coherent (S.layout type))
    (hslots : m'.slots = m.slots)
    (hmarks : ∀ f ∈ (S.layout type).fields, f.isMarked m'.presence m'.cases = true →
      f.isMarked m.presence m.cases = true) : m'.Fits S type := by
  refine .of_slots hcoherent (hslots ▸ h.length) fun i f slot hf hslot => ?_
  rw [hslots] at hslot
  exact ⟨h.atSlot hf hslot,
    fun hmarked => h.stored hf hslot (hmarks f (List.mem_of_getElem? hf) hmarked)⟩

theorem modify_slots (hslot : m.slots[i]? = some slot) (g : Slot Message → Slot Message) :
    m.slots.modify i g = m.slots.set i (g slot) := by
  refine List.ext_getElem? fun j => ?_
  by_cases hij : i = j
  · subst hij
    rw [List.getElem?_modify, hslot, List.getElem?_set_self (List.getElem?_eq_some_iff.1 hslot).1]
    simp
  · simp [hij]

theorem resetSlot_eq (hslot : m.slots[i]? = some slot) :
    m.resetSlot S f i = m.setSlot i (clearSlot S f slot) := by
  rw [Message.resetSlot, Message.setSlot, modify_slots hslot]

include hS h hf in
theorem resetSlot : (m.resetSlot S f i).Fits S type := by
  obtain ⟨slot, hslot⟩ := h.exists_slot hf
  rw [resetSlot_eq hslot]
  have hfits := h.atSlot hf hslot
  refine h.setSlot hf ?_ fun hmarked => isStored_clearSlot hfits.holds (h.stored hf hslot hmarked)
  exact hfits.clearSlot fun t ht m' hm' => (hfits.inner t ht m' hm').clear hS

theorem slots_clearOneof (L : Layout) (oneof : Nat) :
    (m.clearOneof S L oneof).slots =
      match m.activeMember? L oneof with
      | some (f, index) => (m.resetSlot S f index).slots
      | none => m.slots := by
  unfold Message.clearOneof
  cases m.activeMember? L oneof <;> rfl

include hS h in
theorem clearOneof (oneof : Nat) : (m.clearOneof S (S.layout type) oneof).Fits S type := by
  have hcoherent := h.coherent.clearOneof (S := S) (hS type) oneof
  have hmarks : ∀ f ∈ (S.layout type).fields,
      f.isMarked (m.clearOneof S (S.layout type) oneof).presence
        (m.clearOneof S (S.layout type) oneof).cases = true →
      f.isMarked m.presence m.cases = true := by
    intro f hf hmarked
    rw [Coherent.isMarked_clearOneof (hS type) hf, Bool.and_eq_true] at hmarked
    exact hmarked.2
  have hslots := slots_clearOneof (S := S) (m := m) (S.layout type) oneof
  cases hactive : m.activeMember? (S.layout type) oneof with
  | none => exact h.unmark hcoherent (by rw [hslots, hactive]) hmarks
  | some p =>
    have hp := List.mem_zipIdx_iff_getElem?.1 (List.mem_of_find?_eq_some hactive)
    exact (h.resetSlot hS hp).unmark hcoherent (by rw [hslots, hactive]) hmarks

include hS h in
theorem prepare (f : Field) : (m.prepare S (S.layout type) f).Fits S type := by
  unfold Message.prepare
  split
  · split
    · exact h
    · exact h.clearOneof hS _
  · exact h
  · exact h

include hS h hf in
theorem clearField : (m.clearField S (S.layout type) f i).Fits S type := by
  unfold Message.clearField
  split
  · rename_i bit hplace
    refine resetSlot hS (h.unmark ?_ rfl ?_) hf
    · exact h.coherent.eraseBit (hS type) (List.mem_of_getElem? hf) hplace
    · intro g hg hmarked
      unfold Field.isMarked at hmarked ⊢
      split at hmarked
      · rw [Presence.test_erase, Bool.and_eq_true] at hmarked
        exact hmarked.2
      · exact hmarked
      · exact hmarked
  · exact h.resetSlot hS hf
  · split
    · exact h.clearOneof hS _
    · exact h

end Message.Fits

/-! ### Copying -/

theorem copySlots_eq_map (slots : List (Slot Message)) : copySlots slots = slots.map copySlot := by
  induction slots with
  | nil => rfl
  | cons slot slots ih => rw [copySlots, ih, List.map_cons]

theorem copyMessages_eq_map (ms : List Message) : copyMessages ms = ms.map Message.copy := by
  induction ms with
  | nil => rfl
  | cons m ms ih => rw [copyMessages, ih, List.map_cons]

theorem Repeated.Sound.copy (h : c.Sound size fun _ => True) : c.copy.Sound size fun _ => True :=
  .ofList h.length_le h.values

theorem Field.Fits.copySlot (h : f.Fits inner slot)
    (hcopy : ∀ type ∈ f.element.type?, ∀ m ∈ slot.messages, inner type m.copy) :
    f.Fits inner (copySlot slot) := by
  cases h.shape with
  | scalar | text | blob => exact h
  | @sub type value _ htype _ store =>
    cases value with
    | none => exact h
    | some m =>
      refine store _ fun m' hm' => ?_
      cases hm'
      exact hcopy type htype m (List.mem_singleton_self m)
  | scalars _ sound store | texts _ sound store | blobs _ sound store =>
    exact store _ sound.copy
  | @subs type c _ htype sound store =>
    cases c
    rw [ProtoWire.copySlot, copyMessages_eq_map]
    refine store _ (.ofList ((List.length_map _).le.trans sound.length_le) fun m' hm' => ?_)
    obtain ⟨m, hm, rfl⟩ := List.mem_map.1 hm'
    exact hcopy type htype m (List.mem_append_left _ hm)

theorem isStored_copySlot (slot : Slot Message) : (copySlot slot).isStored = slot.isStored := by
  cases slot with
  | sub value => cases value <;> rfl
  | subs c => rfl
  | _ => rfl

theorem Message.Fits.copy (h : m.Fits S type) : m.copy.Fits S type := by
  induction h with
  | @step type m hm ih =>
    cases m
    unfold Message.copy
    rw [copySlots_eq_map]
    refine .of_slots (hm.coherent.congr rfl rfl) ((List.length_map _).trans hm.length)
      fun i f slot hf hslot => ?_
    simp only [List.getElem?_map, Option.map_eq_some_iff] at hslot
    obtain ⟨slot', hslot', rfl⟩ := hslot
    have hfits := hm.atSlot hf hslot'
    refine ⟨hfits.copySlot (ih hf hslot'), fun hmarked => ?_⟩
    rw [isStored_copySlot]
    exact hm.stored hf hslot' hmarked

end ProtoWire
