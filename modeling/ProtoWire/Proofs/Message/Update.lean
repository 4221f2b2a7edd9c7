import ProtoWire.Proofs.Message.FieldOrder
import ProtoWire.Proofs.Message.View

/-!
# Updates of a view

What a record does to a message does not depend on room or retained elements. Here it is a function
of the view.
-/

namespace ProtoWire

variable {f : Field} {L : Layout} {slot slot' : Slot Message} {us : List Update} {S : Schema}
  {v : Message} {i : Nat} {type : TypeId}

/-! ### Definitions -/

/-- What a record says: a value for the field at an index. -/
inductive Update where
  | scalar (index : Nat) (kind : Scalar) (value : kind.Value)
  | text (index : Nat) (value : String)
  | blob (index : Nat) (value : Bytes)
  /-- A message, to be merged into the one that is there. -/
  | message (index : Nat) (contents : List Update)

/-- The field that an update is for. -/
def Update.index : Update → Nat
  | scalar index _ _ | text index _ | blob index _ | message index _ => index

/-- The values of a container and one more, unless there are too many. -/
def Repeated.push {α : Type} (size : Nat) (c : Repeated α) (value : α) : Option (Repeated α) :=
  if c.values.length < maxCapacity size then some (.ofList (c.values ++ [value])) else none

/-- In a view, a member of a oneof takes the place of another one that is set. -/
def Message.vacate (L : Layout) (f : Field) (m : Message) : Message :=
  match f.placement with
  | .member oneof _ =>
    if m.cases.getD oneof 0 = f.number then m
    else
      match m.activeMember? L oneof with
      | some (g, index) => m.setSlot index g.blankSlot
      | none => m
  | .singular _ | .repeated _ => m

/-- A view after a change of one field, which is present from then on. -/
def Message.amend (L : Layout) (index : Nat)
    (change : Field → Slot Message → Option (Slot Message)) (m : Message) : Option Message :=
  match L.fields[index]?, m.slots[index]? with
  | some f, some slot =>
    (change f slot).map fun slot => ((m.vacate L f).setSlot index slot).markPresent f
  | _, _ => none

mutual

/-- What becomes of the slot of a field. A singular value is replaced, or merged if it is a message;
a repeated one is appended. -/
def Update.change (S : Schema) : Update → Field → Slot Message → Option (Slot Message)
  | .scalar _ kind value, _, .scalar kind' _ =>
    if kind' = kind then some (.scalar kind value) else none
  | .scalar _ kind value, _, .scalars kind' c =>
    if h : kind' = kind then ((h ▸ c).push kind.storageSize value).map (.scalars kind) else none
  | .text _ value, _, .text _ => some (.text value)
  | .text _ value, _, .texts c => (c.push textSize value).map .texts
  | .blob _ value, _, .blob _ => some (.blob value)
  | .blob _ value, _, .blobs c => (c.push blobSize value).map .blobs
  | .message _ contents, f, .sub value =>
    match f.element.type? with
    | some type =>
      (applyAll S type contents (value.getD (S.blank type))).map fun m => .sub (S.trim type m)
    | none => none
  | .message _ contents, f, .subs c =>
    match f.element.type? with
    | some type =>
      (applyAll S type contents (S.blank type)).bind fun m => (c.push messageSize m).map .subs
    | none => none
  | _, _, _ => none

/-- A view of a type after updates, in order. -/
def applyAll (S : Schema) (type : TypeId) : List Update → Message → Option Message
  | [], m => some m
  | u :: us, m => (m.amend (S.layout type) u.index (u.change S)).bind (applyAll S type us)

end

theorem applyAll_append (S : Schema) (type : TypeId) (us us' : List Update) (m : Message) :
    applyAll S type (us ++ us') m = (applyAll S type us m).bind (applyAll S type us') := by
  induction us generalizing m with
  | nil => rw [List.nil_append, applyAll, Option.bind_some]
  | cons u us ih =>
    rw [List.cons_append, applyAll, applyAll, Option.bind_assoc]
    exact congrArg _ (funext ih)

theorem applyAll_singleton (S : Schema) (type : TypeId) (u : Update) (m : Message) :
    applyAll S type [u] m = m.amend (S.layout type) u.index (u.change S) := by
  rw [applyAll]
  cases m.amend (S.layout type) u.index (u.change S) <;> simp [applyAll]

/-! ### Values of one field -/

/-- What becomes of the slot of a field after updates, in order. -/
def changeAll (S : Schema) (f : Field) : List Update → Slot Message → Option (Slot Message)
  | [], slot => some slot
  | u :: us, slot => (u.change S f slot).bind (changeAll S f us)

theorem changeAll_singleton (S : Schema) (f : Field) (u : Update) (slot : Slot Message) :
    changeAll S f [u] slot = u.change S f slot := by
  rw [changeAll]
  cases u.change S f slot <;> rfl

theorem Message.store_of_repeated (hrep : f.isRepeated = true) (m : Message) (i : Nat)
    (slot : Slot Message) : ((m.vacate L f).setSlot i slot).markPresent f = m.setSlot i slot := by
  obtain ⟨_, _, _, placement⟩ := f
  cases placement with
  | repeated packed => rfl
  | singular bit | member oneof bit => cases hrep

/-- Updates of one repeated field change its slot alone. -/
theorem applyAll_eq_changeAll (hf : (S.layout type).fields[i]? = some f)
    (hrep : f.isRepeated = true) (hslot : v.slots[i]? = some slot) (hus : ∀ u ∈ us, u.index = i) :
    applyAll S type us v = (changeAll S f us slot).map (v.setSlot i) := by
  induction us generalizing v slot with
  | nil => rw [applyAll, changeAll, Option.map_some, setSlot_self hslot]
  | cons u us ih =>
    have hindex := hus u List.mem_cons_self
    have hus := fun u hu => hus u (List.mem_cons_of_mem _ hu)
    rw [applyAll, changeAll, hindex, Message.amend, hf, hslot]
    simp only [Message.store_of_repeated hrep]
    cases u.change S f slot with
    | none => rfl
    | some slot' =>
      rw [Option.map_some, Option.bind_some, Option.bind_some,
        ih (getElem?_setSlot hslot slot') hus]
      exact congrArg (Option.map · _) (funext fun _ => setSlot_setSlot ..)

/-- The number of values that a container could still get. -/
def Slot.room {M : Type} : Slot M → Nat
  | scalars kind c => Repeated.maxCapacity kind.storageSize - c.values.length
  | texts c => Repeated.maxCapacity textSize - c.values.length
  | blobs c => Repeated.maxCapacity blobSize - c.values.length
  | subs c => Repeated.maxCapacity messageSize - c.values.length
  | scalar _ _ | text _ | blob _ | sub _ => 0

/-- Whether a slot is a container. -/
def Slot.isContainer {M : Type} : Slot M → Bool
  | scalars _ _ | texts _ | blobs _ | subs _ => true
  | scalar _ _ | text _ | blob _ | sub _ => false

/-! ### Containers -/

/-- The repeated field that a change is about. -/
def Action.container? : Action → Option Nat
  | append i _ | appendDefault i | atElement i _ _ | scalars i _ _ | texts i _ | blobs i _
  | subs i _ => some i
  | _ => none

/-- Nothing is changed, or the container of a field. -/
def Message.RefillsAt (i : Nat) (m m' : Message) : Prop :=
  m' = m ∨ ∃ slot slot' : Slot Message, m.slots[i]? = some slot ∧ slot.isContainer = true ∧
    m' = m.setSlot i slot'

section Containers

variable {m : Message}

theorem Message.RefillsAt.editSlot {α : Type} {c : Repeated α} (hslot : m.slots[i]? = some slot)
    (hcontainer : slot.isContainer = true) (store : Repeated α → Slot Message)
    (x : Repeated.Edit α Unit) : m.RefillsAt i (m.editSlot i c store x).2 := by
  unfold Message.editSlot
  cases x c with
  | ok a c' | error e c' => exact .inr ⟨slot, store c', hslot, hcontainer, rfl⟩

theorem Message.refillsAt_append (value : FieldValue) : m.RefillsAt i (m.append i value).2 := by
  unfold Message.append
  split
  · split
    · exact .editSlot ‹_› rfl _ _
    · exact .inl rfl
  · exact .editSlot ‹_› rfl _ _
  · exact .editSlot ‹_› rfl _ _
  · exact .editSlot ‹_› rfl _ _
  · exact .inl rfl

theorem Message.refillsAt_appendDefault (f : Field) : m.RefillsAt i (m.appendDefault S f i).2 := by
  unfold Message.appendDefault
  split
  · exact .editSlot ‹_› rfl _ _
  · exact .editSlot ‹_› rfl _ _
  · exact .editSlot ‹_› rfl _ _
  · exact .editSlot ‹_› rfl _ _
  · exact .inl rfl

/-- A change of a repeated field leaves the rest alone, whatever its outcome. -/
theorem Action.refillsAt_run {order : FieldOrder} {action : Action}
    (h : action.container? = some i) : m.RefillsAt i (action.run S order type m).2 := by
  cases action with
  | append =>
    cases h
    exact Message.refillsAt_append _
  | appendDefault =>
    cases h
    unfold Action.run
    split
    · exact Message.refillsAt_appendDefault _
    · exact .inl rfl
  | atElement =>
    cases h
    unfold Action.run
    split
    · split
      · exact .inr ⟨_, _, ‹_›, rfl, rfl⟩
      · exact .inl rfl
    · exact .inl rfl
  | scalars =>
    cases h
    unfold Action.run
    split
    · split
      · exact .editSlot ‹_› rfl _ _
      · exact .inl rfl
    · exact .inl rfl
  | texts | blobs | subs =>
    cases h
    unfold Action.run
    split
    · exact .editSlot ‹_› rfl _ _
    · exact .inl rfl
  | merge | parse | clear | copy | clearField | clearOneof | store | extend | within => cases h

end Containers

theorem Repeated.push_eq_some {α : Type} {size : Nat} {c c' : Repeated α} {value : α} :
    c.push size value = some c' ↔
      c.values.length < maxCapacity size ∧ .ofList (c.values ++ [value]) = c' := by
  unfold Repeated.push
  split <;> simp [*]

/-- Each update takes up room for one value. -/
theorem Update.room_change {u : Update} (hcontainer : slot.isContainer = true)
    (h : u.change S f slot = some slot') :
    slot'.isContainer = true ∧ slot.room = slot'.room + 1 := by
  have hpush : ∀ {α : Type} {size : Nat} {c c' : Repeated α} {value : α},
      c.push size value = some c' →
        Repeated.maxCapacity size - c.values.length =
          Repeated.maxCapacity size - c'.values.length + 1 := by
    intro α size c c' value hpush
    obtain ⟨hlt, rfl⟩ := Repeated.push_eq_some.1 hpush
    simp only [Repeated.ofList, List.length_append, List.length_singleton]
    omega
  cases u with
  | scalar i kind value =>
    cases slot with
    | scalars kind' c =>
      rw [change] at h
      split at h
      · rename_i heq
        subst heq
        obtain ⟨c', hc', rfl⟩ := Option.map_eq_some_iff.1 h
        exact ⟨rfl, hpush hc'⟩
      · cases h
    | texts | blobs | subs => simp [change] at h
    | scalar | text | blob | sub => cases hcontainer
  | text i value =>
    cases slot with
    | texts c =>
      obtain ⟨c', hc', rfl⟩ := Option.map_eq_some_iff.1 h
      exact ⟨rfl, hpush hc'⟩
    | scalars | blobs | subs => simp [change] at h
    | scalar | text | blob | sub => cases hcontainer
  | blob i value =>
    cases slot with
    | blobs c =>
      obtain ⟨c', hc', rfl⟩ := Option.map_eq_some_iff.1 h
      exact ⟨rfl, hpush hc'⟩
    | scalars | texts | subs => simp [change] at h
    | scalar | text | blob | sub => cases hcontainer
  | message i contents =>
    cases slot with
    | subs c =>
      rw [change] at h
      cases htype : f.element.type? with
      | none => simp [htype] at h
      | some type =>
        simp only [htype] at h
        obtain ⟨m, -, h⟩ := Option.bind_eq_some_iff.1 h
        obtain ⟨c', hc', rfl⟩ := Option.map_eq_some_iff.1 h
        exact ⟨rfl, hpush hc'⟩
    | scalars | texts | blobs => simp [change] at h
    | scalar | text | blob | sub => cases hcontainer

theorem length_le_room (hcontainer : slot.isContainer = true)
    (h : changeAll S f us slot = some slot') : us.length ≤ slot.room := by
  induction us generalizing slot with
  | nil => exact Nat.zero_le _
  | cons u us ih =>
    obtain ⟨middle, hchange, h⟩ := Option.bind_eq_some_iff.1 h
    obtain ⟨hmiddle, hroom⟩ := u.room_change hcontainer hchange
    have := ih hmiddle h
    rw [List.length_cons]
    omega

theorem Message.amend_eq_some {change : Field → Slot Message → Option (Slot Message)} {w : Message}
    (h : v.amend L i change = some w) :
    ∃ f slot slot', L.fields[i]? = some f ∧ v.slots[i]? = some slot ∧ change f slot = some slot' ∧
      ((v.vacate L f).setSlot i slot').markPresent f = w := by
  unfold Message.amend at h
  split at h
  · rename_i f slot hf hslot
    obtain ⟨slot', hslot', rfl⟩ := Option.map_eq_some_iff.1 h
    exact ⟨f, slot, slot', hf, hslot, hslot', rfl⟩
  · cases h

/-- Members give way to each other alone. -/
theorem Message.getElem?_slots_vacate (hf : L.fields[i]? = some f) (hrep : f.isRepeated = true)
    (g : Field) (v : Message) : (v.vacate L g).slots[i]? = v.slots[i]? := by
  unfold Message.vacate
  split
  · rename_i oneof bit hplace
    split
    · rfl
    · cases hactive : v.activeMember? L oneof with
      | none => rfl
      | some p =>
        obtain ⟨h, j⟩ := p
        have hmember := List.find?_some hactive
        have hh := List.mem_zipIdx_iff_getElem?.1 (List.mem_of_find?_eq_some hactive)
        have hne : j ≠ i := by
          rintro rfl
          rw [hf, Option.some.injEq] at hh
          subst hh
          obtain ⟨_, _, _, placement⟩ := f
          cases placement with
          | repeated packed => simp [Field.isMemberOf] at hmember
          | singular bit | member oneof bit => cases hrep
        simp [Message.setSlot, hne]
  · rfl
  · rfl

/-- There is room for the updates of a repeated field, if they can be applied. -/
theorem countP_le_room {w : Message} (hf : (S.layout type).fields[i]? = some f)
    (hrep : f.isRepeated = true) (hslot : v.slots[i]? = some slot)
    (hcontainer : slot.isContainer = true) (h : applyAll S type us v = some w) :
    us.countP (·.index == i) ≤ slot.room := by
  induction us generalizing v slot with
  | nil => exact Nat.zero_le _
  | cons u us ih =>
    rw [applyAll] at h
    obtain ⟨v', hv', h⟩ := Option.bind_eq_some_iff.1 h
    obtain ⟨g, old, new, hg, hold, hchange, rfl⟩ := Message.amend_eq_some hv'
    by_cases hindex : u.index = i
    · rw [hindex] at hg hold
      rw [hf, Option.some.injEq] at hg
      rw [hslot, Option.some.injEq] at hold
      subst hg hold
      rw [Message.store_of_repeated hrep, hindex] at h
      obtain ⟨hnew, hroom⟩ := u.room_change hcontainer hchange
      have := ih (getElem?_setSlot hslot new) hnew h
      rw [List.countP_cons_of_pos (by simpa using hindex)]
      omega
    · have hkept : (((v.vacate (S.layout type) g).setSlot u.index new).markPresent g).slots[i]? =
          some slot := by
        rw [Message.slots_markPresent, Message.setSlot, List.getElem?_set_ne hindex,
          Message.getElem?_slots_vacate hf hrep, hslot]
      rw [List.countP_cons_of_neg (by simpa using hindex)]
      exact ih hkept hcontainer h

/-! ### Storing a value -/

namespace Message.Fits

variable (hS : S.Valid) {m : Message}

/-- Another member that is set stands at another place. -/
theorem getElem?_slots_prepare (hf : (S.layout type).fields[i]? = some f) :
    (m.prepare S (S.layout type) f).slots[i]? = m.slots[i]? := by
  unfold Message.prepare
  split
  · rename_i oneof bit hplace
    split
    · rfl
    · rename_i hcase
      rw [slots_clearOneof]
      cases hactive : m.activeMember? (S.layout type) oneof with
      | none => rfl
      | some p =>
        obtain ⟨_, j⟩ := p
        have hg := List.mem_zipIdx_iff_getElem?.1 (List.mem_of_find?_eq_some hactive)
        have hnumber := List.find?_some hactive
        simp only [Bool.and_eq_true, beq_iff_eq] at hnumber
        have hne : j ≠ i := by
          rintro rfl
          rw [hf, Option.some.injEq] at hg
          exact hcase (hg ▸ hnumber.2.symm)
        simp [Message.resetSlot, hne]
  · rfl
  · rfl

include hS in
theorem slots_view_prepare (h : m.Fits S type) (f : Field) :
    ((m.prepare S (S.layout type) f).view S (S.layout type)).slots =
      ((m.view S (S.layout type)).vacate (S.layout type) f).slots := by
  unfold Message.prepare Message.vacate
  cases f.placement with
  | singular bit | repeated packed => rfl
  | member oneof bit =>
    simp only [Message.cases_view]
    split
    · rfl
    · have hactive : (m.view S (S.layout type)).activeMember? (S.layout type) oneof =
          m.activeMember? (S.layout type) oneof := by
        unfold Message.activeMember?
        rw [Message.cases_view]
      rw [hactive, Message.slots_view, slots_clearOneof]
      cases hmember : m.activeMember? (S.layout type) oneof with
      | none => exact Message.slots_view.symm
      | some p =>
        cases p
        have hg := List.mem_zipIdx_iff_getElem?.1 (List.mem_of_find?_eq_some hmember)
        obtain ⟨slot, hslot⟩ := h.exists_slot hg
        have hfits := h.atSlot hg hslot
        simp only
        rw [← Message.slots_view, resetSlot_eq hslot, Message.view_setSlot hg _ h.length,
          viewSlot_clearSlot hS hfits fun t ht m' hm' =>
            Message.view_clear hS (hfits.inner t ht m' hm')]

include hS in
/-- What is cleared for another member does not outlast the mark of the new one. -/
theorem markPresent_prepare (h : m.Fits S type) (hf : f ∈ (S.layout type).fields) :
    ((m.prepare S (S.layout type) f).markPresent f).presence = (m.markPresent f).presence ∧
      ((m.prepare S (S.layout type) f).markPresent f).cases = (m.markPresent f).cases := by
  unfold Message.prepare Message.markPresent
  cases hplace : f.placement with
  | singular bit | repeated packed => exact ⟨rfl, rfl⟩
  | member oneof bit =>
    simp only
    split
    · exact ⟨rfl, rfl⟩
    · have hbit : f.bit? = some bit := by simp [Field.bit?, hplace]
      have honeof : f.oneof? = some oneof := by simp [Field.oneof?, hplace]
      have hword := h.coherent.word_lt (hS type) hf hbit
      have hshared : Message.oneofBit? (S.layout type) oneof = some bit := by
        cases hfirst : Message.oneofBit? (S.layout type) oneof with
        | none => exact absurd honeof (Message.oneofBit?_eq_none hfirst f hf)
        | some bit' =>
          obtain ⟨g, hg, hgoneof, hgbit⟩ := Message.oneofBit?_eq_some hfirst
          rw [← hgbit, ← (hS type).oneof_eq f hf g hg oneof honeof hgoneof, hbit]
      rw [Message.presence_clearOneof, Message.cases_clearOneof, hshared]
      exact ⟨Presence.insert_erase hword, List.set_set ..⟩

theorem presence_vacate (L : Layout) : (m.vacate L f).presence = m.presence := by
  unfold Message.vacate
  repeat' split
  all_goals rfl

theorem cases_vacate (L : Layout) : (m.vacate L f).cases = m.cases := by
  unfold Message.vacate
  repeat' split
  all_goals rfl

theorem markPresent_congr {m' : Message} (hpresence : m.presence = m'.presence)
    (hcases : m.cases = m'.cases) :
    (m.markPresent f).presence = (m'.markPresent f).presence ∧
      (m.markPresent f).cases = (m'.markPresent f).cases := by
  unfold Message.markPresent
  cases f.placement <;> simp [hpresence, hcases]

include hS in
theorem view_store (h : m.Fits S type) (hf : (S.layout type).fields[i]? = some f)
    (slot : Slot Message) :
    (((m.prepare S (S.layout type) f).setSlot i slot).markPresent f).view S (S.layout type) =
      (((m.view S (S.layout type)).vacate (S.layout type) f).setSlot i
        (viewSlot S f slot)).markPresent f := by
  have hlength := (h.prepare hS f).length
  obtain ⟨hpresence, hcases⟩ := h.markPresent_prepare hS (List.mem_of_getElem? hf)
  have hslots := h.slots_view_prepare hS f
  have hvacated : ((m.view S (S.layout type)).vacate (S.layout type) f).presence = m.presence :=
    (presence_vacate _).trans Message.presence_view
  have hvacated' : ((m.view S (S.layout type)).vacate (S.layout type) f).cases = m.cases :=
    (cases_vacate _).trans Message.cases_view
  obtain ⟨hmarked, hmarked'⟩ := markPresent_congr (f := f) hvacated hvacated'
  have hmark : ((m.prepare S (S.layout type) f).markPresent f).view S (S.layout type) =
      ((m.view S (S.layout type)).vacate (S.layout type) f).markPresent f := by
    refine Message.ext_slots (L := S.layout type) ?_ ?_ ?_ ?_ fun j g hg => ?_
    · rw [Message.presence_view, hpresence, hmarked]
    · rw [Message.cases_view, hcases, hmarked']
    · rw [Message.slots_view, slotWise_view.length_eq, Message.slots_markPresent, hlength]
    · rw [Message.slots_markPresent, ← hslots, Message.slots_view, slotWise_view.length_eq, hlength]
    · rw [Message.view_markPresent, Message.slots_markPresent, Message.slots_markPresent, hslots]
  rw [← Message.setSlot_markPresent, ← Message.setSlot_markPresent,
    Message.view_setSlot hf _ (by rw [Message.slots_markPresent, hlength]), hmark]

include hS in
theorem amend_view (h : m.Fits S type) (hf : (S.layout type).fields[i]? = some f)
    (hslot : m.slots[i]? = some slot) {change : Field → Slot Message → Option (Slot Message)}
    (hchange : change f (viewSlot S f slot) = some (viewSlot S f slot')) :
    (m.view S (S.layout type)).amend (S.layout type) i change =
      some ((((m.prepare S (S.layout type) f).setSlot i slot').markPresent f).view S
        (S.layout type)) := by
  unfold Message.amend
  simp only [hf, Message.getElem?_view hf, hslot, Option.map_some]
  rw [hchange, Option.map_some, h.view_store hS hf]

end Message.Fits

end ProtoWire
