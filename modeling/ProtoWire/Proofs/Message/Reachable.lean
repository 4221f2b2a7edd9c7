import ProtoWire.Proofs.Message.Keeps
import ProtoWire.Proofs.Message.Update

/-!
# Messages in use

A message in use started with every field unset, and was changed by accessors, by clearing and by
merging. The messages it was given were in use themselves.
-/

namespace ProtoWire

variable {m : Message} {S : Schema} {type : TypeId}

mutual

/-- A message of a type that is in use. -/
inductive Reachable (S : Schema) (order : FieldOrder) : TypeId → Message → Prop where
  | blank (type : TypeId) : Reachable S order type (S.blank type)
  /-- A change may fail; the message goes on with what is left behind. -/
  | run {type : TypeId} {m : Message} {action : Action} (start : Reachable S order type m)
    (legal : Legal S order type action) : Reachable S order type (action.run S order type m).2

/-- A change that the accessors of a type offer. -/
inductive Legal (S : Schema) (order : FieldOrder) : TypeId → Action → Prop where
  | merge {type : TypeId} (limit : UInt32) (data : Bytes) : Legal S order type (.merge limit data)
  | parse {type : TypeId} (data : Bytes) : Legal S order type (.parse data)
  | clear {type : TypeId} : Legal S order type .clear
  | copy {type : TypeId} : Legal S order type .copy
  | clearField {type : TypeId} (index : Nat) : Legal S order type (.clearField index)
  | clearOneof {type : TypeId} (oneof : Nat) : Legal S order type (.clearOneof oneof)
  /-- Setters of singular fields. -/
  | store {type : TypeId} {index : Nat} {value : FieldValue} {f : Field}
    (field : (S.layout type).fields[index]? = some f) (singular : f.isRepeated = false)
    (value_stores : f.element.Stores value.toSlot)
    (inner : ∀ t m, f.element.type? = some t → m ∈ value.toSlot.messages → Reachable S order t m) :
    Legal S order type (.store index value)
  | extend {type : TypeId} {index : Nat} {f : Field} (value : FieldValue)
    (field : (S.layout type).fields[index]? = some f) (leaf : f.element.type? = none) :
    Legal S order type (.extend index value)
  | within {type : TypeId} {index : Nat} {f : Field} {t : TypeId} {action : Action}
    (field : (S.layout type).fields[index]? = some f) (inner : f.element.type? = some t)
    (legal : Legal S order t action) : Legal S order type (.within index action)
  | append {type : TypeId} {index : Nat} {value : FieldValue} {f : Field}
    (field : (S.layout type).fields[index]? = some f)
    (inner : ∀ t m, f.element.type? = some t → m ∈ value.toSlot.messages → Reachable S order t m) :
    Legal S order type (.append index value)
  | appendDefault {type : TypeId} (index : Nat) : Legal S order type (.appendDefault index)
  | atElement {type : TypeId} {index : Nat} {f : Field} {t : TypeId} {action : Action}
    (place : Nat) (field : (S.layout type).fields[index]? = some f)
    (inner : f.element.type? = some t) (legal : Legal S order t action) :
    Legal S order type (.atElement index place action)
  | scalars {type : TypeId} (index : Nat) (kind : Scalar) (step : Repeated.Step kind.Value) :
    Legal S order type (.scalars index kind step)
  | texts {type : TypeId} (index : Nat) (step : Repeated.Step String) :
    Legal S order type (.texts index step)
  | blobs {type : TypeId} (index : Nat) (step : Repeated.Step Bytes) :
    Legal S order type (.blobs index step)
  | subs {type : TypeId} {index : Nat} {f : Field} {t : TypeId} {step : Repeated.Step Message}
    (field : (S.layout type).fields[index]? = some f) (inner : f.element.type? = some t)
    (plain : step.recycles = false) (carried : ∀ m ∈ step.carried, Reachable S order t m) :
    Legal S order type (.subs index step)
  /-- A retained element is reset by a change of its own. -/
  | recycle {type : TypeId} {index : Nat} {f : Field} {t : TypeId} {action : Action}
    (field : (S.layout type).fields[index]? = some f) (inner : f.element.type? = some t)
    (legal : Legal S order t action) :
    Legal S order type (.subs index (.pushRecycled fun m => (action.run S order t m).2))

end

/-! ### What changes keep -/

namespace Message.Fits

variable (hS : S.Valid) (h : m.Fits S type) {i : Nat} {f : Field} {slot : Slot Message}

include h

theorem exists_field (hslot : m.slots[i]? = some slot) :
    ∃ f, (S.layout type).fields[i]? = some f := by
  obtain ⟨hlt, -⟩ := List.getElem?_eq_some_iff.1 hslot
  rw [h.length] at hlt
  exact ⟨(S.layout type).fields[i], List.getElem?_eq_getElem hlt⟩

variable (hf : (S.layout type).fields[i]? = some f)

include hf

theorem editSlot {α : Type} {K : Repeated α → Prop} {store : Repeated α → Slot Message}
    {x : Repeated.Edit α Unit} {c : Repeated α} (hrep : f.isRepeated = true)
    (hstore : ∀ c, K c → f.FitsIn S (store c)) (hx : Keeps K x) (hc : K c) :
    (m.editSlot i c store x).2.Fits S type := by
  have hset : ∀ c, K c → (m.setSlot i (store c)).Fits S type := fun c hc =>
    h.setSlot hf (hstore c hc) fun _ => isStored_of_collects ((hstore c hc).holds.collects hrep)
  have hkeep := hx c hc
  unfold Message.editSlot
  cases hout : x c with
  | ok _ c' | error e c' =>
    rw [hout] at hkeep
    exact hset c' hkeep

/-- Appending a value; one of another kind than the field's is ignored. -/
theorem append {value : FieldValue}
    (hinner : ∀ t m', f.element.type? = some t → m' ∈ value.toSlot.messages → m'.Fits S t) :
    (m.append i value).2.Fits S type := by
  obtain ⟨slot, hslot⟩ := h.exists_slot hf
  unfold Message.append
  rw [hslot]
  cases (h.atSlot hf hslot).shape with
  | @scalars kind c hrep hc store =>
    cases value with
    | scalar kind' value =>
      by_cases hkind : kind' = kind
      · simp only [hkind, dif_pos]
        exact h.editSlot hf hrep store (Repeated.keeps_add trivial) hc
      · simp only [hkind, dif_neg, not_false_eq_true]
        exact h
    | text | blob | message => exact h
  | texts hrep hc store =>
    cases value with
    | text value =>
      exact h.editSlot hf hrep store (Ensures.bind
        (Repeated.keeps_pushRecycled trivial fun _ h => h) fun _ =>
          .modify fun c hc => hc.modifyLast trivial) hc
    | scalar | blob | message => exact h
  | blobs hrep hc store =>
    cases value with
    | blob value =>
      exact h.editSlot hf hrep store (Ensures.bind
        (Repeated.keeps_pushRecycled trivial fun _ h => h) fun _ =>
          .modify fun c hc => hc.modifyLast trivial) hc
    | scalar | text | message => exact h
  | @subs t c hrep ht hc store =>
    cases value with
    | message value =>
      exact h.editSlot hf hrep store
        (Repeated.keeps_add (hinner t value ht (List.mem_singleton_self value))) hc
    | scalar | text | blob => exact h
  | scalar | text | blob | sub => exact h

include hS in
theorem appendDefault : (m.appendDefault S f i).2.Fits S type := by
  obtain ⟨slot, hslot⟩ := h.exists_slot hf
  unfold Message.appendDefault
  rw [hslot]
  cases (h.atSlot hf hslot).shape with
  | scalars hrep hc store | texts hrep hc store | blobs hrep hc store =>
    exact h.editSlot hf hrep store (Repeated.keeps_add trivial) hc
  | @subs t c hrep ht hc store =>
    refine h.editSlot hf hrep store (Repeated.keeps_add ?_) hc
    rw [Element.blank_eq ht]
    exact .blank (hS t)
  | scalar | text | blob | sub => exact h

include hS in
theorem store (hslot : f.FitsIn S slot) (hstored : slot.isStored = true) :
    (((m.prepare S (S.layout type) f).setSlot i slot).markPresent f).Fits S type := by
  have hprepared := h.prepare hS f
  obtain ⟨slot', hold⟩ := hprepared.exists_slot hf
  exact (hprepared.setSlot hf hslot fun _ => hstored).markPresent hS hf
    (getElem?_setSlot hold _) hstored

theorem extend (value : FieldValue) (hslot : m.slots[i]? = some slot) :
    (m.setSlot i (slot.extend value)).Fits S type := by
  have hfits := h.atSlot hf hslot
  have hself : (m.setSlot i slot).Fits S type := h.setSlot hf hfits (h.stored hf hslot)
  cases hfits.shape with
  | text _ store =>
    cases value with
    | text => exact h.setSlot hf (store _) fun _ => rfl
    | scalar | blob | message => exact hself
  | blob _ store =>
    cases value with
    | blob => exact h.setSlot hf (store _) fun _ => rfl
    | scalar | text | message => exact hself
  | scalar | sub | scalars | texts | blobs | subs => exact hself

/-- A field whose values are no messages always stores something. -/
theorem isStored_of_leaf (hslot : m.slots[i]? = some slot) (hleaf : f.element.type? = none) :
    slot.isStored = true := by
  cases (h.atSlot hf hslot).shape with
  | sub _ ht =>
    rw [hleaf] at ht
    cases ht
  | scalar | text | blob | scalars | texts | blobs | subs => rfl

end Message.Fits

/-! ### Changes -/

section Changes

variable {t : TypeId} (hS : S.Valid) (h : m.Fits S type) {order : FieldOrder} {i : Nat} {f : Field}

include h

include hS in
theorem fits_run_extend (hf : (S.layout type).fields[i]? = some f)
    (hleaf : f.element.type? = none) (value : FieldValue) :
    ((Action.extend i value).run S order type m).2.Fits S type := by
  have hprepared := h.prepare hS f
  obtain ⟨slot, hslot⟩ := hprepared.exists_slot hf
  have hmarked := hprepared.markPresent hS hf hslot (hprepared.isStored_of_leaf hf hslot hleaf)
  rw [← Message.slots_markPresent (f := f)] at hslot
  have hextended := hmarked.extend hf value hslot
  unfold Action.run
  rw [hf]
  simp only [Message.Fits.modify_slots hslot]
  exact hextended

include hS in
/-- A message that is changed is present, also if the change fails. -/
theorem fits_run_within {action : Action} (hf : (S.layout type).fields[i]? = some f)
    (ht : f.element.type? = some t)
    (haction : ∀ m', m'.Fits S t → (action.run S order t m').2.Fits S t) :
    ((Action.within i action).run S order type m).2.Fits S type := by
  have hprepared := h.prepare hS f
  obtain ⟨slot, hslot⟩ := hprepared.exists_slot hf
  unfold Action.run
  rw [hf]
  simp only [Message.slots_markPresent, hslot, ht]
  cases (hprepared.atSlot hf hslot).shape with
  | @sub t' value hrep ht' hvalue store =>
    rw [ht, Option.some.injEq] at ht'
    subst ht'
    have hvalue := haction _ (Element.fits_getD hS ht hvalue)
    simp only [Message.setSlot_markPresent]
    refine h.store hS hf (store _ ?_) rfl
    rintro _ ⟨⟩
    exact hvalue
  | scalar | text | blob | scalars | texts | blobs | subs =>
    exact hprepared.markPresent hS hf hslot rfl

theorem fits_run_atElement {action : Action} {place : Nat}
    (hf : (S.layout type).fields[i]? = some f) (ht : f.element.type? = some t)
    (haction : ∀ m', m'.Fits S t → (action.run S order t m').2.Fits S t) :
    ((Action.atElement i place action).run S order type m).2.Fits S type := by
  obtain ⟨slot, hslot⟩ := h.exists_slot hf
  unfold Action.run
  simp only [hslot, hf, Option.bind_some, ht]
  cases (h.atSlot hf hslot).shape with
  | @subs t' c hrep ht' hc store =>
    rw [ht, Option.some.injEq] at ht'
    subst ht'
    simp only
    cases hvalue : c.values[place]? with
    | none => exact h
    | some value =>
      have hvalue := haction value (hc.values value (List.mem_of_getElem? hvalue))
      refine h.setSlot hf (store _ (hc.withValues (List.length_set ..) fun m' hm' => ?_)) fun _ => rfl
      rcases List.mem_or_eq_of_mem_set hm' with hm' | rfl
      · exact hc.values m' hm'
      · exact hvalue
  | scalar | text | blob | sub | scalars | texts | blobs => exact h

include hS in
theorem fits_run_subs {step : Repeated.Step Message}
    (hf : (S.layout type).fields[i]? = some f) (ht : f.element.type? = some t)
    (hstep : step.Carries fun m => m.Fits S t) :
    ((Action.subs i step).run S order type m).2.Fits S type := by
  obtain ⟨slot, hslot⟩ := h.exists_slot hf
  unfold Action.run
  simp only [hslot, hf]
  cases (h.atSlot hf hslot).shape with
  | @subs t' c hrep ht' hc store =>
    rw [ht, Option.some.injEq] at ht'
    subst ht'
    exact h.editSlot hf hrep store (step.keeps_run (Element.fits_blank hS ht) hstep) hc
  | scalar | text | blob | sub | scalars | texts | blobs => exact h

theorem fits_run_scalars (i : Nat) (kind : Scalar) (step : Repeated.Step kind.Value) :
    ((Action.scalars i kind step).run S order type m).2.Fits S type := by
  unfold Action.run
  cases hslot : m.slots[i]? with
  | none => exact h
  | some slot =>
    obtain ⟨f, hf⟩ := h.exists_field hslot
    cases (h.atSlot hf hslot).shape with
    | @scalars kind' c hrep hc store =>
      simp only
      split
      · rename_i hkind
        subst hkind
        exact h.editSlot hf hrep store (step.keeps_run trivial step.carries_true) hc
      · exact h
    | scalar | text | blob | sub | texts | blobs | subs => exact h

theorem fits_run_texts (i : Nat) (step : Repeated.Step String) :
    ((Action.texts i step).run S order type m).2.Fits S type := by
  unfold Action.run
  cases hslot : m.slots[i]? with
  | none => exact h
  | some slot =>
    obtain ⟨f, hf⟩ := h.exists_field hslot
    cases (h.atSlot hf hslot).shape with
    | texts hrep hc store =>
      exact h.editSlot hf hrep store (step.keeps_run trivial step.carries_true) hc
    | scalar | text | blob | sub | scalars | blobs | subs => exact h

theorem fits_run_blobs (i : Nat) (step : Repeated.Step Bytes) :
    ((Action.blobs i step).run S order type m).2.Fits S type := by
  unfold Action.run
  cases hslot : m.slots[i]? with
  | none => exact h
  | some slot =>
    obtain ⟨f, hf⟩ := h.exists_field hslot
    cases (h.atSlot hf hslot).shape with
    | blobs hrep hc store =>
      exact h.editSlot hf hrep store (step.keeps_run trivial step.carries_true) hc
    | scalar | text | blob | sub | scalars | texts | subs => exact h

include hS in
theorem fits_run_parse (data : Bytes) :
    ((Action.parse data).run S order type m).2.Fits S type := by
  have hmerged := Message.Fits.mergeBytes hS order (.blank (hS type)) defaultRecursionLimit data
  unfold Action.run Message.parse
  cases hout : (S.blank type).mergeBytes S order type defaultRecursionLimit data with
  | mk outcome m' =>
    rw [hout] at hmerged
    cases outcome with
    | ok _ => exact hmerged
    | error e => exact h

end Changes

/-! ### Changes of one field -/

/-- The singular field that a change sets. -/
def Action.singular? : Action → Option Nat
  | store i _ | extend i _ | within i _ => some i
  | _ => none

/-- A change of a singular field stores a value and makes the field present, also if it fails. -/
theorem Action.of_singular {P : Message → Prop} (hS : S.Valid) {order : FieldOrder}
    {i : Nat} {action : Action} (hm : m.Fits S type) (h : action.singular? = some i) (hsame : P m)
    (hstore : ∀ f, (S.layout type).fields[i]? = some f → ∀ slot,
      P (((m.prepare S (S.layout type) f).setSlot i slot).markPresent f)) :
    P (action.run S order type m).2 := by
  cases hf : (S.layout type).fields[i]? with
  | none =>
    cases action with
    | store | extend | within =>
      cases h
      simpa only [Action.run, hf] using hsame
    | _ => cases h
  | some f =>
    obtain ⟨slot, hslot⟩ := (hm.prepare hS f).exists_slot hf
    rw [← Message.slots_markPresent (f := f)] at hslot
    replace hstore := hstore f hf
    simp only [← Message.setSlot_markPresent] at hstore
    cases action with
    | store j value =>
      cases h
      simp only [Action.run, hf, ← Message.setSlot_markPresent]
      exact hstore value.toSlot
    | extend j value =>
      cases h
      simp only [Action.run, hf, Message.Fits.modify_slots hslot]
      exact hstore (slot.extend value)
    | within j action =>
      cases h
      simp only [Action.run, hf]
      split
      · exact hstore _
      · exact setSlot_self hslot ▸ hstore slot
    | _ => cases h

/-! ### Messages in use fit -/

/-- A message in use fits its layout, also after merges that failed. By induction on its history:
a change keeps any message of the type fitting, and the messages it carries fit. -/
theorem Reachable.fits (hS : S.Valid) {order : FieldOrder} (h : Reachable S order type m) :
    m.Fits S type := by
  refine @Reachable.rec S order (fun type m _ => m.Fits S type)
    (fun type action _ => ∀ m : Message, m.Fits S type → (action.run S order type m).2.Fits S type)
    ?blank ?run ?merge ?parse ?clear ?copy ?clearField ?clearOneof ?store ?extend ?within ?append
    ?appendDefault ?atElement ?scalars ?texts ?blobs ?subs ?recycle type m h
  case blank => exact fun type => .blank (hS type)
  case run => exact fun _ _ ih keeps => keeps _ ih
  case merge =>
    intro type limit data m hm
    unfold Action.run
    exact hm.mergeBytes hS order limit data
  case parse => exact fun data m hm => fits_run_parse hS hm data
  case clear =>
    intro type m hm
    unfold Action.run
    exact hm.clear hS
  case copy =>
    intro type m hm
    unfold Action.run
    exact hm.copy
  case clearField =>
    intro type index m hm
    unfold Action.run
    cases hf : (S.layout type).fields[index]? with
    | none => exact hm
    | some f => exact hm.clearField hS hf
  case clearOneof =>
    intro type oneof m hm
    unfold Action.run
    exact hm.clearOneof hS oneof
  case store =>
    intro type index value f hf hrep hvalue _ ih m hm
    unfold Action.run
    rw [hf]
    have hstored : value.toSlot.isStored = true := by cases value <;> rfl
    exact hm.store hS hf ⟨Field.holds_of_stores hrep hvalue, fun t ht m' => ih t m' ht⟩ hstored
  case extend => exact fun value hf leaf m hm => fits_run_extend hS hm hf leaf value
  case within => exact fun hf ht _ ih m hm => fits_run_within hS hm hf ht ih
  case append =>
    intro type index value f hf _ ih m hm
    unfold Action.run
    exact hm.append hf ih
  case appendDefault =>
    intro type index m hm
    unfold Action.run
    cases hf : (S.layout type).fields[index]? with
    | none => exact hm
    | some f => exact hm.appendDefault hS hf
  case atElement => exact fun place hf ht _ ih m hm => fits_run_atElement hm hf ht ih
  case scalars => exact fun index kind step m hm => fits_run_scalars hm index kind step
  case texts => exact fun index step m hm => fits_run_texts hm index step
  case blobs => exact fun index step m hm => fits_run_blobs hm index step
  case subs =>
    intro type index f t step hf ht plain _ ih m hm
    exact fits_run_subs hS hm hf ht (Repeated.Step.carries_of_carried ih plain)
  case recycle => exact fun hf ht _ ih m hm => fits_run_subs hS hm hf ht ih

end ProtoWire
