import ProtoWire.Proofs.Message.Commute
import ProtoWire.Proofs.Message.Extent

/-!
# Room for more values

The containers of a message hold no more values than memory. An encoded message that is merged into
one with room for as many values as it has bytes does not overflow them.
-/

namespace ProtoWire

variable {S : Schema} {slot : Slot Message} {f : Field} {type : TypeId} {spare i size : Nat}
  {m : Message}

/-! ### Definitions -/

/-- Every container of the message has room for so many more values, and so has every message that
it would merge into. -/
inductive Message.Roomy (S : Schema) : (spare : Nat) → TypeId → Message → Prop where
  | intro {spare : Nat} {type : TypeId} {m : Message}
    (length : m.slots.length = (S.layout type).fields.length)
    (holds : ∀ (i : Nat) (f : Field) (slot : Slot Message),
      (S.layout type).fields[i]? = some f → m.slots[i]? = some slot → f.Holds slot)
    (room : ∀ (i : Nat) (f : Field) (slot : Slot Message),
      (S.layout type).fields[i]? = some f → m.slots[i]? = some slot → f.isRepeated = true →
        spare ≤ slot.room)
    (inner : ∀ (i : Nat) (f : Field) (t : TypeId) (m' : Message),
      (S.layout type).fields[i]? = some f → m.slots[i]? = some (.sub (some m')) →
        f.element.type? = some t → Roomy S spare t m') :
    Roomy S spare type m

/-- A slot with room for so many more values, if it is a container. -/
structure Field.Roomy (S : Schema) (spare : Nat) (f : Field) (slot : Slot Message) : Prop where
  holds : f.Holds slot
  room : f.isRepeated = true → spare ≤ slot.room
  inner : ∀ (t : TypeId) (m : Message), f.element.type? = some t → slot = .sub (some m) →
    m.Roomy S spare t

namespace Message.Roomy

theorem length (h : m.Roomy S spare type) : m.slots.length = (S.layout type).fields.length := by
  cases h with
  | intro length => exact length

theorem atSlot (h : m.Roomy S spare type) (hf : (S.layout type).fields[i]? = some f)
    (hslot : m.slots[i]? = some slot) : f.Roomy S spare slot := by
  cases h with
  | intro _ holds room inner =>
    refine ⟨holds i f slot hf hslot, room i f slot hf hslot, fun t m' ht hm' => ?_⟩
    subst hm'
    exact inner i f t m' hf hslot ht

theorem of_slots (length : m.slots.length = (S.layout type).fields.length)
    (hslots : ∀ (i : Nat) (f : Field) (slot : Slot Message),
      (S.layout type).fields[i]? = some f → m.slots[i]? = some slot → f.Roomy S spare slot) :
    m.Roomy S spare type :=
  .intro length (fun i f slot hf hslot => (hslots i f slot hf hslot).holds)
    (fun i f slot hf hslot => (hslots i f slot hf hslot).room)
    (fun i f t m' hf hslot ht => (hslots i f _ hf hslot).inner t m' ht rfl)

/-- Room is a matter of slots alone. -/
theorem congr {m' : Message} (h : m.Roomy S spare type) (hslots : m'.slots = m.slots) :
    m'.Roomy S spare type :=
  .of_slots (hslots ▸ h.length) fun _ _ _ hf hslot => h.atSlot hf (hslots ▸ hslot)

theorem mono {spare' : Nat} (h : m.Roomy S spare type) (hle : spare' ≤ spare) :
    m.Roomy S spare' type := by
  induction h with
  | intro length holds room inner ih =>
    exact .intro length holds
      (fun i f slot hf hslot hrep => Nat.le_trans hle (room i f slot hf hslot hrep))
      (fun i f t m' hf hslot ht => ih i f t m' hf hslot ht)

theorem setSlot (h : m.Roomy S spare type) (hf : (S.layout type).fields[i]? = some f)
    (hslot : f.Roomy S spare slot) : (m.setSlot i slot).Roomy S spare type := by
  refine .of_slots ((List.length_set ..).trans h.length) fun j g slot' hg hslot' => ?_
  rw [Message.setSlot, List.getElem?_set] at hslot'
  split at hslot'
  · rename_i hij
    subst hij
    rw [hf, Option.some.injEq] at hg
    subst hg
    split at hslot'
    · rw [Option.some.injEq] at hslot'
      exact hslot' ▸ hslot
    · cases hslot'
  · exact h.atSlot hg hslot'

end Message.Roomy

theorem Field.Roomy.mono {spare' : Nat} (h : f.Roomy S spare slot) (hle : spare' ≤ spare) :
    f.Roomy S spare' slot :=
  ⟨h.holds, fun hrep => Nat.le_trans hle (h.room hrep),
    fun t m ht hm => (h.inner t m ht hm).mono hle⟩

/-! ### New messages -/

/-- The room of a container without values, whatever its elements. -/
def leastCapacity : Nat :=
  Repeated.maxCapacity blobSize

theorem two_pow_le_leastCapacity : 2 ^ 32 ≤ leastCapacity := by decide

theorem leastCapacity_le (h : size ≤ blobSize) : leastCapacity ≤ Repeated.maxCapacity size := by
  have hpos : 1 ≤ blobSize := by decide
  exact Nat.div_le_div_left (by omega) (by omega)

theorem Scalar.storageSize_le (kind : Scalar) : kind.storageSize ≤ blobSize := by
  cases kind <;> decide

theorem Element.leastCapacity_le_room (element : Element) :
    leastCapacity ≤ element.emptySlot.room := by
  cases element with
  | scalar kind default => exact leastCapacity_le kind.storageSize_le
  | enum declared default => exact leastCapacity_le (Scalar.storageSize_le .int32)
  | text default => exact leastCapacity_le (show textSize ≤ blobSize by decide)
  | blob default => exact leastCapacity_le (Nat.le_refl blobSize)
  | message type | group type => exact leastCapacity_le (show messageSize ≤ blobSize by decide)

section Clearing

variable (hspare : spare ≤ leastCapacity)

include hspare

theorem Field.roomy_blankSlot (f : Field) :
    f.Roomy S spare f.blankSlot where
  holds := f.holds_blankSlot
  room := by
    intro hrep
    rw [Field.blankSlot_of_repeated hrep]
    exact Nat.le_trans hspare f.element.leastCapacity_le_room
  inner := by
    intro t m _ hm
    have hnil := f.messages_blankSlot
    rw [hm] at hnil
    cases hnil

theorem Message.Roomy.blank : (S.blank type).Roomy S spare type := by
  refine .of_slots (List.length_map _) fun i f slot hf hslot => ?_
  obtain rfl : f.blankSlot = slot := by
    simpa [Schema.blank, Layout.blank, hf] using hslot
  exact f.roomy_blankSlot hspare

/-! ### Cleared messages -/

theorem Field.Roomy.of_empty (hsize : size ≤ blobSize)
    (holds : f.Holds slot) (hroom : slot.room = Repeated.maxCapacity size - 0)
    (hsub : ∀ m, slot ≠ .sub (some m)) :
    f.Roomy S spare slot where
  holds := holds
  room := by
    intro _
    rw [hroom, Nat.sub_zero]
    exact Nat.le_trans hspare (leastCapacity_le hsize)
  inner := fun _ m _ hm => absurd hm (hsub m)

theorem Field.roomy_clearSlot
    (h : f.Fits (fun t m => (m.clear S (S.layout t)).Roomy S spare t) slot) :
    f.Roomy S spare (clearSlot S f slot) := by
  have holds : f.Holds (clearSlot S f slot) := h.holds.clearSlot
  cases h.shape with
  | scalar | text | blob =>
    rw [clearSlot]
    exact f.roomy_blankSlot hspare
  | @sub type value singular htype hvalue =>
    rw [clearSlot_sub htype] at holds ⊢
    refine ⟨holds, by simp [singular], fun t m' ht hm' => ?_⟩
    cases htype.symm.trans ht
    obtain ⟨m, hm, rfl⟩ := Option.map_eq_some_iff.1 (Slot.sub.inj hm')
    exact hvalue m hm
  | @scalars kind =>
    rw [clearSlot] at holds ⊢
    exact .of_empty hspare kind.storageSize_le holds rfl (by simp)
  | texts | blobs | subs =>
    rw [clearSlot] at holds ⊢
    exact .of_empty hspare (by decide) holds rfl (by simp)

/-- A message that was cleared has room for as many values as a new one. -/
theorem Message.Fits.roomy_clear (h : m.Fits S type) :
    (m.clear S (S.layout type)).Roomy S spare type := by
  induction h with
  | @step type m hm ih =>
    cases m
    rw [Message.clear]
    refine .of_slots (slotWise_clear.length_eq.trans hm.length) fun i f slot hf hslot => ?_
    rw [slotWise_clear.getElem?_eq hf] at hslot
    obtain ⟨slot, hold, rfl⟩ := Option.map_eq_some_iff.1 hslot
    exact f.roomy_clearSlot hspare
      ⟨(hm.atSlot hf hold).holds, ih hf hold⟩

theorem Message.Roomy.resetSlot (h : m.Roomy S spare type) (hm : m.Fits S type)
    (hf : (S.layout type).fields[i]? = some f) : (m.resetSlot S f i).Roomy S spare type := by
  obtain ⟨slot, hslot⟩ := hm.exists_slot hf
  have hfits := hm.atSlot hf hslot
  rw [Message.Fits.resetSlot_eq hslot]
  exact h.setSlot hf (f.roomy_clearSlot hspare
    ⟨hfits.holds, fun t ht m hm => (hfits.inner t ht m hm).roomy_clear hspare⟩)

theorem Message.Roomy.prepare (h : m.Roomy S spare type) (hm : m.Fits S type) (f : Field) :
    (m.prepare S (S.layout type) f).Roomy S spare type := by
  have hclear : ∀ oneof, (m.clearOneof S (S.layout type) oneof).Roomy S spare type := by
    intro oneof
    have hslots := Message.Fits.slots_clearOneof (S := S) (m := m) (S.layout type) oneof
    cases hactive : m.activeMember? (S.layout type) oneof with
    | none =>
      rw [hactive] at hslots
      exact h.congr hslots
    | some p =>
      rw [hactive] at hslots
      have hp := List.mem_zipIdx_iff_getElem?.1 (List.mem_of_find?_eq_some hactive)
      exact (h.resetSlot hspare hm hp).congr hslots
  unfold Message.prepare
  split
  · split
    · exact h
    · exact hclear _
  · exact h
  · exact h

end Clearing

/-! ### Storing -/

/-- What is in a place after a slot was stored: that slot, and elsewhere the default of a member that
gave way, or what was there before. -/
theorem Message.getElem?_store {L : Layout} {j : Nat} {g : Field} {slot' : Slot Message}
    (hg : L.fields[j]? = some g) (h : (m.store L f i slot).slots[j]? = some slot') :
    (i = j ∧ slot' = slot) ∨
      i ≠ j ∧ ((f.oneof? ≠ none ∧ g.oneof? = f.oneof? ∧ slot' = g.blankSlot) ∨
        m.slots[j]? = some slot') := by
  -- Something is set in a list at most in the place where it is looked for.
  have hset : ∀ {slots : List (Slot Message)} {i : Nat} {slot : Slot Message},
      (slots.set i slot)[j]? = some slot' →
        (i = j ∧ slot' = slot) ∨ i ≠ j ∧ slots[j]? = some slot' := by
    intro slots i slot h
    by_cases hij : i = j
    · subst hij
      obtain ⟨old, -, rfl⟩ := Option.map_eq_some_iff.1 (List.getElem?_set_self' ▸ h)
      exact .inl ⟨rfl, rfl⟩
    · exact .inr ⟨hij, List.getElem?_set_ne hij ▸ h⟩
  rw [Message.slots_store] at h
  refine (hset h).imp id fun ⟨hij, h⟩ => ⟨hij, ?_⟩
  cases hq : m.displaced? L f with
  | none => exact .inr (by simpa only [hq] using h)
  | some q =>
    simp only [hq] at h
    obtain ⟨hfield, hsome, honeof⟩ := Message.displaced?_eq_some hq
    rcases hset h with ⟨rfl, rfl⟩ | ⟨-, h⟩
    · obtain rfl := Option.some.inj (hfield.symm.trans hg)
      exact .inl ⟨hsome, honeof, rfl⟩
    · exact .inr h

theorem Message.length_slots_store {L : Layout} (slot : Slot Message) :
    (m.store L f i slot).slots.length = m.slots.length := by
  rw [Message.slots_store, List.length_set]
  split
  · exact List.length_set ..
  · rfl

theorem Message.Roomy.store (h : m.Roomy S spare type) (hspare : spare ≤ leastCapacity)
    (hf : (S.layout type).fields[i]? = some f) (hslot : f.Roomy S spare slot) :
    (m.store (S.layout type) f i slot).Roomy S spare type := by
  refine .of_slots ((Message.length_slots_store slot).trans h.length) fun j g slot' hg hslot' => ?_
  rcases Message.getElem?_store hg hslot' with ⟨rfl, rfl⟩ | ⟨-, ⟨-, -, rfl⟩ | hold⟩
  · exact Option.some.inj (hf.symm.trans hg) ▸ hslot
  · exact g.roomy_blankSlot hspare
  · exact h.atSlot hg hold

/-! ### Views -/

theorem Field.Holds.viewSlot (h : f.Holds slot) :
    f.Holds (viewSlot S f slot) ∧ (ProtoWire.viewSlot S f slot).room = slot.room := by
  have hfits : f.Fits (fun _ _ => True) slot := ⟨h, fun _ _ _ _ => trivial⟩
  cases hfits.shape with
  | scalar | text | blob => exact ⟨h, rfl⟩
  | sub _ htype _ store =>
    rw [viewSlot_sub htype]
    exact ⟨(store _ fun _ _ => trivial).holds, rfl⟩
  | scalars _ sound store | texts _ sound store | blobs _ sound store =>
    exact ⟨(store _ (.ofList sound.length_le fun _ _ => trivial)).holds, rfl⟩
  | @subs t c _ htype sound store =>
    have hlength : (c.values.map (Message.view S (S.layout t))).length = c.values.length :=
      List.length_map _
    rw [viewSlot_subs htype]
    refine ⟨(store _ (.ofList (hlength ▸ sound.length_le) fun _ _ => trivial)).holds, ?_⟩
    rw [Slot.room, Slot.room, Repeated.ofList, hlength]

/-- A message that is seen in a slot is what is seen of the one that is stored there. -/
theorem exists_of_viewSlot_eq_sub {w : Message} (htype : f.element.type? = some type)
    (h : viewSlot S f slot = .sub (some w)) :
    ∃ m, slot = .sub (some m) ∧ w = m.view S (S.layout type) := by
  cases slot with
  | sub value =>
    rw [viewSlot_sub htype] at h
    obtain ⟨m, rfl, htrim⟩ := Option.bind_eq_some_iff.1 (Slot.sub.inj h)
    refine ⟨m, rfl, ?_⟩
    unfold Schema.trim at htrim
    split at htrim
    · cases htrim
    · exact (Option.some.inj htrim).symm
  | _ => simp [viewSlot, htype] at h

theorem Message.Roomy.view (h : m.Roomy S spare type) :
    (m.view S (S.layout type)).Roomy S spare type := by
  induction h with
  | @intro type m length holds room inner ih =>
    refine .of_slots ?_ fun i f slot hf hslot => ?_
    · rw [Message.slots_view, slotWise_view.length_eq, length]
    · rw [Message.getElem?_view hf] at hslot
      obtain ⟨slot, hm, rfl⟩ := Option.map_eq_some_iff.1 hslot
      obtain ⟨hholds, hroom⟩ := Field.Holds.viewSlot (S := S) (holds i f slot hf hm)
      refine ⟨hholds, fun hrep => hroom ▸ room i f slot hf hm hrep, fun t m' ht hm' => ?_⟩
      obtain ⟨m', rfl, rfl⟩ := exists_of_viewSlot_eq_sub ht hm'
      exact ih i f t m' hf hm ht

/-! ### Updates -/

section Updates

variable {u : Update}

theorem Repeated.exists_push {α : Type} {c : Repeated α}
    (hroom : spare + 1 ≤ maxCapacity size - c.values.length) (value : α) :
    ∃ c', c.push size value = some c' ∧ spare ≤ maxCapacity size - c'.values.length ∧
      c'.Sound size fun _ => True := by
  have hlength : (c.values ++ [value]).length = c.values.length + 1 := by simp
  refine ⟨.ofList (c.values ++ [value]), Repeated.push_eq_some.2 ⟨by omega, rfl⟩, ?_,
    .ofList (by omega) fun _ _ => trivial⟩
  rw [Repeated.ofList, hlength]
  omega

/-- A value of the kind of a field can be stored, or appended where there is room. -/
theorem Element.Admits.exists_change (hadmits : f.element.Admits u)
    (h : f.Roomy S (spare + 1) slot) :
    ∃ slot', u.change S f slot = some slot' ∧ f.Roomy S spare slot' := by
  have hleaf := hadmits.type?_eq_none
  have hroomy : ∀ slot', f.Holds slot' → (f.isRepeated = true → spare ≤ slot'.room) →
      f.Roomy S spare slot' := fun slot' hholds hroom =>
    ⟨hholds, hroom, fun t m ht => by simp [hleaf] at ht⟩
  cases hrep : f.isRepeated with
  | false =>
    -- The value takes the place of the one before.
    have hstore : ∀ slot', f.element.Stores slot' → f.Roomy S spare slot' := fun slot' hstores =>
      hroomy slot' (Field.holds_of_stores hrep hstores) (by simp [hrep])
    have hstores := h.holds.stores hrep
    obtain ⟨_, _, element, _⟩ := f
    cases hadmits with
    | scalar =>
      cases hstores
      exact ⟨_, by rw [Update.change, if_pos rfl], hstore _ .scalar⟩
    | enum =>
      cases hstores
      exact ⟨_, by rw [Update.change, if_pos rfl], hstore _ .enum⟩
    | text =>
      cases hstores
      exact ⟨_, by rw [Update.change], hstore _ .text⟩
    | blob =>
      cases hstores
      exact ⟨_, by rw [Update.change], hstore _ .blob⟩
  | true =>
    have hcollect : ∀ slot', f.element.Collects slot' → spare ≤ slot'.room →
        f.Roomy S spare slot' := fun slot' hcollects hroom =>
      hroomy slot' (Field.holds_of_collects hrep hcollects) fun _ => hroom
    have hcollects := h.holds.collects hrep
    have hroom := h.room hrep
    cases f
    cases hadmits with
    | @scalar kind default value =>
      cases hcollects
      obtain ⟨c', hpush, hroom', hsound⟩ := Repeated.exists_push hroom value
      exact ⟨.scalars kind c', by simp [Update.change, hpush], hcollect _ (.scalar hsound) hroom'⟩
    | @enum declared default value =>
      cases hcollects
      obtain ⟨c', hpush, hroom', hsound⟩ := Repeated.exists_push hroom value
      exact ⟨.scalars .int32 c', by simp [Update.change, hpush], hcollect _ (.enum hsound) hroom'⟩
    | @text default value =>
      cases hcollects
      obtain ⟨c', hpush, hroom', hsound⟩ := Repeated.exists_push hroom value
      exact ⟨.texts c', by simp [Update.change, hpush], hcollect _ (.text hsound) hroom'⟩
    | @blob default value =>
      cases hcollects
      obtain ⟨c', hpush, hroom', hsound⟩ := Repeated.exists_push hroom value
      exact ⟨.blobs c', by simp [Update.change, hpush], hcollect _ (.blob hsound) hroom'⟩

theorem Field.Roomy.exists_change {inside : Nat} {contents : List Update}
    (htype : f.element.type? = some type) (hspare : spare + inside ≤ leastCapacity)
    (happly : ∀ v : Message, v.Roomy S (spare + inside) type →
      ∃ w, applyAll S type contents v = some w ∧ w.Roomy S spare type)
    (h : f.Roomy S (spare + inside + 1) slot) :
    ∃ slot', (Update.message i contents).change S f slot = some slot' ∧ f.Roomy S spare slot' := by
  cases hrep : f.isRepeated with
  | false =>
    obtain ⟨value, rfl, hstores⟩ : ∃ value, slot = .sub value ∧
        ∀ value, f.element.Stores (.sub value) := by
      have hstores := h.holds.stores hrep
      obtain ⟨_, _, element, _⟩ := f
      cases hstores with
      | message => exact ⟨_, rfl, fun _ => .message⟩
      | group => exact ⟨_, rfl, fun _ => .group⟩
      | scalar | enum | text | blob => cases htype
    have hvalue : (value.getD (S.blank type)).Roomy S (spare + inside) type := by
      cases value with
      | none => exact .blank hspare
      | some m => exact (h.inner type m htype rfl).mono (Nat.le_succ _)
    obtain ⟨w, hw, hroomy⟩ := happly _ hvalue
    refine ⟨.sub (S.trim type w), by simp [Update.change, htype, hw],
      Field.holds_of_stores hrep (hstores _), by simp [hrep], fun t m ht hm => ?_⟩
    obtain rfl : type = t := Option.some.inj (htype.symm.trans ht)
    unfold Schema.trim at hm
    split at hm
    · cases hm
    · cases hm
      exact hroomy
  | true =>
    obtain ⟨c, rfl, hcollects⟩ : ∃ c, slot = .subs c ∧
        ∀ c : Repeated Message, c.Sound messageSize (fun _ => True) →
          f.element.Collects (.subs c) := by
      have hcollects := h.holds.collects hrep
      cases f
      cases hcollects with
      | message => exact ⟨_, rfl, fun _ => .message⟩
      | group => exact ⟨_, rfl, fun _ => .group⟩
      | scalar | enum | text | blob => cases htype
    obtain ⟨w, hw, -⟩ := happly _ (.blank hspare)
    have hroom : spare + 1 ≤ Repeated.maxCapacity messageSize - c.values.length :=
      Nat.le_trans (by omega) (h.room hrep)
    obtain ⟨c', hpush, hroom', hsound⟩ := Repeated.exists_push hroom w
    exact ⟨.subs c', by simp [Update.change, htype, hw, hpush],
      Field.holds_of_collects hrep (hcollects c' hsound), fun _ => hroom', by simp⟩

end Updates

theorem Message.Roomy.exists_amend {n : Nat} {v : Message} (hv : v.Roomy S n type) (spare : Nat)
    (hle : spare ≤ n) (hspare : spare ≤ leastCapacity) (hf : (S.layout type).fields[i]? = some f)
    {change : Field → Slot Message → Option (Slot Message)} (hchange : ∀ slot, f.Roomy S n slot →
      ∃ slot', change f slot = some slot' ∧ f.Roomy S spare slot') :
    ∃ w, v.amend (S.layout type) i change = some w ∧ w.Roomy S spare type := by
  obtain ⟨slot, hslot⟩ := Message.exists_slot hv.length hf
  obtain ⟨slot', hslot', hroomy⟩ := hchange slot (hv.atSlot hf hslot)
  refine ⟨_, ?_, (hv.mono hle).store hspare hf hroomy⟩
  rw [Message.amend_eq_store hf hslot, hslot', Option.map_some]

/-- Updates can be applied where there is room for them. -/
theorem Measured.exists_applyAll {levels count : Nat} {us : List Update}
    (h : Measured S type levels count us) (hspare : spare + count ≤ leastCapacity) {v : Message}
    (hv : v.Roomy S (spare + count) type) :
    ∃ w, applyAll S type us v = some w ∧ w.Roomy S spare type := by
  induction h generalizing spare v with
  | nil => exact ⟨v, by rw [applyAll], hv⟩
  | @value type _ count f u us field admits _ rest ih =>
    obtain ⟨w, hw, hroomy⟩ := hv.exists_amend (spare + count) (by omega) (by omega) field
      fun slot hslot => admits.exists_change hslot
    obtain ⟨w', hw', hroomy'⟩ := ih (by omega) hroomy
    exact ⟨w', by rw [applyAll, hw, Option.bind_some, hw'], hroomy'⟩
  | @message type t _ inside count f i contents us field element inner rest ihinner ih =>
    have hsum : spare + (inside + count + 1) = spare + count + inside + 1 := by omega
    rw [hsum] at hv hspare
    obtain ⟨w, hw, hroomy⟩ := hv.exists_amend (spare + count) (by omega) (by omega) field
      fun slot hslot => Field.Roomy.exists_change element (by omega)
        (fun v hv => ihinner (by omega) hv) hslot
    obtain ⟨w', hw', hroomy'⟩ := ih (by omega) hroomy
    exact ⟨w', by rw [applyAll, Update.index, hw, Option.bind_some, hw'], hroomy'⟩

end ProtoWire
