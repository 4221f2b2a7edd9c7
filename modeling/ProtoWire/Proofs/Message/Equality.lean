import ProtoWire.Proofs.Message.Present

/-!
# Equality of messages

Messages are equal if they have the same gist: what is present, as it is seen. What is written
depends on the gist alone.
-/

namespace ProtoWire

variable {L : Layout} {i : Nat} {t : TypeId}

/-- What is present in a message, as it is seen: without what is stored for absent fields, spare
room, retained elements, and nested messages that hold nothing. -/
def Message.gist (S : Schema) (L : Layout) (m : Message) : Message :=
  (m.strip S L).view S L

/-- What is seen of the slot of a field that is present. -/
def gistSlot (S : Schema) (f : Field) (slot : Slot Message) : Slot Message :=
  viewSlot S f (stripSlot S f slot)

section Gist

variable {S : Schema} {type : TypeId} {m : Message} {f : Field} {slot : Slot Message}

@[simp] theorem Message.presence_gist : (m.gist S L).presence = m.presence := by
  rw [gist, presence_view, presence_strip]

@[simp] theorem Message.cases_gist : (m.gist S L).cases = m.cases := by
  rw [gist, cases_view, cases_strip]

theorem Message.Fits.length_gist (hm : m.Fits S type) :
    (m.gist S (S.layout type)).slots.length = (S.layout type).fields.length := by
  rw [gist, slots_view, slotWise_view.length_eq, hm.strip.length]

theorem Message.getElem?_gist (hf : (S.layout type).fields[i]? = some f)
    (hslot : m.slots[i]? = some slot) :
    (m.gist S (S.layout type)).slots[i]? =
      some (if f.isRepeated = false → f.isMarked m.presence m.cases = true then gistSlot S f slot
        else f.blankSlot) := by
  rw [gist, getElem?_view_strip hf hslot]
  cases hrep : f.isRepeated with
  | true => rfl
  | false =>
    rw [Field.isPresent_of_singular hrep]
    cases f.isMarked m.presence m.cases with
    | true => rfl
    | false => exact congrArg some (viewSlot_blankSlot f)

theorem gistSlot_sub (ht : f.element.type? = some t) (m : Message) :
    gistSlot S f (.sub (some m)) = .sub (S.trim t (m.gist S (S.layout t))) := by
  rw [gistSlot, stripSlot_sub ht, viewSlot_sub ht]
  rfl

theorem gistSlot_subs (ht : f.element.type? = some t) (c : Repeated Message) :
    gistSlot S f (.subs c) = .subs (.ofList (c.values.map (Message.gist S (S.layout t)))) := by
  rw [gistSlot, stripSlot_subs ht, viewSlot_subs ht, List.map_map]
  rfl

theorem Message.Fits.gist_eq_of_trim_eq {n : Message} (hm : m.Fits S type) (hn : n.Fits S type)
    (h : S.trim type (m.gist S (S.layout type)) = S.trim type (n.gist S (S.layout type))) :
    m.gist S (S.layout type) = n.gist S (S.layout type) :=
  hm.strip.trim_inj hn.strip h

end Gist

/-! ### Equality -/

section Equality

variable {S : Schema} {type : TypeId} {m n : Message} {f : Field} {slot slot' : Slot Message}

theorem beqMessages_iff {ms ns : List Message}
    (h : ∀ m ∈ ms, ∀ n ∈ ns, m.beq S L n = true ↔ m.gist S L = n.gist S L) :
    beqMessages S L ms ns = true ↔ ms.map (Message.gist S L) = ns.map (Message.gist S L) := by
  induction ms generalizing ns with
  | nil =>
    cases ns with
    | nil | cons n ns => simp [beqMessages]
  | cons m ms ih =>
    cases ns with
    | nil => simp [beqMessages]
    | cons n ns =>
      rw [beqMessages, Bool.and_eq_true, h m List.mem_cons_self n List.mem_cons_self,
        ih fun m hm n hn => h m (List.mem_cons_of_mem _ hm) n (List.mem_cons_of_mem _ hn),
        List.map_cons, List.map_cons, List.cons.injEq]

/-- Two slots of one field that hold something, by its kind. -/
inductive Field.Pair (f : Field) : Slot Message → Slot Message → Prop where
  | scalar {kind : Scalar} (value value' : kind.Value) :
    Pair f (.scalar kind value) (.scalar kind value')
  | text (value value' : String) : Pair f (.text value) (.text value')
  | blob (value value' : Bytes) : Pair f (.blob value) (.blob value')
  | sub {t : TypeId} (ht : f.element.type? = some t) (m n : Message) :
    Pair f (.sub (some m)) (.sub (some n))
  | scalars {kind : Scalar} (c c' : Repeated kind.Value) :
    Pair f (.scalars kind c) (.scalars kind c')
  | texts (c c' : Repeated String) : Pair f (.texts c) (.texts c')
  | blobs (c c' : Repeated Bytes) : Pair f (.blobs c) (.blobs c')
  | subs {t : TypeId} (ht : f.element.type? = some t) (c c' : Repeated Message) :
    Pair f (.subs c) (.subs c')

theorem Slot.exists_of_isStored {value : Option Message} (h : (Slot.sub value).isStored = true) :
    ∃ m, value = some m := by
  cases value with
  | none => cases h
  | some m => exact ⟨m, rfl⟩

theorem Field.Fits.pair {inner inner' : TypeId → Message → Prop} (h : f.Fits inner slot)
    (h' : f.Fits inner' slot') (hstored : slot.isStored = true) (hstored' : slot'.isStored = true) :
    f.Pair slot slot' := by
  cases hrep : f.isRepeated with
  | false =>
    have hstores := h.holds.stores hrep
    have hstores' := h'.holds.stores hrep
    cases f
    cases hstores with
    | scalar | enum => cases hstores'; exact .scalar _ _
    | text => cases hstores'; exact .text _ _
    | blob => cases hstores'; exact .blob _ _
    | message | group =>
      cases hstores'
      obtain ⟨m, rfl⟩ := Slot.exists_of_isStored hstored
      obtain ⟨n, rfl⟩ := Slot.exists_of_isStored hstored'
      exact .sub rfl m n
  | true =>
    have hcollects := h.holds.collects hrep
    have hcollects' := h'.holds.collects hrep
    cases f
    cases hcollects with
    | scalar | enum => cases hcollects'; exact .scalars _ _
    | text => cases hcollects'; exact .texts _ _
    | blob => cases hcollects'; exact .blobs _ _
    | message | group => cases hcollects'; exact .subs rfl _ _

theorem beqSlot_sub (ht : f.element.type? = some t) (m n : Message) :
    beqSlot S f.element (.sub (some m)) (.sub (some n)) = m.beq S (S.layout t) n := by
  obtain ⟨_, _, element, _⟩ := f
  cases element <;> cases ht <;> simp [beqSlot]

theorem beqSlot_subs (ht : f.element.type? = some t) (c c' : Repeated Message) :
    beqSlot S f.element (.subs c) (.subs c') =
      beqMessages S (S.layout t) c.values c'.values := by
  obtain ⟨_, _, element, _⟩ := f
  cases element <;> cases ht <;> simp [beqSlot]

/-- Slots with something stored are equal if the same is seen of them. -/
theorem beqSlot_iff (h : f.FitsIn S slot)
    (h' : f.FitsIn S slot') (hstored : slot.isStored = true)
    (hstored' : slot'.isStored = true)
    (hinner : ∀ t ∈ f.element.type?, ∀ m ∈ slot.messages, ∀ n ∈ slot'.messages,
      m.beq S (S.layout t) n = true ↔ m.gist S (S.layout t) = n.gist S (S.layout t)) :
    beqSlot S f.element slot slot' = true ↔ gistSlot S f slot = gistSlot S f slot' := by
  cases h.pair h' hstored hstored' with
  | scalar | text | blob => simp [beqSlot, gistSlot, stripSlot, viewSlot]
  | scalars | texts | blobs =>
    simp [beqSlot, gistSlot, stripSlot, viewSlot, Repeated.ofList_inj]
  | @sub t ht m n =>
    have hm : m ∈ (Slot.sub (some m)).messages := List.mem_singleton_self m
    have hn : n ∈ (Slot.sub (some n)).messages := List.mem_singleton_self n
    rw [beqSlot_sub ht, gistSlot_sub ht, gistSlot_sub ht, Slot.sub.injEq, hinner t ht m hm n hn]
    exact ⟨congrArg (S.trim t), (h.inner t ht m hm).gist_eq_of_trim_eq (h'.inner t ht n hn)⟩
  | @subs t ht c c' =>
    rw [beqSlot_subs ht, gistSlot_subs ht, gistSlot_subs ht, Slot.subs.injEq, Repeated.ofList_inj]
    exact beqMessages_iff fun m hm n hn =>
      hinner t ht m (List.mem_append_left _ hm) n (List.mem_append_left _ hn)

theorem Message.beq_iff_slots :
    m.beq S L n = true ↔ m.presence = n.presence ∧ m.cases = n.cases ∧
      beqSlots S m.presence m.cases L.fields m.slots n.slots = true := by
  cases m
  cases n
  rw [Message.beq, Bool.and_eq_true, Bool.and_eq_true, beq_iff_eq, beq_iff_eq, and_assoc]

theorem beqSlots_iff {presence : Presence} {cases : List UInt32} {fields : List Field}
    {slots slots' : List (Slot Message)} :
    beqSlots S presence cases fields slots slots' = true ↔
      ∀ (i : Nat) (f : Field) (slot slot' : Slot Message), fields[i]? = some f →
        slots[i]? = some slot → slots'[i]? = some slot' →
          (!f.isRepeated && !f.isPresent presence cases slot || beqSlot S f.element slot slot') =
            true := by
  induction fields generalizing slots slots' with
  | nil => simp [beqSlots]
  | cons f fields ih =>
    cases slots with
    | nil => simp [beqSlots]
    | cons slot slots =>
      cases slots' with
      | nil => simp [beqSlots]
      | cons slot' slots' =>
        rw [beqSlots, Bool.and_eq_true, ih]
        refine ⟨?_, fun h => ⟨h 0 f slot slot' rfl rfl rfl, fun i => h (i + 1)⟩⟩
        rintro ⟨hslot, hslots⟩ (_ | i)
        · rintro _ _ _ ⟨⟩ ⟨⟩ ⟨⟩
          exact hslot
        · exact hslots i

/-- Slots are equal if those of the fields that are shown are: the repeated ones and the marked
ones. -/
theorem beqSlots_iff_shown {presence : Presence} {cases : List UInt32} {fields : List Field}
    {slots slots' : List (Slot Message)} :
    beqSlots S presence cases fields slots slots' = true ↔
      ∀ (i : Nat) (f : Field) (slot slot' : Slot Message), fields[i]? = some f →
        slots[i]? = some slot → slots'[i]? = some slot' →
        (f.isRepeated = false → f.isMarked presence cases = true) →
          beqSlot S f.element slot slot' = true := by
  rw [beqSlots_iff]
  refine forall₄_congr fun i f slot slot' => forall₃_congr fun _ _ _ => ?_
  cases hrep : f.isRepeated with
  | true => simp
  | false =>
    rw [Field.isPresent_of_singular hrep]
    cases f.isMarked presence cases <;> simp

/-- Messages have the same gist if the same is marked in both, and each field that is shown has the
same gist. -/
theorem Message.Fits.gist_eq_iff (hm : m.Fits S type) (hn : n.Fits S type) :
    m.gist S (S.layout type) = n.gist S (S.layout type) ↔
      m.presence = n.presence ∧ m.cases = n.cases ∧
      ∀ (i : Nat) (f : Field) (slot slot' : Slot Message), (S.layout type).fields[i]? = some f →
        m.slots[i]? = some slot → n.slots[i]? = some slot' →
        (f.isRepeated = false → f.isMarked m.presence m.cases = true) →
          gistSlot S f slot = gistSlot S f slot' := by
  constructor
  · intro hgist
    have hpresence : m.presence = n.presence := by simpa using congrArg Message.presence hgist
    have hcases : m.cases = n.cases := by simpa using congrArg Message.cases hgist
    refine ⟨hpresence, hcases, fun i f slot slot' hf hs hs' hshown => ?_⟩
    have hslots := congrArg (fun v => v.slots[i]?) hgist
    simpa only [Message.getElem?_gist hf hs, Message.getElem?_gist hf hs', ← hpresence, ← hcases,
      if_pos hshown, Option.some.injEq] using hslots
  · rintro ⟨hpresence, hcases, hslots⟩
    refine Message.ext_slots (L := S.layout type) (by simpa using hpresence)
      (by simpa using hcases) hm.length_gist hn.length_gist fun i f hf => ?_
    obtain ⟨slot, hs⟩ := hm.exists_slot hf
    obtain ⟨slot', hs'⟩ := hn.exists_slot hf
    rw [Message.getElem?_gist hf hs, Message.getElem?_gist hf hs', ← hpresence, ← hcases]
    split
    · rename_i hshown
      rw [hslots i f slot slot' hf hs hs' hshown]
    · rfl

theorem Message.Fits.isStored_of_shown (hm : m.Fits S type)
    (hf : (S.layout type).fields[i]? = some f) (hs : m.slots[i]? = some slot)
    (hshown : f.isRepeated = false → f.isMarked m.presence m.cases = true) :
    slot.isStored = true := by
  cases hrep : f.isRepeated with
  | true => exact isStored_of_collects ((hm.atSlot hf hs).holds.collects hrep)
  | false => exact hm.stored hf hs (hshown hrep)

/-- Messages are equal if the same is present in them. By induction on the first one: what is
compared inside is present, and so allocated. -/
theorem Message.Fits.beq_iff_gist_eq (hm : m.Fits S type) (hn : n.Fits S type) :
    m.beq S (S.layout type) n = true ↔
      m.gist S (S.layout type) = n.gist S (S.layout type) := by
  induction hm generalizing n with
  | @step type m hm ih =>
    rw [Message.beq_iff_slots, hm.gist_eq_iff hn, beqSlots_iff_shown]
    refine and_congr_right fun hpresence => and_congr_right fun hcases => ?_
    refine forall₄_congr fun i f slot slot' => forall₄_congr fun hf hs hs' hshown => ?_
    exact beqSlot_iff (hm.atSlot hf hs) (hn.atSlot hf hs') (hm.isStored_of_shown hf hs hshown)
      (hn.isStored_of_shown hf hs' (hpresence ▸ hcases ▸ hshown))
      fun t ht a ha b hb => ih hf hs t ht a ha ((hn.atSlot hf hs').inner t ht b hb)

/-! ### Views -/

theorem map_eq_of_map_eq {α β γ : Type} {a : α → β} {b : α → γ} {xs ys : List α}
    (h : xs.map a = ys.map a) (hab : ∀ x ∈ xs, ∀ y ∈ ys, a x = a y → b x = b y) :
    xs.map b = ys.map b := by
  induction xs generalizing ys with
  | nil =>
    cases ys with
    | nil => rfl
    | cons y ys => simp at h
  | cons x xs ih =>
    cases ys with
    | nil => simp at h
    | cons y ys =>
      rw [List.map_cons, List.map_cons, List.cons.injEq] at h
      rw [List.map_cons, List.map_cons, hab x List.mem_cons_self y List.mem_cons_self h.1,
        ih h.2 fun x hx y hy => hab x (List.mem_cons_of_mem _ hx) y (List.mem_cons_of_mem _ hy)]

/-- Slots that look the same have the same gist, if the messages in them do. -/
theorem gistSlot_eq_of_viewSlot_eq (h : f.FitsIn S slot) (h' : f.FitsIn S slot')
    (hstored : slot.isStored = true) (hstored' : slot'.isStored = true)
    (hview : viewSlot S f slot = viewSlot S f slot')
    (hinner : ∀ t ∈ f.element.type?, ∀ m ∈ slot.messages, ∀ n ∈ slot'.messages,
      m.view S (S.layout t) = n.view S (S.layout t) →
        m.gist S (S.layout t) = n.gist S (S.layout t)) :
    gistSlot S f slot = gistSlot S f slot' := by
  cases h.pair h' hstored hstored' with
  | scalar | text | blob | scalars | texts | blobs => exact hview
  | @sub t ht m n =>
    have hm : m ∈ (Slot.sub (some m)).messages := List.mem_singleton_self m
    have hn : n ∈ (Slot.sub (some n)).messages := List.mem_singleton_self n
    rw [viewSlot_sub ht, viewSlot_sub ht, Slot.sub.injEq] at hview
    rw [gistSlot_sub ht, gistSlot_sub ht, hinner t ht m hm n hn
      ((h.inner t ht m hm).trim_inj (h'.inner t ht n hn) hview)]
  | @subs t ht c c' =>
    rw [viewSlot_subs ht, viewSlot_subs ht, Slot.subs.injEq, Repeated.ofList_inj] at hview
    rw [gistSlot_subs ht, gistSlot_subs ht, map_eq_of_map_eq hview fun m hm n hn =>
      hinner t ht m (List.mem_append_left _ hm) n (List.mem_append_left _ hn)]

/-- Messages that look the same have the same gist. -/
theorem Message.Fits.gist_eq_of_view_eq (hm : m.Fits S type) (hn : n.Fits S type)
    (hview : m.view S (S.layout type) = n.view S (S.layout type)) :
    m.gist S (S.layout type) = n.gist S (S.layout type) := by
  induction hm generalizing n with
  | @step type m hm ih =>
    have hpresence : m.presence = n.presence := by simpa using congrArg Message.presence hview
    have hcases : m.cases = n.cases := by simpa using congrArg Message.cases hview
    refine (hm.gist_eq_iff hn).2 ⟨hpresence, hcases, fun i f slot slot' hf hs hs' hshown => ?_⟩
    refine gistSlot_eq_of_viewSlot_eq (hm.atSlot hf hs) (hn.atSlot hf hs')
      (hm.isStored_of_shown hf hs hshown)
      (hn.isStored_of_shown hf hs' (hpresence ▸ hcases ▸ hshown)) ?_
      fun t ht a ha b hb => ih hf hs t ht a ha ((hn.atSlot hf hs').inner t ht b hb)
    simpa [Message.getElem?_view hf, hs, hs'] using congrArg (fun v => v.slots[i]?) hview

theorem Message.beq_of_view_eq (hm : m.Fits S type) (hn : n.Fits S type)
    (hview : m.view S (S.layout type) = n.view S (S.layout type)) :
    m.beq S (S.layout type) n = true :=
  (hm.beq_iff_gist_eq hn).2 (hm.gist_eq_of_view_eq hn hview)

/-- What is stored for absent fields does not count. -/
theorem Message.Fits.gist_strip (hm : m.Fits S type) :
    (m.strip S (S.layout type)).gist S (S.layout type) = m.gist S (S.layout type) := by
  induction hm with
  | @step type m hm ih =>
    refine (hm.strip.gist_eq_iff hm).2 ⟨presence_strip, cases_strip,
      fun i f slot slot' hf hs hs' hshown => ?_⟩
    have hslot : stripSlot S f slot' = slot := by
      rw [presence_strip, cases_strip] at hshown
      rw [slots_strip, getElem?_stripSlots hf hs', Option.some.injEq] at hs
      rw [← hs, if_neg]
      cases hrep : f.isRepeated with
      | true => simp
      | false => simp [Field.isPresent_of_singular hrep, hshown hrep]
    rw [← hslot]
    cases (hm.atSlot hf hs').shape with
    | @sub t value _ ht =>
      cases value with
      | none => rfl
      | some m =>
        rw [stripSlot_sub ht, Option.map_some, gistSlot_sub ht, gistSlot_sub ht,
          ih hf hs' t ht m (List.mem_singleton_self m)]
    | @subs t c _ ht =>
      rw [stripSlot_subs ht, gistSlot_subs ht, gistSlot_subs ht, List.map_map]
      exact congrArg (fun ms => Slot.subs (.ofList ms)) (List.map_congr_left fun m hm =>
        ih hf hs' t ht m (List.mem_append_left _ hm))
    | scalar | text | blob | scalars | texts | blobs => rfl

theorem Message.Fits.beq_of_view_eq_gist (hm : m.Fits S type) (hn : n.Fits S type)
    (hview : n.view S (S.layout type) = m.gist S (S.layout type)) :
    m.beq S (S.layout type) n = true := by
  rw [hm.beq_iff_gist_eq hn, ← hm.gist_strip]
  exact hm.strip.gist_eq_of_view_eq hn hview.symm

end Equality

/-! ### Encoding -/

section Encoding

variable {S : Schema} {order : FieldOrder} {type : TypeId} {m n : Message} {f : Field}
  {slot slot' : Slot Message}

theorem isEmpty_gistSlot (h : f.FitsIn S slot) : (gistSlot S f slot).isEmpty = slot.isEmpty := by
  rw [gistSlot, isEmpty_viewSlot (h.stripSlot fun t ht m hm => (h.inner t ht m hm).strip),
    isEmpty_stripSlot]

/-- Slots with the same gist are written alike, if the messages in them are. -/
theorem encodeSlot_eq_of_gistSlot_eq (h : f.FitsIn S slot) (h' : f.FitsIn S slot')
    (hstored : slot.isStored = true) (hstored' : slot'.isStored = true)
    (hgist : gistSlot S f slot = gistSlot S f slot')
    (hinner : ∀ t ∈ f.element.type?, ∀ m ∈ slot.messages, ∀ n ∈ slot'.messages,
      m.gist S (S.layout t) = n.gist S (S.layout t) →
        m.encode S order (S.layout t) = n.encode S order (S.layout t)) :
    encodeSlot S order f slot = encodeSlot S order f slot' := by
  have hnested : ∀ t ∈ f.element.type?, ∀ m ∈ slot.messages, ∀ n ∈ slot'.messages,
      m.gist S (S.layout t) = n.gist S (S.layout t) →
        writeNested f (m.size S (S.layout t)) (m.encode S order (S.layout t)) =
          writeNested f (n.size S (S.layout t)) (n.encode S order (S.layout t)) := by
    intro t ht m hm n hn hgist
    rw [← Message.length_encode S order, ← Message.length_encode S order,
      hinner t ht m hm n hn hgist]
  have hencode := congrArg (encodeSlot S order f) hgist
  cases h.pair h' hstored hstored' with
  | scalar | text | blob | scalars | texts | blobs => exact hencode
  | @sub t ht m n =>
    have hm : m ∈ (Slot.sub (some m)).messages := List.mem_singleton_self m
    have hn : n ∈ (Slot.sub (some n)).messages := List.mem_singleton_self n
    rw [gistSlot_sub ht, gistSlot_sub ht, Slot.sub.injEq] at hgist
    rw [encodeSlot_sub ht, encodeSlot_sub ht]
    exact hnested t ht m hm n hn ((h.inner t ht m hm).gist_eq_of_trim_eq (h'.inner t ht n hn) hgist)
  | @subs t ht c c' =>
    rw [gistSlot_subs ht, gistSlot_subs ht, Slot.subs.injEq, Repeated.ofList_inj] at hgist
    rw [encodeSlot_subs ht, encodeSlot_subs ht, List.flatMap_def, List.flatMap_def,
      map_eq_of_map_eq hgist fun m hm n hn =>
        hnested t ht m (List.mem_append_left _ hm) n (List.mem_append_left _ hn)]

/-- Messages with the same gist are written alike. -/
theorem Message.Fits.encode_eq_of_gist_eq (hm : m.Fits S type) (hn : n.Fits S type)
    (hgist : m.gist S (S.layout type) = n.gist S (S.layout type)) :
    m.encode S order (S.layout type) = n.encode S order (S.layout type) := by
  induction hm generalizing n with
  | @step type m hm ih =>
    obtain ⟨hpresence, hcases, hslots⟩ := (hm.gist_eq_iff hn).1 hgist
    refine Message.encode_congr hpresence hcases (hm.length.trans hn.length.symm)
      fun i f slot slot' hf hs hs' => ?_
    have hsame : (f.isRepeated = false → f.isMarked m.presence m.cases = true) →
        slot.isEmpty = slot'.isEmpty ∧ encodeSlot S order f slot = encodeSlot S order f slot' := by
      intro hshown
      have hslot := hslots i f slot slot' hf hs hs' hshown
      refine ⟨?_, encodeSlot_eq_of_gistSlot_eq (hm.atSlot hf hs) (hn.atSlot hf hs')
        (hm.isStored_of_shown hf hs hshown)
        (hn.isStored_of_shown hf hs' (hpresence ▸ hcases ▸ hshown)) hslot
        fun t ht a ha b hb => ih hf hs t ht a ha ((hn.atSlot hf hs').inner t ht b hb)⟩
      rw [← isEmpty_gistSlot (hm.atSlot hf hs), hslot, isEmpty_gistSlot (hn.atSlot hf hs')]
    unfold Field.written
    cases hrep : f.isRepeated with
    | true =>
      obtain ⟨hempty, hencode⟩ := hsame (by simp [hrep])
      rw [Field.isPresent_of_repeated hrep, Field.isPresent_of_repeated hrep, hempty, hencode]
    | false =>
      rw [Field.isPresent_of_singular hrep, Field.isPresent_of_singular hrep]
      cases hmarked : f.isMarked m.presence m.cases with
      | false => rfl
      | true => rw [(hsame fun _ => hmarked).2]

theorem Message.Fits.encode_eq_of_view_eq (hm : m.Fits S type) (hn : n.Fits S type)
    (hview : m.view S (S.layout type) = n.view S (S.layout type)) :
    m.encode S order (S.layout type) = n.encode S order (S.layout type) :=
  hm.encode_eq_of_gist_eq hn (hm.gist_eq_of_view_eq hn hview)

end Encoding

end ProtoWire
