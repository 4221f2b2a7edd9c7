import ProtoWire.Proofs.Message.Commute
import ProtoWire.Proofs.Message.Standalone
import ProtoWire.Proofs.Message.Unknown

/-!
# What a change leaves alone

Two fields share neither a slot nor a mark, unless they are members of one oneof.
-/

namespace ProtoWire

variable {L : Layout} {i oneof : Nat} {bit : PresenceBit} {m' : Message}

/-- The second message has the fields at some places as the first one has them: the slot, the bit,
and the case of the oneof. -/
structure Message.Spares (L : Layout) (K : Nat → Prop) (m m' : Message) : Prop where
  slots : ∀ i, K i → m'.slots[i]? = m.slots[i]?
  bits : ∀ i g, L.fields[i]? = some g → K i → ∀ bit ∈ g.bit?,
    m'.presence.test bit = m.presence.test bit
  cases : ∀ i g, L.fields[i]? = some g → K i → ∀ oneof ∈ g.oneof?,
    m'.cases.getD oneof 0 = m.cases.getD oneof 0

/-! ### Marks of other fields -/

section Marks

variable {m : Message} {j : Nat} {f g : Field}

theorem Layout.Apart.bit_ne (h : L.Apart i j) (hL : L.Valid) (hf : L.fields[i]? = some f)
    (hg : L.fields[j]? = some g) (hbit : f.bit? = some bit) : g.bit? ≠ some bit := by
  intro hbit'
  rcases hL.bit_eq f (List.mem_of_getElem? hf) g (List.mem_of_getElem? hg) bit hbit hbit' with
    hnumber | ⟨hshare, hsome⟩
  · exact h.1 (hL.eq_of_number_eq hf hg hnumber)
  · exact (h.2 f g hf hg).elim hsome fun hne => hne hshare

theorem Layout.Apart.oneof_ne (h : L.Apart i j) (hf : L.fields[i]? = some f)
    (hg : L.fields[j]? = some g) (honeof : f.oneof? = some oneof) : g.oneof? ≠ some oneof := by
  intro hshare
  rcases h.2 f g hf hg with hnone | hne
  · rw [hnone] at honeof
    cases honeof
  · exact hne (honeof.trans hshare.symm)

theorem Presence.test_insert_of_ne {p : Presence} {bit' : PresenceBit} (hne : bit ≠ bit') :
    (p.insert bit).test bit' = p.test bit' := by
  by_cases hword : bit.word < p.length
  · rw [test_insert hword, decide_eq_false hne, Bool.false_or]
  · rw [Presence.insert, List.modify_eq_self (Nat.le_of_not_lt hword)]

theorem Message.test_markPresent_of_ne (hne : f.bit? ≠ some bit) :
    (m.markPresent f).presence.test bit = m.presence.test bit := by
  unfold Field.bit? at hne
  unfold markPresent
  cases hplace : f.placement with
  | singular b =>
    rw [hplace] at hne
    exact Presence.test_insert_of_ne fun heq => hne (congrArg some heq)
  | repeated packed => rfl
  | member oneof b =>
    rw [hplace] at hne
    exact Presence.test_insert_of_ne fun heq => hne (congrArg some heq)

theorem Message.getD_cases_markPresent_of_ne (hne : f.oneof? ≠ some oneof) :
    (m.markPresent f).cases.getD oneof 0 = m.cases.getD oneof 0 := by
  unfold Field.oneof? at hne
  unfold markPresent
  cases hplace : f.placement with
  | singular b | repeated packed => rfl
  | member index b =>
    rw [hplace] at hne
    have hindex : index ≠ oneof := fun heq => hne (congrArg some heq)
    simp only [List.getD_eq_getElem?_getD, List.getElem?_set_ne hindex]

end Marks

/-! ### Parts of changes -/

namespace Message.Spares

variable {S : Schema} {K : Nat → Prop} {m : Message} {f : Field}

theorem refl (m : Message) : m.Spares L K m :=
  ⟨fun _ _ => rfl, fun _ _ _ _ _ _ => rfl, fun _ _ _ _ _ _ => rfl⟩

variable (h : m.Spares L K m')

include h

theorem has_eq (hf : L.fields[i]? = some f) (hi : K i) : m'.has f i = m.has f i := by
  unfold Message.has
  rw [h.slots i hi]
  cases m.slots[i]? with
  | none => rfl
  | some slot =>
    unfold Field.isPresent
    cases hplace : f.placement with
    | singular bit => exact h.bits i f hf hi bit (by simp [Field.bit?, hplace])
    | repeated packed => rfl
    | member oneof bit => simp only [h.cases i f hf hi oneof (by simp [Field.oneof?, hplace])]

theorem withSlots (hi : ¬ K i) {slots : List (Slot Message)}
    (hslots : ∀ j, i ≠ j → slots[j]? = m'.slots[j]?) :
    m.Spares L K { m' with slots := slots } where
  slots := by
    intro j hj
    have hne : i ≠ j := by
      rintro rfl
      exact hi hj
    exact (hslots j hne).trans (h.slots j hj)
  bits := h.bits
  cases := h.cases

theorem setSlot (hi : ¬ K i) (slot : Slot Message) : m.Spares L K (m'.setSlot i slot) :=
  h.withSlots hi fun _ hne => List.getElem?_set_ne hne

theorem modifySlot (hi : ¬ K i) (change : Slot Message → Slot Message) :
    m.Spares L K { m' with slots := m'.slots.modify i change } := by
  refine h.withSlots hi fun j hne => ?_
  simp [hne]

theorem refill {m'' : Message} (hi : ¬ K i) (hrefills : m'.RefillsAt i m'') :
    m.Spares L K m'' := by
  rcases hrefills with rfl | ⟨slot, slot', -, -, rfl⟩
  · exact h
  · exact h.setSlot hi slot'

variable (hL : L.Valid)

include hL

theorem clearOneof {oneof : Nat}
    (hout : ∀ j g, L.fields[j]? = some g → K j → g.oneof? ≠ some oneof) :
    m.Spares L K (m'.clearOneof S L oneof) where
  slots := by
    intro j hj
    rw [Fits.slots_clearOneof]
    cases hactive : m'.activeMember? L oneof with
    | none => exact h.slots j hj
    | some p =>
      have hp := List.mem_zipIdx_iff_getElem?.1 (List.mem_of_find?_eq_some hactive)
      have hmember := List.find?_some hactive
      rw [Bool.and_eq_true, Field.isMemberOf_eq_true] at hmember
      exact (h.modifySlot (fun hi => hout p.2 p.1 hp hi hmember.1) _).slots j hj
  bits := by
    intro j g hg hj bit hbit
    rw [Coherent.test_clearOneof hL (List.mem_of_getElem? hg) (hout j g hg hj) hbit]
    exact h.bits j g hg hj bit hbit
  cases := by
    intro j g hg hj index hindex
    have hne : oneof ≠ index := by
      rintro rfl
      exact hout j g hg hj hindex
    rw [getD_cases_clearOneof, if_neg hne]
    exact h.cases j g hg hj index hindex

variable (hf : L.fields[i]? = some f) (hapart : ∀ j, K j → L.Apart i j)

include hf hapart

theorem markPresent : m.Spares L K (m'.markPresent f) where
  slots := by
    rw [slots_markPresent]
    exact h.slots
  bits := by
    intro j g hg hj bit hbit
    have hne : f.bit? ≠ some bit := fun hfbit => (hapart j hj).bit_ne hL hf hg hfbit hbit
    rw [test_markPresent_of_ne hne]
    exact h.bits j g hg hj bit hbit
  cases := by
    intro j g hg hj oneof honeof
    have hne : f.oneof? ≠ some oneof := fun hfo => (hapart j hj).oneof_ne hf hg hfo honeof
    rw [getD_cases_markPresent_of_ne hne]
    exact h.cases j g hg hj oneof honeof

theorem clearOneof_of_apart (hplace : f.placement = .member oneof bit) :
    m.Spares L K (m'.clearOneof S L oneof) := by
  have honeof : f.oneof? = some oneof := by simp [Field.oneof?, hplace]
  exact h.clearOneof hL fun j g hg hj => (hapart j hj).oneof_ne hf hg honeof

theorem prepare : m.Spares L K (m'.prepare S L f) := by
  unfold Message.prepare
  split
  · rename_i oneof bit hplace
    split
    · exact h
    · exact h.clearOneof_of_apart hL hf hapart hplace
  · exact h
  · exact h

theorem clearField : m.Spares L K (m'.clearField S L f i) := by
  have hi : ¬ K i := fun hi => (hapart i hi).1 rfl
  unfold Message.clearField
  split
  · rename_i bit hplace
    have hbit : f.bit? = some bit := by simp [Field.bit?, hplace]
    have herase : m.Spares L K { m' with presence := m'.presence.erase bit } := by
      refine ⟨h.slots, fun j g hg hj bit' hbit' => ?_, h.cases⟩
      have hne : bit ≠ bit' := by
        rintro rfl
        exact (hapart j hj).bit_ne hL hf hg hbit hbit'
      rw [Presence.test_erase, decide_eq_true hne, Bool.true_and]
      exact h.bits j g hg hj bit' hbit'
    exact herase.modifySlot hi _
  · exact h.modifySlot hi _
  · rename_i oneof bit hplace
    split
    · exact h.clearOneof_of_apart hL hf hapart hplace
    · exact h

end Message.Spares

/-! ### Merging -/

/-- Tags of fields at places with `P`, and tags without a field. -/
def Layout.Routes (L : Layout) (P : Nat → Prop) (tag : UInt32) : Prop :=
  ∀ p form, L.route tag = some (p, form) → P p.2

section Merging

variable {S : Schema} {nested : Nested} {K : Nat → Prop} {m : Message}

theorem spares_atSlot {α : Type} (hi : ¬ K i) (x : Merge (Slot Message) α) :
    KeepsTarget (m.Spares L K) (atSlot i x) := by
  rintro ⟨m', r⟩ h
  cases hslot : m'.slots[i]? with
  | none =>
    have hfail : atSlot i x ⟨m', r⟩ = .error .indexOutOfBounds ⟨m', r⟩ := by
      unfold atSlot
      rw [bind_of_ok (Merge.target_apply m' r), hslot]
      rfl
    rw [hfail]
    exact h
  | some slot =>
    rw [atSlot_apply hslot]
    have hstore : KeepsTarget (m.Spares L K)
        (Merge.within slot (fun slot m => m.setSlot i slot) x) :=
      Leaves.within (keeps_true x) trivial fun slot m' h _ => h.setSlot hi slot
    exact hstore ⟨m', r⟩ h

variable (hS : S.Valid) {type : TypeId}

include hS

theorem PlacedField.spares_decodeSingular {p : PlacedField}
    (hp : (S.layout type).fields[p.2]? = some p.1)
    (hapart : ∀ j, K j → (S.layout type).Apart p.2 j) :
    KeepsTarget (m.Spares (S.layout type) K) (p.decodeSingular S nested (S.layout type)) := by
  have hi : ¬ K p.2 := fun hi => (hapart p.2 hi).1 rfl
  have hprepare : ∀ m', m.Spares (S.layout type) K m' →
      m.Spares (S.layout type) K (m'.prepare S (S.layout type) p.1) := fun m' h =>
    h.prepare (hS type) hp hapart
  have hmark : ∀ m', m.Spares (S.layout type) K m' →
      m.Spares (S.layout type) K (m'.markPresent p.1) := fun m' h =>
    h.markPresent (hS type) hp hapart
  unfold PlacedField.decodeSingular
  split
  · refine (keeps_read _).bind fun value => ?_
    split
    · exact .update fun m' h => hmark _ ((hprepare m' h).setSlot hi _)
    · exact .pure fun _ h => h
  · refine Leaves.bind (.update hprepare) fun _ => ?_
    exact (spares_atSlot hi _).bind fun _ => .update hmark

/-- A record leaves alone what is apart from its field, whatever the outcome. -/
theorem spares_mergePayload {tag : UInt32}
    (hroute : (S.layout type).Routes (fun i => ∀ j, K j → (S.layout type).Apart i j) tag) :
    KeepsTarget (m.Spares (S.layout type) K) (mergePayload S nested (S.layout type) tag) := by
  have hi : ∀ p form, (S.layout type).route tag = some (p, form) → ¬ K p.2 := fun p form h hi =>
    (hroute p form h p.2 hi).1 rfl
  unfold mergePayload
  split
  · rename_i p h
    exact (p.spares_decodeSingular hS (Layout.route_eq_some h).1 (hroute p _ h)).bind fun _ =>
      .pure fun _ h => h
  · rename_i p h
    exact (spares_atSlot (hi p _ h) _).bind fun _ => .pure fun _ h => h
  · rename_i p h
    exact (spares_atSlot (hi p _ h) _).bind fun _ => .pure fun _ h => h
  · split
    · exact .pure fun _ h => h
    · exact keeps_read _

variable (order : FieldOrder) {P : Nat → Prop}
  (hapart : ∀ i, P i → ∀ j, K j → (S.layout type).Apart i j)

include hapart

/-- By induction on the records: behind one that was merged stands the next one that skipping finds,
and so one of the fields with `P` again. -/
theorem spares_mergeRecords (within fuel : Nat) (tag : UInt32) :
    Ensures
      (fun s => s.target.Fits S type ∧ m.Spares (S.layout type) K s.target ∧
        ∃ r, readTag r = .ok tag s.reader ∧ r.Meets ((S.layout type).Routes P))
      (mergeRecords S (mergeWithin S order within) (S.layout type) fuel tag)
      (fun _ s => m.Spares (S.layout type) K s.target)
      (fun s => m.Spares (S.layout type) K s.target) := by
  induction fuel generalizing tag with
  | zero => exact fun s h => h.2.1
  | succ fuel ih =>
    rintro ⟨m', t⟩ ⟨hfits, hspares, r, htag, hmeets⟩
    have hroute : (S.layout type).Routes (fun i => ∀ j, K j → (S.layout type).Apart i j) tag :=
      fun p form h => hapart p.2 (hmeets.head htag p form h)
    have hspares_payload : KeepsTarget (m.Spares (S.layout type) K)
        (mergePayload S (mergeWithin S order within) (S.layout type) tag) :=
      spares_mergePayload hS hroute
    have hspared := hspares_payload ⟨m', t⟩ hspares
    have hkept := keeps_mergePayload hS (keeps_mergeWithin hS order within) tag ⟨m', t⟩ hfits
    unfold mergeRecords
    cases hpayload : mergePayload S (mergeWithin S order within) (S.layout type) tag ⟨m', t⟩ with
    | error e s =>
      rw [hpayload] at hspared
      rw [bind_of_error hpayload]
      exact hspared
    | ok more s =>
      rw [hpayload] at hspared hkept
      rw [bind_of_ok hpayload]
      cases more with
      | false => exact hspared
      | true =>
        obtain ⟨us, hus, -⟩ := mergePayload_sound hS (follows_mergeWithin hS order within) hfits
          (keeps_mergeWithin hS order within) hpayload
        have hne : tag ≠ 0 := by
          rintro rfl
          rw [readPayload_zero (hS type)] at hus
          cases hus
        obtain ⟨u, hskip, halike, -⟩ :=
          skipField_readPayload (skippable_readWithin hS within) (hS type) hne hus
        cases hnext : readTag s.reader with
        | error e t' =>
          simp only [if_true]
          rw [bind_of_error (Merge.read_of_error hnext)]
          exact hspared
        | ok next t' =>
          simp only [if_true]
          rw [bind_of_ok (Merge.read_of_ok hnext)]
          exact ih next ⟨s.target, t'⟩
            ⟨hkept, hspared, u, halike.readTag hnext, hmeets.tail htag hne hskip⟩

theorem spares_mergeMessage (h : m.Spares (S.layout type) K m') (hfits : m'.Fits S type)
    {r : Reader} (hmeets : r.Meets ((S.layout type).Routes P)) :
    Ensures (· = ⟨m', r⟩) (mergeMessage S order type)
      (fun _ s => m.Spares (S.layout type) K s.target)
      (fun s => m.Spares (S.layout type) K s.target) := by
  rintro _ rfl
  rw [mergeMessage_apply fun t => (hS t).routed]
  cases htag : readTag r with
  | error e t =>
    rw [bind_of_error (Merge.read_of_error htag)]
    exact h
  | ok tag t =>
    rw [bind_of_ok (Merge.read_of_ok htag)]
    exact spares_mergeRecords hS order hapart _ _ tag ⟨m', t⟩ ⟨hfits, h, r, htag, hmeets⟩

/-- Merging leaves alone what is apart from the fields of all records, whatever the outcome. -/
theorem Message.Spares.mergeBytes (h : m.Spares (S.layout type) K m') (hfits : m'.Fits S type)
    {limit : UInt32} {data : Bytes} (hmeets : Reader.Meets ((S.layout type).Routes P)
      { Reader.ofBytes data with recursionLimit := limit }) :
    m.Spares (S.layout type) K (m'.mergeBytes S order type limit data).2 := by
  have hrun := Ensures.bind (spares_mergeMessage hS order hapart h hfits hmeets)
    (fun _ => keeps_read (checkLastTag 0)) _ rfl
  rw [Message.mergeBytes_eq_left, Merge.left]
  split
  · rename_i hout
    rwa [hout] at hrun
  · rename_i hout
    rwa [hout] at hrun

end Merging

/-! ### Changes -/

/-- A change of the fields at places with `P` alone; if it is a merge, its records are for them. -/
def Action.Targets (L : Layout) (P : Nat → Prop) : Action → Prop
  | merge limit data =>
    Reader.Meets (L.Routes P) { Reader.ofBytes data with recursionLimit := limit }
  | parse _ | clear | copy => False
  | clearOneof oneof => ∀ i f, L.fields[i]? = some f → f.oneof? = some oneof → P i
  | clearField i | store i _ | extend i _ | within i _ | append i _ | appendDefault i
  | atElement i _ _ | scalars i _ _ | texts i _ | blobs i _ | subs i _ => P i

/-- A change leaves alone what is apart from the fields it is about, whatever its outcome. -/
theorem Message.Spares.run {S : Schema} (hS : S.Valid) (order : FieldOrder) {type : TypeId}
    {K P : Nat → Prop} (hapart : ∀ i, P i → ∀ j, K j → (S.layout type).Apart i j) {m : Message}
    {action : Action} (h : m.Spares (S.layout type) K m') (hfits : m'.Fits S type)
    (htargets : action.Targets (S.layout type) P) :
    m.Spares (S.layout type) K (action.run S order type m').2 := by
  have hi : ∀ {i : Nat}, P i → ¬ K i := fun hP hK => (hapart _ hP _ hK).1 rfl
  cases action with
  | merge limit data => exact h.mergeBytes hS order hapart hfits htargets
  | parse data | clear | copy => exact htargets.elim
  | clearField i =>
    unfold Action.run
    cases hf : (S.layout type).fields[i]? with
    | none => exact h
    | some f => exact h.clearField (hS type) hf (hapart i htargets)
  | clearOneof oneof =>
    unfold Action.run
    exact h.clearOneof (hS type) fun j g hg hj honeof => hi (htargets j g hg honeof) hj
  | store | extend | within =>
    refine Action.of_singular (P := m.Spares (S.layout type) K) hS hfits rfl h fun f hf slot => ?_
    have hprepared := h.prepare (S := S) (hS type) hf (hapart _ htargets)
    exact (hprepared.setSlot (hi htargets) slot).markPresent (hS type) hf (hapart _ htargets)
  | append | appendDefault | atElement | scalars | texts | blobs | subs =>
    exact h.refill (hi htargets) (Action.refillsAt_run rfl)

end ProtoWire
