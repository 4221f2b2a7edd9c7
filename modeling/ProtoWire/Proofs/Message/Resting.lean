import ProtoWire.Proofs.Message.Rebuild
import ProtoWire.Proofs.Message.Recycling

/-!
# What is stored for unset fields

Presence is kept apart from storage. A value is stored before its field is marked, and a oneof gives
up the value of a member when it turns to another one. Here is what follows for the slots of fields
that are not marked.
-/

namespace ProtoWire

variable {L : Layout} {f : Field} {m : Message} {i : Nat} {type : TypeId}

/-! ### Definitions -/

/-- The slots of the singular fields that are not marked have a property. -/
def Message.Rests (L : Layout) (rest : Nat → Field → Slot Message → Prop) (m : Message) : Prop :=
  ∀ (i : Nat) (f : Field) (slot : Slot Message), L.fields[i]? = some f → m.slots[i]? = some slot →
    f.isRepeated = false → f.isMarked m.presence m.cases = false → rest i f slot

/-- Slots at their defaults have the property, those that were cleared, and copies. -/
structure Restful (S : Schema) (rest : Nat → Field → Slot Message → Prop) : Prop where
  blank : ∀ (i : Nat) (f : Field), rest i f f.blankSlot
  clear : ∀ (i : Nat) (f : Field) (slot : Slot Message), f.Fits (fun t m => m.Fits S t) slot →
    f.isRepeated = false → rest i f (clearSlot S f slot)
  copy : ∀ (i : Nat) (f : Field) (slot : Slot Message), f.Fits (fun t m => m.Fits S t) slot →
    f.isRepeated = false → rest i f slot → rest i f (copySlot slot)

/-- No other member of the field's oneof is marked. -/
def Message.Prepared (L : Layout) (f : Field) (m : Message) : Prop :=
  ∀ g ∈ L.fields, f.number ≠ g.number → f.oneof? ≠ none → f.oneof? = g.oneof? →
    g.isMarked m.presence m.cases = false

/-- What a read that fails may leave of a value: a text that was emptied, or any message. -/
def Field.Disturbs (f : Field) (slot slot' : Slot Message) : Prop :=
  slot' = slot ∨ (∃ default, f.element = .text default ∧ slot' = .text "") ∨
    f.element.type? ≠ none

/-- A message that fits, with unset fields at rest. -/
abbrev Message.AtRest (S : Schema) (type : TypeId) (rest : Nat → Field → Slot Message → Prop)
    (m : Message) : Prop :=
  m.Fits S type ∧ m.Rests (S.layout type) rest

/-- The unset fields are at rest, but those at some places may be disturbed. -/
def Message.RestsBut (L : Layout) (rest : Nat → Field → Slot Message → Prop) (spot : Nat → Prop)
    (m : Message) : Prop :=
  m.Rests L fun i f slot =>
    rest i f slot ∨ spot i ∧ ∃ slot', rest i f slot' ∧ f.Disturbs slot' slot

/-- A tag leads to the field at a place. -/
def Layout.Leads (L : Layout) (tag : UInt32) (i : Nat) : Prop :=
  ∃ p form, L.route tag = some (p, form) ∧ p.2 = i

/-- Merging from a tag on stops inside a record of the field at a place. -/
inductive StopsAt (S : Schema) (nested : Nested) (L : Layout) (i : Nat) :
    UInt32 → Merging Message → Prop where
  | here {tag : UInt32} {s t : Merging Message} {e : Fault} (leads : L.Leads tag i)
    (payload : mergePayload S nested L tag s = .error e t) : StopsAt S nested L i tag s
  | later {tag next : UInt32} {s t u : Merging Message}
    (payload : mergePayload S nested L tag s = .ok true t)
    (read : Merge.read readTag t = .ok next u) (stops : StopsAt S nested L i next u) :
    StopsAt S nested L i tag s

/-- Merging bytes into a message stops inside a record of the field at a place. -/
def Message.StopsAt (S : Schema) (order : FieldOrder) (type : TypeId) (limit : UInt32)
    (data : Bytes) (i : Nat) (m : Message) : Prop :=
  ∃ tag s, Merge.read readTag ⟨m, { Reader.ofBytes data with recursionLimit := limit }⟩ =
      .ok tag s ∧
    ProtoWire.StopsAt S (mergeWithin S order data.length) (S.layout type) i tag s

/-- There is one field at most that merging stops in. -/
theorem StopsAt.unique {S : Schema} {nested : Nested} {j : Nat} {tag : UInt32} {s : Merging Message}
    (hi : StopsAt S nested L i tag s) (hj : StopsAt S nested L j tag s) : i = j := by
  induction hi with
  | here leads payload =>
    cases hj with
    | here leads' =>
      obtain ⟨p, _, hroute, rfl⟩ := leads
      obtain ⟨_, _, hroute', rfl⟩ := leads'
      cases hroute.symm.trans hroute'
      rfl
    | later payload' => cases payload.symm.trans payload'
  | later payload read _ ih =>
    cases hj with
    | here _ payload' => cases payload.symm.trans payload'
    | later payload' read' stops =>
      cases payload.symm.trans payload'
      cases read.symm.trans read'
      exact ih stops

/-! ### Operations -/

/-- The bit of a field outside of oneofs marks that field alone. -/
theorem Field.isMarked_erase (hL : L.Valid) {g : Field} (hf : f ∈ L.fields) (hg : g ∈ L.fields)
    {bit : PresenceBit} (hplace : f.placement = .singular bit) (hne : f.number ≠ g.number)
    (presence : Presence) (cases : List UInt32) :
    g.isMarked (presence.erase bit) cases = g.isMarked presence cases := by
  have hbit : f.bit? = some bit := by simp [Field.bit?, hplace]
  have hnone : f.oneof? = none := by simp [Field.oneof?, hplace]
  cases honeof : g.oneof? with
  | some oneof => rw [Field.isMarked_member honeof, Field.isMarked_member honeof]
  | none =>
    cases hgbit : g.bit? with
    | none => rw [Field.isMarked_repeated hgbit, Field.isMarked_repeated hgbit]
    | some bit' =>
      have hother : bit ≠ bit' := by
        rintro rfl
        rcases hL.bit_eq f hf g hg bit hbit hgbit with hnumber | ⟨-, hsome⟩
        · exact hne hnumber
        · exact hsome hnone
      rw [Field.isMarked_singular honeof hgbit, Field.isMarked_singular honeof hgbit,
        Presence.test_erase, decide_eq_true hother, Bool.true_and]

theorem Message.activeMember?_of_isMarked (hL : L.Valid) {oneof : Nat} (hf : L.fields[i]? = some f)
    (honeof : f.oneof? = some oneof) (hmarked : f.isMarked m.presence m.cases = true) :
    m.activeMember? L oneof = some (f, i) := by
  have hcase : f.number = m.cases.getD oneof 0 := by
    rw [Field.isMarked_member honeof, beq_iff_eq] at hmarked
    exact hmarked.symm
  cases hactive : m.activeMember? L oneof with
  | none =>
    have hother := List.find?_eq_none.1 hactive (f, i) (List.mem_zipIdx_iff_getElem?.2 hf)
    simp only [Field.isMemberOf_eq_true.2 honeof, hcase, beq_self_eq_true] at hother
    exact absurd rfl hother
  | some p =>
    have hp := List.mem_zipIdx_iff_getElem?.1 (List.mem_of_find?_eq_some hactive)
    have hmember := List.find?_some hactive
    simp only [Bool.and_eq_true, beq_iff_eq] at hmember
    have hindex := hL.eq_of_number_eq hf hp (hcase.trans hmember.2.symm)
    subst hindex
    exact congrArg some (Prod.ext (Option.some.inj (hp.symm.trans hf)) rfl)

namespace Message.Rests

variable {S : Schema} {slot : Slot Message} {rest rest' : Nat → Field → Slot Message → Prop}

theorem mono (h : m.Rests L rest) (hmono : ∀ i f slot, rest i f slot → rest' i f slot) :
    m.Rests L rest' :=
  fun i f slot hf hslot hrep hmarked => hmono i f slot (h i f slot hf hslot hrep hmarked)

theorem restsBut {spot : Nat → Prop} (h : m.Rests L rest) : m.RestsBut L rest spot :=
  h.mono fun _ _ _ => .inl

theorem blank (hrest : Restful S rest) : (S.blank type).Rests (S.layout type) rest := by
  intro i f slot hf hslot _ _
  obtain rfl : f.blankSlot = slot := by
    simpa [Schema.blank, Layout.blank, hf] using hslot
  exact hrest.blank i f

/-- A slot is stored, for a field that is marked or with the property. -/
theorem setSlot (h : m.Rests L rest) (hmono : ∀ i f slot, rest i f slot → rest' i f slot)
    (hslot : ∀ f, L.fields[i]? = some f → f.isRepeated = false →
      f.isMarked m.presence m.cases = false → rest' i f slot) :
    (m.setSlot i slot).Rests L rest' := by
  intro j g slot' hg hslot' hrep hmarked
  by_cases hij : i = j
  · subst hij
    rw [Message.setSlot, List.getElem?_set_self'] at hslot'
    obtain ⟨_, -, rfl⟩ := Option.map_eq_some_iff.1 hslot'
    exact hslot g hg hrep hmarked
  · rw [Message.setSlot, List.getElem?_set_ne hij] at hslot'
    exact hmono j g slot' (h j g slot' hg hslot' hrep hmarked)

theorem setSlot_repeated (h : m.Rests L rest) (hf : L.fields[i]? = some f)
    (hrep : f.isRepeated = true) : (m.setSlot i slot).Rests L rest := by
  refine h.setSlot (fun _ _ _ hrest => hrest) fun g hg hsingular => ?_
  cases hf.symm.trans hg
  exact nomatch hrep.symm.trans hsingular

variable (hS : S.Valid) (hrest : Restful S rest) (hm : m.Fits S type)
  (h : m.Rests (S.layout type) rest)

include hS hrest hm h

omit hS in
theorem resetSlot (hf : (S.layout type).fields[i]? = some f) :
    (m.resetSlot S f i).Rests (S.layout type) rest := by
  obtain ⟨slot, hslot⟩ := hm.exists_slot hf
  rw [Fits.resetSlot_eq hslot]
  refine h.setSlot (fun _ _ _ hrest => hrest) fun g hg hrep _ => ?_
  cases hf.symm.trans hg
  exact hrest.clear i f slot (hm.atSlot hf hslot) hrep

theorem clearOneof (oneof : Nat) :
    (m.clearOneof S (S.layout type) oneof).Rests (S.layout type) rest := by
  intro i g slot hg hslot hrep hunmarked
  have hmem := List.mem_of_getElem? hg
  rw [Coherent.isMarked_clearOneof (hS type) hmem, Bool.and_eq_false_iff,
    decide_eq_false_iff_not, not_not] at hunmarked
  rw [Fits.slots_clearOneof] at hslot
  cases hbefore : g.isMarked m.presence m.cases with
  | true =>
    have honeof := hunmarked.resolve_right (by simp [hbefore])
    obtain ⟨slot', hslot'⟩ := hm.exists_slot hg
    rw [Message.activeMember?_of_isMarked (hS type) hg honeof hbefore] at hslot
    simp only [Fits.resetSlot_eq hslot', getElem?_setSlot hslot', Option.some.injEq] at hslot
    exact hslot ▸ hrest.clear i g slot' (hm.atSlot hg hslot') hrep
  | false =>
    cases hactive : m.activeMember? (S.layout type) oneof with
    | none =>
      rw [hactive] at hslot
      exact h i g slot hg hslot hrep hbefore
    | some p =>
      have hp := List.mem_zipIdx_iff_getElem?.1 (List.mem_of_find?_eq_some hactive)
      rw [hactive] at hslot
      exact h.resetSlot hrest hm hp i g slot hg hslot hrep hbefore

theorem prepare (f : Field) : (m.prepare S (S.layout type) f).Rests (S.layout type) rest := by
  unfold Message.prepare
  split
  · split
    · exact h
    · exact h.clearOneof hS hrest hm _
  · exact h
  · exact h

theorem clearField (hf : (S.layout type).fields[i]? = some f) :
    (m.clearField S (S.layout type) f i).Rests (S.layout type) rest := by
  unfold Message.clearField
  split
  · rename_i bit hplace
    obtain ⟨slot, hslot⟩ := hm.exists_slot hf
    intro j g slot' hg hslot' hrep hunmarked
    change (m.slots.modify i (clearSlot S f))[j]? = some slot' at hslot'
    change g.isMarked (m.presence.erase bit) m.cases = false at hunmarked
    by_cases hij : i = j
    · subst hij
      cases hf.symm.trans hg
      rw [List.getElem?_modify_eq, hslot] at hslot'
      cases hslot'
      exact hrest.clear i f slot (hm.atSlot hf hslot) hrep
    · have hne : f.number ≠ g.number := fun hnumber => hij ((hS type).eq_of_number_eq hf hg hnumber)
      rw [List.getElem?_modify_ne _ _ hij] at hslot'
      rw [Field.isMarked_erase (hS type) (List.mem_of_getElem? hf) (List.mem_of_getElem? hg) hplace
        hne] at hunmarked
      exact h j g slot' hg hslot' hrep hunmarked
  · exact h.resetSlot hrest hm hf
  · split
    · exact h.clearOneof hS hrest hm _
    · exact h

omit hS h in
theorem clear : (m.clear S (S.layout type)).Rests (S.layout type) rest := by
  intro i f slot hf hslot hrep _
  cases m
  rw [Message.clear, slotWise_clear.getElem?_eq hf] at hslot
  obtain ⟨slot', hslot', rfl⟩ := Option.map_eq_some_iff.1 hslot
  exact hrest.clear i f slot' (hm.atSlot hf hslot') hrep

omit hS in
theorem copy : m.copy.Rests (S.layout type) rest := by
  intro i f slot hf hslot hrep hunmarked
  cases m
  rw [Message.copy, copySlots_eq_map, List.getElem?_map] at hslot
  obtain ⟨slot', hslot', rfl⟩ := Option.map_eq_some_iff.1 hslot
  exact hrest.copy i f slot' (hm.atSlot hf hslot') hrep (h i f slot' hf hslot' hrep hunmarked)

end Message.Rests

section Marks

variable {S : Schema} {slot : Slot Message} {rest : Nat → Field → Slot Message → Prop}

theorem Message.prepared_prepare (hL : L.Valid) (f : Field) :
    (m.prepare S L f).Prepared L f := by
  intro g hg hne hsome hshared
  unfold Message.prepare
  cases hplace : f.placement with
  | singular bit | repeated packed => exact absurd (by simp [Field.oneof?, hplace]) hsome
  | member oneof bit =>
    have honeof : g.oneof? = some oneof := hshared.symm.trans (by simp [Field.oneof?, hplace])
    simp only
    split
    · rename_i hcase
      rw [Field.isMarked_member honeof, hcase]
      exact beq_false_of_ne hne
    · rw [Coherent.isMarked_clearOneof hL hg, honeof]
      simp

/-- A field is marked once its value is stored. Until then its slot may hold anything. -/
theorem Message.Rests.markPresent (hL : L.Valid) (hm : m.Coherent L)
    (hf : L.fields[i]? = some f) (hrep : f.isRepeated = false) (hprepared : m.Prepared L f)
    (h : m.Rests L fun j g slot => rest j g slot ∨ j = i) : (m.markPresent f).Rests L rest := by
  intro j g slot hg hslot hsingular hunmarked
  rw [Message.slots_markPresent] at hslot
  have hfmem := List.mem_of_getElem? hf
  have hgmem := List.mem_of_getElem? hg
  by_cases hnumber : f.number = g.number
  · obtain rfl := hL.field_eq hfmem hgmem hnumber
    obtain ⟨bit, hbit⟩ := Field.exists_bit? hrep
    exact nomatch (hm.isMarked_markPresent_self hL hfmem hbit).symm.trans hunmarked
  · have hbefore : g.isMarked m.presence m.cases = false := by
      rw [hm.isMarked_markPresent hL hfmem hgmem hnumber, Bool.and_eq_false_iff,
        decide_eq_false_iff_not, not_or, not_not] at hunmarked
      rcases hunmarked with ⟨hsome, hshared⟩ | hbefore
      · exact hprepared g hgmem hnumber hsome hshared
      · exact hbefore
    refine (h j g slot hg hslot hsingular hbefore).resolve_right ?_
    rintro rfl
    cases hf.symm.trans hg
    exact hnumber rfl

variable (hS : S.Valid) (hrest : Restful S rest)

include hS hrest

theorem Message.Rests.store (hm : m.Fits S type) (h : m.Rests (S.layout type) rest)
    (hf : (S.layout type).fields[i]? = some f) (slot : Slot Message) :
    (((m.prepare S (S.layout type) f).setSlot i slot).markPresent f).Rests (S.layout type) rest := by
  have hprepare := h.prepare hS hrest hm f
  cases hrep : f.isRepeated with
  | true =>
    rw [Message.markPresent_of_repeated (Field.bit?_of_repeated hrep)]
    exact hprepare.setSlot_repeated hf hrep
  | false =>
    refine Message.Rests.markPresent (hS type) ((hm.prepare hS f).coherent.congr rfl rfl) hf hrep
      (m.prepared_prepare (hS type) f) ?_
    exact hprepare.setSlot (fun _ _ _ => .inl) fun _ _ _ _ => .inr rfl

end Marks

/-! ### Merging -/

theorem Ensures.and {ε σ α : Type} {P P' E E' : σ → Prop} {Q Q' : α → σ → Prop}
    {x : EStateM ε σ α} (h : Ensures P x Q E) (h' : Ensures P' x Q' E') :
    Ensures (fun s => P s ∧ P' s) x (fun a s => Q a s ∧ Q' a s) (fun s => E s ∧ E' s) := by
  intro s hs
  have hx := h s hs.1
  have hx' := h' s hs.2
  cases hout : x s with
  | ok a t | error e t =>
    rw [hout] at hx hx'
    exact ⟨hx, hx'⟩

/-- From one state, with the outcome. -/
theorem Ensures.outcome {ε σ α : Type} {P E : σ → Prop} {Q : α → σ → Prop} {x : EStateM ε σ α}
    {s : σ} (h : Ensures P x Q E) (hs : P s) :
    Ensures (· = s) x (fun a t => x s = .ok a t ∧ Q a t)
      fun t => (∃ e, x s = .error e t) ∧ E t := by
  rintro s rfl
  have hx := h s hs
  cases hout : x s with
  | ok a t =>
    rw [hout] at hx
    exact ⟨rfl, hx⟩
  | error e t =>
    rw [hout] at hx
    exact ⟨⟨e, rfl⟩, hx⟩

theorem ensures_atSlot {α : Type} {P Q E : Message → Prop} {x : Merge (Slot Message) α}
    (h : ∀ m, P m → ∃ slot, m.slots[i]? = some slot ∧
      Ensures (fun s : Merging (Slot Message) => s.target = slot) x
        (fun _ s => Q (m.setSlot i s.target)) (fun s => E (m.setSlot i s.target))) :
    Ensures (fun s : Merging Message => P s.target) (atSlot i x) (fun _ s => Q s.target)
      (fun s => E s.target) := by
  intro s hs
  obtain ⟨slot, hslot, hx⟩ := h s.target hs
  have hout := hx ⟨slot, s.reader⟩ rfl
  rw [atSlot_apply hslot]
  unfold Merge.within
  cases hrun : x ⟨slot, s.reader⟩ with
  | ok a t | error e t =>
    rw [hrun] at hout
    exact hout

section Reading

variable {S : Schema} {nested : Nested} {slot : Slot Message}

theorem ensures_within {τ : Type} {part : τ} {wrap : τ → Slot Message} {x : Merge τ Unit}
    {E : Merging τ → Prop} {F : Slot Message → Prop}
    (hx : Ensures (fun s : Merging τ => s.target = part) x (fun _ _ => True) E)
    (hwrap : ∀ s, E s → F (wrap s.target)) :
    Ensures (fun _ : Merging (Slot Message) => True) (Merge.within part (fun t _ => wrap t) x)
      (fun _ _ => True) (fun s => F s.target) := by
  intro s _
  have hout := hx ⟨part, s.reader⟩ rfl
  unfold Merge.within
  cases hrun : x ⟨part, s.reader⟩ with
  | ok a t => exact trivial
  | error e t =>
    rw [hrun] at hout
    exact hwrap t hout

theorem ensures_readTextInto (value : String) :
    Ensures (fun s : Merging String => s.target = value) readTextInto (fun _ _ => True)
      (fun s => s.target = value ∨ s.target = "") := by
  have hread : ∀ {α : Type} (x : Read α) (text : String), text = value ∨ text = "" →
      Ensures (fun s : Merging String => s.target = text) (Merge.read x)
        (fun _ s => s.target = text) (fun s => s.target = value ∨ s.target = "") :=
    fun x text htext => KeepsOr.read (P := (· = text)) x fun _ h => h ▸ htext
  refine (hread _ value (.inl rfl)).bind fun length => ?_
  refine Ensures.bind (Q := fun _ s => s.target = "") (fun _ _ => by rfl) fun _ => ?_
  split
  · exact (hread _ "" (.inr rfl)).bind fun bytes =>
      (hread _ "" (.inr rfl)).bind fun text _ _ => trivial
  · exact fun _ _ => trivial

/-- A read that fails disturbs a value at most. -/
theorem Field.ensures_readSingular (hslot : f.Holds slot) :
    Ensures (fun s : Merging (Slot Message) => s.target = slot) (f.readSingular S nested)
      (fun _ _ => True) (fun s => f.Disturbs slot s.target) := by
  have hfits : f.Fits (fun _ _ => True) slot := ⟨hslot, fun _ _ _ _ => trivial⟩
  rintro ⟨target, r⟩ (rfl : target = slot)
  unfold Field.readSingular
  rw [bind_of_ok (Merge.target_apply target r)]
  cases hfits.shape with
  | @scalar kind value =>
    have hread : Ensures (fun s : Merging (Slot Message) => s.target = .scalar kind value)
        (do
          let value ← Merge.read (readScalar kind)
          Merge.update fun _ => .scalar kind value)
        (fun _ _ => True) (fun s => f.Disturbs (.scalar kind value) s.target) :=
      Ensures.bind (KeepsOr.read (P := (· = Slot.scalar kind value)) (E := f.Disturbs _) _
        fun _ => .inl)
        fun _ _ _ => trivial
    exact hread ⟨_, r⟩ rfl
  | @text value singular =>
    obtain ⟨default, hdefault⟩ : ∃ default, f.element = .text default := by
      have hstores := hslot.stores singular
      cases helement : f.element <;> rw [helement] at hstores <;> cases hstores
      exact ⟨_, rfl⟩
    have hread : Ensures (fun _ => True)
        (Merge.within value (fun value _ => .text value) readTextInto) (fun _ _ => True)
        (fun s => f.Disturbs (.text value) s.target) := by
      refine ensures_within (ensures_readTextInto value) fun s hs => ?_
      rcases hs with hs | hs
      · exact .inl (congrArg _ hs)
      · exact .inr (.inl ⟨default, hdefault, congrArg _ hs⟩)
    exact hread ⟨_, r⟩ trivial
  | @blob value =>
    have hblob : Ensures (fun s : Merging Bytes => s.target = value) readBlobInto (fun _ _ => True)
        (fun s => s.target = value) :=
      Ensures.bind (KeepsOr.read (P := (· = value)) _ fun _ h => h) fun _ =>
        Ensures.bind (KeepsOr.read (P := (· = value)) _ fun _ h => h) fun _ _ _ => trivial
    have hread : Ensures (fun _ => True)
        (Merge.within value (fun value _ => .blob value) readBlobInto) (fun _ _ => True)
        (fun s => f.Disturbs (.blob value) s.target) :=
      ensures_within hblob fun s hs => .inl (congrArg _ hs)
    exact hread ⟨_, r⟩ trivial
  | @sub type value _ htype =>
    have hread : Ensures (fun _ => True)
        (Merge.within (value.getD (f.element.blank S)) (fun m _ => .sub (some m))
          (f.readNested nested)) (fun _ _ => True) (fun s => f.Disturbs (.sub value) s.target) :=
      ensures_within (Ensures.mono (keeps_true (f.readNested nested)) (fun _ _ => trivial)
        (fun _ _ h => h) fun _ h => h) fun s _ => .inr (.inr (by simp [htype]))
    exact hread ⟨_, r⟩ trivial
  | scalars | texts | blobs | subs => exact trivial

end Reading

section Records

variable {S : Schema} (hS : S.Valid) {nested : Nested}
  (hnested : ∀ type, KeepsTarget (Message.Fits S type) (nested type))
  {rest : Nat → Field → Slot Message → Prop} (hrest : Restful S rest)

include hS hrest in
theorem PlacedField.ensures_decodeSingular {p : PlacedField}
    (hp : (S.layout type).fields[p.2]? = some p.1) (hrep : p.1.isRepeated = false) :
    Ensures (fun s : Merging Message => s.target.AtRest S type rest)
      (p.decodeSingular S nested (S.layout type))
      (fun _ s => s.target.Rests (S.layout type) rest)
      (fun s => s.target.RestsBut (S.layout type) rest (p.2 = ·)) := by
  unfold PlacedField.decodeSingular
  split
  · refine Ensures.bind (KeepsOr.read (P := Message.AtRest S type rest) _ fun _ h => h.2.restsBut)
      fun value => ?_
    split
    · exact fun s hs => hs.2.store hS hrest hs.1 hp _
    · exact fun s hs => hs.2
  · refine Ensures.bind (Q := fun _ s => s.target.AtRest S type rest ∧
      s.target.Prepared (S.layout type) p.1)
      (fun s hs => ⟨⟨hs.1.prepare hS p.1, hs.2.prepare hS hrest hs.1 p.1⟩,
        s.target.prepared_prepare (hS type) p.1⟩) fun _ => ?_
    -- Only the slot of the field is changed, until the field is marked.
    refine Ensures.bind (ensures_atSlot (P := fun m => m.AtRest S type rest ∧
      m.Prepared (S.layout type) p.1)
      (Q := fun m => m.Coherent (S.layout type) ∧ m.Prepared (S.layout type) p.1 ∧
        m.Rests (S.layout type) fun j f slot => rest j f slot ∨ j = p.2)
      (E := Message.RestsBut (S.layout type) rest (p.2 = ·)) fun m hm => ?_)
      fun _ s hs => hs.2.2.markPresent (hS type) hs.1 hp hrep hs.2.1
    obtain ⟨slot, hslot⟩ := hm.1.1.exists_slot hp
    refine ⟨slot, hslot, (p.1.ensures_readSingular (hm.1.1.atSlot hp hslot).holds).mono
      (fun _ h => h) (fun _ s _ => ?_) (fun s hs => ?_)⟩
    · exact ⟨hm.1.1.coherent.congr rfl rfl, hm.2,
        hm.1.2.setSlot (fun _ _ _ => .inl) fun _ _ _ _ => .inr rfl⟩
    · refine hm.1.2.setSlot (fun _ _ _ => .inl) fun g hg hsingular hunmarked => ?_
      cases hp.symm.trans hg
      exact .inr ⟨rfl, slot, hm.1.2 _ _ slot hp hslot hsingular hunmarked, hs⟩

include hS hnested hrest in
theorem ensures_mergePayload (tag : UInt32) :
    KeepsOr (Message.AtRest S type rest)
      (Message.RestsBut (S.layout type) rest ((S.layout type).Leads tag))
      (mergePayload S nested (S.layout type) tag) := by
  -- The slot of a repeated field is changed alone.
  have hslot : ∀ {α : Type} {p : PlacedField} {x : Merge (Slot Message) α},
      (S.layout type).fields[p.2]? = some p.1 → p.1.isRepeated = true →
      Ensures (fun s : Merging Message => s.target.AtRest S type rest) (atSlot p.2 x)
        (fun _ s => s.target.Rests (S.layout type) rest)
        (fun s => s.target.RestsBut (S.layout type) rest ((S.layout type).Leads tag)) := by
    intro α p x hp hrep
    refine ensures_atSlot (P := Message.AtRest S type rest)
      (Q := Message.Rests (S.layout type) rest) (E := Message.RestsBut _ rest _) fun m hm => ?_
    obtain ⟨slot, hslot⟩ := hm.1.exists_slot hp
    refine ⟨slot, hslot, fun s _ => ?_⟩
    cases x s with
    | ok a t => exact hm.2.setSlot_repeated hp hrep
    | error e t => exact (hm.2.setSlot_repeated hp hrep).restsBut
  have hfits : KeepsTarget (Message.Fits S type) (mergePayload S nested (S.layout type) tag) :=
    keeps_mergePayload hS hnested tag
  have hrests : Ensures (fun s : Merging Message => s.target.AtRest S type rest)
      (mergePayload S nested (S.layout type) tag) (fun _ s => s.target.Rests (S.layout type) rest)
      (fun s => s.target.RestsBut (S.layout type) rest ((S.layout type).Leads tag)) := by
    unfold mergePayload
    split
    · rename_i p hroute
      refine Ensures.bind ((p.ensures_decodeSingular hS hrest (Layout.route_eq_some hroute).1
        (Layout.isRepeated_of_route hroute)).failing fun s hs => ?_) fun _ _ h => h
      exact hs.mono fun i f slot h => h.imp_right fun h => ⟨⟨p, .value, hroute, h.1⟩, h.2⟩
    · rename_i p hroute
      exact (hslot (Layout.route_eq_some hroute).1 (Layout.isRepeated_of_route hroute)).bind
        fun _ _ h => h
    · rename_i p hroute
      exact (hslot (Layout.route_eq_some hroute).1 (Layout.isRepeated_of_route hroute)).bind
        fun _ _ h => h
    · split
      · exact fun _ h => h.2
      · exact (KeepsOr.read (P := Message.Rests (S.layout type) rest) _
          fun _ h => h.restsBut).mono (fun _ h => h.2) (fun _ _ h => h) fun _ h => h
  exact (Ensures.and hfits hrests).mono (fun _ h => ⟨h.1, h⟩) (fun _ _ h => h) fun _ h => h.2

include hS hnested hrest in
/-- By induction on the fuel: a record that was read leads on, and one that was not is where merging
stops. -/
theorem ensures_mergeRecords (fuel : Nat) (tag : UInt32) {s : Merging Message}
    (hs : s.target.AtRest S type rest) :
    Ensures (· = s) (mergeRecords S nested (S.layout type) fuel tag)
      (fun _ t => t.target.AtRest S type rest)
      fun t => t.target.RestsBut (S.layout type) rest
        (StopsAt S nested (S.layout type) · tag s) := by
  induction fuel generalizing tag s with
  | zero =>
    rintro s rfl
    exact hs.2.restsBut
  | succ fuel ih =>
    unfold mergeRecords
    refine Ensures.bind (((ensures_mergePayload hS hnested hrest tag).outcome hs).failing ?_)
      fun more => ?_
    · rintro t ⟨⟨e, hpayload⟩, ht⟩
      exact ht.mono fun i f slot h => h.imp_right fun h => ⟨.here h.1 hpayload, h.2⟩
    · rintro t ⟨hpayload, ht⟩
      cases more with
      | false => exact ht
      | true =>
        refine Ensures.bind (((keeps_read (P := Message.AtRest S type rest) readTag).outcome
          ht).failing fun u hu => hu.2.2.restsBut) (fun next => ?_) t rfl
        rintro u ⟨hread, hu⟩
        refine (ih next hu).failing (fun v hv => ?_) u rfl
        exact hv.mono fun i f slot h => h.imp_right fun h => ⟨.later hpayload hread h.1, h.2⟩

end Records

section Messages

variable {S : Schema} (hS : S.Valid) (order : FieldOrder)
  {rest : Nat → Field → Slot Message → Prop} (hrest : Restful S rest)

include hS hrest

/-- Merging keeps unset fields at rest. If it fails, the one that it stops in may be disturbed. -/
theorem Message.Rests.mergeBytes (hm : m.Fits S type) (h : m.Rests (S.layout type) rest)
    (limit : UInt32) (data : Bytes) :
    ((m.mergeBytes S order type limit data).1 = .ok () →
        (m.mergeBytes S order type limit data).2.Rests (S.layout type) rest) ∧
      (m.mergeBytes S order type limit data).2.RestsBut (S.layout type) rest
        (m.StopsAt S order type limit data ·) := by
  have hmerge : Ensures (· = ⟨m, { Reader.ofBytes data with recursionLimit := limit }⟩)
      (mergeMessage S order type) (fun _ s => s.target.AtRest S type rest)
      fun s => s.target.RestsBut (S.layout type) rest (m.StopsAt S order type limit data ·) := by
    rintro s rfl
    rw [mergeMessage_apply fun t => (hS t).routed]
    refine Ensures.bind (((keeps_read (P := Message.AtRest S type rest) readTag).outcome
      ⟨hm, h⟩).failing fun t ht => ht.2.2.restsBut) (fun tag => ?_) _ rfl
    rintro t ⟨htag, ht⟩
    refine (ensures_mergeRecords hS (keeps_mergeWithin hS order data.length) hrest _ tag
      ht).failing (fun u hu => ?_) t rfl
    exact hu.mono fun i f slot h => h.imp_right fun h => ⟨⟨tag, t, htag, h.1⟩, h.2⟩
  obtain ⟨hrests, hbut⟩ := hmerge.mergeBytes fun _ h => h.2.restsBut
  exact ⟨fun hok => (hrests hok).2, hbut⟩

end Messages

end ProtoWire
