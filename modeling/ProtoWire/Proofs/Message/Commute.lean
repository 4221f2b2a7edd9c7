import ProtoWire.Proofs.Message.Rebuild

/-!
# Updates of unrelated fields commute

* `Message.store`: a view after a slot was stored. Two stores commute if their fields are apart.
* `Message.amend_comm`, `applyAll_comm`: so do updates.
-/

namespace ProtoWire

variable {L : Layout} {i j : Nat} {m : Message}

/-- The places are those of different fields, not of members of one oneof. -/
def Layout.Apart (L : Layout) (i j : Nat) : Prop :=
  i ≠ j ∧ ∀ f g, L.fields[i]? = some f → L.fields[j]? = some g →
    f.oneof? = none ∨ f.oneof? ≠ g.oneof?

theorem Layout.Apart.symm (h : L.Apart i j) : L.Apart j i := by
  refine ⟨h.1.symm, fun g f hg hf => ?_⟩
  rcases h.2 f g hf hg with hnone | hne
  · cases honeof : g.oneof? with
    | none => exact .inl rfl
    | some oneof => exact .inr (by rw [hnone]; exact nofun)
  · exact .inr hne.symm

/-! ### Storing a slot -/

/-- The member that gives way to another one. -/
def Message.displaced? (L : Layout) (f : Field) (m : Message) : Option PlacedField :=
  f.oneof?.bind fun oneof =>
    if m.cases.getD oneof 0 = f.number then none else m.activeMember? L oneof

/-- A view after the slot of a field was stored, which is present from then on. -/
def Message.store (L : Layout) (f : Field) (index : Nat) (slot : Slot Message) (m : Message) :
    Message :=
  ((m.vacate L f).setSlot index slot).markPresent f

section Store

variable {f g : Field}

theorem Message.eq_of_parts {n : Message} (hpresence : m.presence = n.presence)
    (hcases : m.cases = n.cases) (hslots : m.slots = n.slots) : m = n := by
  cases m
  cases n
  cases hpresence
  cases hcases
  cases hslots
  rfl

theorem Message.slots_vacate_eq :
    (m.vacate L f).slots =
      match m.displaced? L f with
      | some q => m.slots.set q.2 q.1.blankSlot
      | none => m.slots := by
  unfold Message.vacate Message.displaced? Field.oneof?
  cases f.placement with
  | singular bit | repeated packed => rfl
  | member oneof bit =>
    simp only [Option.bind_some]
    split
    · rfl
    · cases m.activeMember? L oneof <;> rfl

theorem Message.slots_store (slot : Slot Message) :
    (m.store L f i slot).slots =
      (match m.displaced? L f with
        | some q => m.slots.set q.2 q.1.blankSlot
        | none => m.slots).set i slot := by
  rw [Message.store, Message.slots_markPresent, Message.setSlot, Message.slots_vacate_eq]

theorem Message.cases_store (slot : Slot Message) :
    (m.store L f i slot).cases =
      match f.oneof? with
      | some oneof => m.cases.set oneof f.number
      | none => m.cases := by
  have hvacate : (m.vacate L f).cases = m.cases := Message.Fits.cases_vacate L
  unfold Message.store Message.markPresent Field.oneof?
  cases f.placement <;> simp [Message.setSlot, hvacate]

theorem Message.presence_store (slot : Slot Message) :
    (m.store L f i slot).presence =
      match f.bit? with
      | some bit => m.presence.insert bit
      | none => m.presence := by
  have hvacate : (m.vacate L f).presence = m.presence := Message.Fits.presence_vacate L
  unfold Message.store Message.markPresent Field.bit?
  cases f.placement <;> simp [Message.setSlot, hvacate]

/-- Only members of the same oneof give way. -/
theorem Message.displaced?_eq_some {q : PlacedField} (h : m.displaced? L f = some q) :
    L.fields[q.2]? = some q.1 ∧ f.oneof? ≠ none ∧ q.1.oneof? = f.oneof? := by
  unfold Message.displaced? at h
  obtain ⟨oneof, honeof, h⟩ := Option.bind_eq_some_iff.1 h
  split at h
  · cases h
  · have hmem := List.mem_of_find?_eq_some h
    have hmember := List.find?_some h
    simp only [Bool.and_eq_true] at hmember
    refine ⟨List.mem_zipIdx_iff_getElem?.1 hmem, by simp [honeof], ?_⟩
    rw [Field.isMemberOf_eq_true.1 hmember.1, honeof]

/-- Which member gives way depends on the case of the oneof alone. -/
theorem Message.displaced?_congr {m' : Message}
    (h : ∀ oneof ∈ f.oneof?, m'.cases.getD oneof 0 = m.cases.getD oneof 0) :
    m'.displaced? L f = m.displaced? L f := by
  unfold Message.displaced? Message.activeMember?
  cases honeof : f.oneof? with
  | none => rfl
  | some oneof =>
    simp only [Option.bind_some]
    rw [h oneof honeof]

theorem Presence.insert_comm (p : Presence) (bit bit' : PresenceBit) :
    (p.insert bit).insert bit' = (p.insert bit').insert bit := by
  unfold Presence.insert
  refine List.ext_getElem? fun i => ?_
  simp only [List.getElem?_modify]
  cases p[i]? with
  | none => rfl
  | some word =>
    have hor : word ||| bit.mask ||| bit'.mask = word ||| bit'.mask ||| bit.mask := by
      rw [UInt32.or_assoc, UInt32.or_comm bit.mask, UInt32.or_assoc]
    by_cases h : bit.word = i <;> by_cases h' : bit'.word = i <;> simp [h, h', hor]

variable (hf : L.fields[i]? = some f) (hg : L.fields[j]? = some g) (hapart : L.Apart i j)

include hf hg hapart

theorem Message.displaced?_store (slot : Slot Message) :
    (m.store L f i slot).displaced? L g = m.displaced? L g := by
  refine Message.displaced?_congr fun oneof honeof => ?_
  rw [Message.cases_store]
  cases hother : f.oneof? with
  | none => rfl
  | some oneof' =>
    have hne : oneof' ≠ oneof := by
      rintro rfl
      rcases hapart.2 f g hf hg with hnone | hne
      · exact nomatch hother.symm.trans hnone
      · exact hne (hother.trans (Option.mem_def.1 honeof).symm)
    simp [List.getD_eq_getElem?_getD, hne]

/-- A member that gives way stands neither at a place that is apart nor gives way to it. -/
theorem Message.ne_of_displaced? {q : PlacedField} (hq : m.displaced? L f = some q) :
    q.2 ≠ j ∧ ∀ q', m.displaced? L g = some q' → q.2 ≠ q'.2 := by
  obtain ⟨hfield, hsome, honeof⟩ := Message.displaced?_eq_some hq
  have hne : f.oneof? ≠ g.oneof? := by
    rcases hapart.2 f g hf hg with hnone | hne
    · exact absurd hnone hsome
    · exact hne
  refine ⟨?_, fun q' hq' heq => ?_⟩
  · rintro rfl
    cases hfield.symm.trans hg
    exact hne honeof.symm
  · obtain ⟨hfield', -, honeof'⟩ := Message.displaced?_eq_some hq'
    rw [heq] at hfield
    have hsame : q.1 = q'.1 := Option.some.inj (hfield.symm.trans hfield')
    exact hne (honeof.symm.trans ((congrArg Field.oneof? hsame).trans honeof'))

theorem Message.getElem?_slots_store (slot : Slot Message) :
    (m.store L f i slot).slots[j]? = m.slots[j]? := by
  rw [Message.slots_store, List.getElem?_set_ne hapart.1]
  cases hq : m.displaced? L f with
  | none => rfl
  | some q => exact List.getElem?_set_ne (Message.ne_of_displaced? hf hg hapart hq).1

/-- Four places are written: the two slots, and those of the members that give way. No two of them
are the same. -/
theorem Message.slots_store_comm (slot slot' : Slot Message) :
    ((m.store L f i slot).store L g j slot').slots =
      ((m.store L g j slot').store L f i slot).slots := by
  have hdisplaced := Message.displaced?_store (m := m) hf hg hapart slot
  have hdisplaced' := Message.displaced?_store (m := m) hg hf hapart.symm slot'
  have hne := hapart.1
  rw [Message.slots_store, hdisplaced, Message.slots_store, Message.slots_store, hdisplaced',
    Message.slots_store]
  cases hq : m.displaced? L f with
  | none =>
    cases hq' : m.displaced? L g with
    | none => exact List.set_comm _ _ hne
    | some q' =>
      have hi := (Message.ne_of_displaced? hg hf hapart.symm hq').1
      simp only
      rw [List.set_comm _ _ hi.symm, List.set_comm _ _ hne]
  | some q =>
    have hj := (Message.ne_of_displaced? hf hg hapart hq).1
    cases hq' : m.displaced? L g with
    | none =>
      simp only
      rw [List.set_comm _ _ hne, List.set_comm _ _ hj]
    | some q' =>
      have hi := (Message.ne_of_displaced? hg hf hapart.symm hq').1
      have hqq := (Message.ne_of_displaced? hf hg hapart hq).2 q' hq'
      simp only
      rw [List.set_comm _ _ hi.symm, List.set_comm _ _ hqq, List.set_comm _ _ hne,
        List.set_comm _ _ hj]

theorem Message.cases_store_comm (slot slot' : Slot Message) :
    ((m.store L f i slot).store L g j slot').cases =
      ((m.store L g j slot').store L f i slot).cases := by
  simp only [Message.cases_store]
  rcases hapart.2 f g hf hg with hnone | hne
  · rw [hnone]
  · cases honeof : f.oneof? with
    | none => rfl
    | some oneof =>
      cases honeof' : g.oneof? with
      | none => rfl
      | some oneof' =>
        rw [honeof, honeof'] at hne
        exact List.set_comm _ _ (fun heq => hne (congrArg some heq))

omit hf hg hapart in
/-- Bits are set in any order, even if they are the same. -/
theorem Message.presence_store_comm (slot slot' : Slot Message) :
    ((m.store L f i slot).store L g j slot').presence =
      ((m.store L g j slot').store L f i slot).presence := by
  simp only [Message.presence_store]
  cases f.bit? with
  | none => rfl
  | some bit =>
    cases g.bit? with
    | none => rfl
    | some bit' => exact Presence.insert_comm _ _ _

theorem Message.store_comm (slot slot' : Slot Message) :
    (m.store L f i slot).store L g j slot' = (m.store L g j slot').store L f i slot :=
  Message.eq_of_parts (Message.presence_store_comm slot slot')
    (Message.cases_store_comm hf hg hapart slot slot')
    (Message.slots_store_comm hf hg hapart slot slot')

end Store

/-! ### Updates -/

section Updates

theorem Message.amend_eq_store {f : Field} {slot : Slot Message} (hf : L.fields[i]? = some f)
    (hslot : m.slots[i]? = some slot) (change : Field → Slot Message → Option (Slot Message)) :
    m.amend L i change = (change f slot).map fun slot => m.store L f i slot := by
  unfold Message.amend
  rw [hf, hslot]
  rfl

theorem Message.amend_swap (hapart : L.Apart i j) {w : Message}
    {change change' : Field → Slot Message → Option (Slot Message)}
    (h : (m.amend L i change).bind (·.amend L j change') = some w) :
    (m.amend L j change').bind (·.amend L i change) = some w := by
  obtain ⟨m₁, h₁, h₂⟩ := Option.bind_eq_some_iff.1 h
  obtain ⟨f, slot, slot₁, hf, hslot, hchange, rfl⟩ := Message.amend_eq_some h₁
  obtain ⟨g, slot', slot₂, hg, hslot', hchange', rfl⟩ := Message.amend_eq_some h₂
  have hstay : (m.store L f i slot₁).slots[j]? = m.slots[j]? :=
    Message.getElem?_slots_store hf hg hapart slot₁
  have hstay' : (m.store L g j slot₂).slots[i]? = m.slots[i]? :=
    Message.getElem?_slots_store hg hf hapart.symm slot₂
  rw [Message.amend_eq_store hg (hstay.symm.trans hslot'), hchange', Option.map_some,
    Option.bind_some, Message.amend_eq_store hf (hstay'.trans hslot), hchange, Option.map_some]
  exact congrArg some (Message.store_comm hf hg hapart slot₁ slot₂).symm

theorem Message.amend_comm (hapart : L.Apart i j) (m : Message)
    (change change' : Field → Slot Message → Option (Slot Message)) :
    (m.amend L i change).bind (·.amend L j change') =
      (m.amend L j change').bind (·.amend L i change) :=
  Option.ext fun _ => ⟨Message.amend_swap hapart, Message.amend_swap hapart.symm⟩

variable {S : Schema} {type : TypeId}

theorem applyAll_cons_comm {u : Update} {us : List Update}
    (hus : ∀ u' ∈ us, (S.layout type).Apart u.index u'.index) (v : Message) :
    applyAll S type (u :: us) v = applyAll S type (us ++ [u]) v := by
  induction us generalizing v with
  | nil => rfl
  | cons u' us ih =>
    rw [List.forall_mem_cons] at hus
    calc applyAll S type (u :: u' :: us) v
        = ((v.amend (S.layout type) u.index (u.change S)).bind
            (·.amend (S.layout type) u'.index (u'.change S))).bind (applyAll S type us) := by
          simp only [applyAll, Option.bind_assoc]
      _ = ((v.amend (S.layout type) u'.index (u'.change S)).bind
            (·.amend (S.layout type) u.index (u.change S))).bind (applyAll S type us) := by
          rw [Message.amend_comm hus.1]
      _ = (v.amend (S.layout type) u'.index (u'.change S)).bind
            (applyAll S type (us ++ [u])) := by
          rw [Option.bind_assoc]
          exact congrArg _ (funext fun w => ih hus.2 w)
      _ = applyAll S type (u' :: us ++ [u]) v := by
          rw [List.cons_append, applyAll]

/-- Updates of fields that are apart commute. -/
theorem applyAll_comm {us us' : List Update}
    (hus : ∀ u ∈ us, ∀ u' ∈ us', (S.layout type).Apart u.index u'.index) (v : Message) :
    applyAll S type (us ++ us') v = applyAll S type (us' ++ us) v := by
  induction us generalizing v with
  | nil => rw [List.nil_append, List.append_nil]
  | cons u us ih =>
    rw [List.forall_mem_cons] at hus
    calc applyAll S type (u :: us ++ us') v
        = (v.amend (S.layout type) u.index (u.change S)).bind (applyAll S type (us ++ us')) := by
          rw [List.cons_append, applyAll]
      _ = applyAll S type (u :: us' ++ us) v := by
          rw [List.cons_append, applyAll]
          exact congrArg _ (funext fun w => ih hus.2 w)
      _ = applyAll S type (us' ++ u :: us) v := by
          rw [applyAll_append, applyAll_cons_comm hus.1, ← applyAll_append, List.append_assoc]
          rfl

end Updates

end ProtoWire
