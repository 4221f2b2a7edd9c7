import ProtoWire.Proofs.Message.Update

/-!
# Views put together field by field

A view that agrees with another one on some fields is made to agree on one more by storing it.
-/

namespace ProtoWire

variable {v s : Message} {L : Layout} {p : PlacedField}

/-- The second view is the first one as far as some fields go, and unset elsewhere. -/
structure Agrees (L : Layout) (done : List PlacedField) (s v : Message) : Prop where
  coherent : v.Coherent L
  length : v.slots.length = L.fields.length
  marked : ∀ p : PlacedField, L.fields[p.2]? = some p.1 → p ∈ done →
    p.1.isMarked v.presence v.cases = p.1.isMarked s.presence s.cases
  unmarked : ∀ p : PlacedField, L.fields[p.2]? = some p.1 → p ∉ done →
    p.1.isMarked v.presence v.cases = false
  stored : ∀ p : PlacedField, L.fields[p.2]? = some p.1 → p ∈ done →
    v.slots[p.2]? = s.slots[p.2]?
  blank : ∀ p : PlacedField, L.fields[p.2]? = some p.1 → p ∉ done →
    v.slots[p.2]? = some p.1.blankSlot

theorem Message.Coherent.ext {w : Message} (hv : v.Coherent L) (hw : w.Coherent L)
    (h : ∀ f ∈ L.fields, f.isMarked v.presence v.cases = f.isMarked w.presence w.cases) :
    v.presence = w.presence ∧ v.cases = w.cases := by
  constructor
  · refine Presence.ext (hv.presence_length.trans hw.presence_length.symm) fun bit => ?_
    rw [Bool.eq_iff_iff]
    constructor
    · intro hset
      obtain ⟨f, hf, hbit, hmarked⟩ := hv.bit_owner bit hset
      exact hw.bit_set f hf (h f hf ▸ hmarked) bit hbit
    · intro hset
      obtain ⟨f, hf, hbit, hmarked⟩ := hw.bit_owner bit hset
      exact hv.bit_set f hf ((h f hf).trans hmarked) bit hbit
  · have hcase : ∀ {v w : Message}, v.Coherent L →
        (∀ f ∈ L.fields, f.isMarked v.presence v.cases = f.isMarked w.presence w.cases) →
        ∀ oneof, v.cases.getD oneof 0 ≠ 0 → w.cases.getD oneof 0 = v.cases.getD oneof 0 := by
      intro v w hv h oneof hne
      obtain ⟨f, hf, honeof, hnumber⟩ := hv.case_member oneof hne
      have hmarked := h f hf
      rw [Field.isMarked_member honeof, Field.isMarked_member honeof, hnumber, beq_self_eq_true,
        eq_comm, beq_iff_eq] at hmarked
      exact hmarked
    refine List.ext_getElem (hv.cases_length.trans hw.cases_length.symm) fun i hi hi' => ?_
    have hgetD : ∀ {cases : List UInt32} (hi : i < cases.length), cases.getD i 0 = cases[i] := by
      intro cases hi
      rw [List.getD_eq_getElem?_getD, List.getElem?_eq_getElem hi, Option.getD_some]
    rw [← hgetD hi, ← hgetD hi']
    by_cases hzero : v.cases.getD i 0 = 0
    · by_cases hzero' : w.cases.getD i 0 = 0
      · rw [hzero, hzero']
      · exact hcase hw (fun f hf => (h f hf).symm) i hzero'
    · exact (hcase hv h i hzero).symm

section Fields

variable {f : Field}

theorem Field.bit?_of_repeated (hrep : f.isRepeated = true) : f.bit? = none := by
  obtain ⟨_, _, _, placement⟩ := f
  cases placement with
  | singular bit => cases hrep
  | repeated packed => rfl
  | member oneof bit => cases hrep

theorem Field.exists_bit? (hrep : f.isRepeated = false) : ∃ bit, f.bit? = some bit := by
  obtain ⟨_, _, _, placement⟩ := f
  cases placement with
  | singular bit => exact ⟨bit, rfl⟩
  | repeated packed => cases hrep
  | member oneof bit => exact ⟨bit, rfl⟩

theorem Field.isMemberOf_eq_true {oneof : Nat} :
    f.isMemberOf oneof = true ↔ f.oneof? = some oneof := by
  obtain ⟨_, _, _, placement⟩ := f
  cases placement with
  | singular bit | repeated packed => exact ⟨nofun, nofun⟩
  | member index bit => exact beq_iff_eq.trans Option.some_inj.symm

theorem Layout.Valid.number_ne {q : PlacedField} (hL : L.Valid) (hp : L.fields[p.2]? = some p.1)
    (hq : L.fields[q.2]? = some q.1) (hne : p ≠ q) : p.1.number ≠ q.1.number := by
  intro hnumber
  have hindex := hL.eq_of_number_eq hp hq hnumber
  rw [hindex, hq, Option.some.injEq] at hp
  exact hne (Prod.ext hp.symm hindex)

theorem Field.number_eq_of_isMarked {g : Field} (honeof : f.oneof? = g.oneof?)
    (hsome : f.oneof? ≠ none) (hf : f.isMarked s.presence s.cases = true)
    (hg : g.isMarked s.presence s.cases = true) : f.number = g.number := by
  cases ho : f.oneof? with
  | none => exact absurd ho hsome
  | some oneof =>
    rw [Field.isMarked_member ho, beq_iff_eq] at hf
    rw [Field.isMarked_member (honeof ▸ ho), beq_iff_eq] at hg
    exact hf.symm.trans hg

end Fields

namespace Agrees

variable (hL : L.Valid) {done : List PlacedField} (hp : L.fields[p.2]? = some p.1) (hnew : p ∉ done)

include hL in
theorem start (s : Message) : Agrees L [] s L.blank where
  coherent := .blank hL
  length := List.length_map _
  marked := fun _ _ => nofun
  unmarked := fun p hp _ =>
    L.unset_blank.isMarked (hL.number_pos p.1 (List.mem_of_getElem? hp))
  stored := fun _ _ => nofun
  blank := by
    intro p hp _
    simp [Layout.blank, hp]

theorem eq (h : Agrees L done s v) (hs : s.Coherent L) (hlength : s.slots.length = L.fields.length)
    (hall : ∀ p ∈ L.fields.zipIdx, p ∈ done) : v = s := by
  have hdone : ∀ {i : Nat} {f : Field}, L.fields[i]? = some f → (f, i) ∈ done := fun hf =>
    hall _ (List.mem_zipIdx_iff_getElem?.2 hf)
  have hmarks : ∀ f ∈ L.fields, f.isMarked v.presence v.cases = f.isMarked s.presence s.cases := by
    intro f hf
    obtain ⟨i, hi⟩ := List.mem_iff_getElem?.1 hf
    exact h.marked (f, i) hi (hdone hi)
  obtain ⟨hpresence, hcases⟩ := h.coherent.ext hs hmarks
  exact Message.ext_slots (L := L) hpresence hcases h.length hlength fun i f hf =>
    h.stored (f, i) hf (hdone hf)

include hp in
theorem skip (h : Agrees L done s v) (hmark : p.1.isMarked s.presence s.cases = false)
    (hslot : s.slots[p.2]? = some p.1.blankSlot) : Agrees L (p :: done) s v where
  coherent := h.coherent
  length := h.length
  marked := by
    intro q hq hmem
    by_cases hdone : q ∈ done
    · exact h.marked q hq hdone
    · obtain rfl : q = p := (List.mem_cons.1 hmem).resolve_right hdone
      rw [h.unmarked q hq hdone, hmark]
  unmarked := fun q hq hmem => h.unmarked q hq fun hdone => hmem (List.mem_cons_of_mem _ hdone)
  stored := by
    intro q hq hmem
    by_cases hdone : q ∈ done
    · exact h.stored q hq hdone
    · obtain rfl : q = p := (List.mem_cons.1 hmem).resolve_right hdone
      rw [h.blank q hq hdone, hslot]
  blank := fun q hq hmem => h.blank q hq fun hdone => hmem (List.mem_cons_of_mem _ hdone)

include hL hp in
theorem number_ne_of_isMarked (h : Agrees L done s v)
    (hmark : p.1.isMarked s.presence s.cases = true) {q : PlacedField}
    (hq : L.fields[q.2]? = some q.1) (hne : q ≠ p)
    (hmarked : q.1.isMarked v.presence v.cases = true) :
    p.1.oneof? = none ∨ p.1.oneof? ≠ q.1.oneof? := by
  by_cases hnone : p.1.oneof? = none
  · exact .inl hnone
  · refine .inr fun hsame => hL.number_ne hp hq hne.symm ?_
    have hdone : q ∈ done := by
      refine Classical.byContradiction fun hdone => ?_
      rw [h.unmarked q hq hdone] at hmarked
      cases hmarked
    rw [h.marked q hq hdone] at hmarked
    exact Field.number_eq_of_isMarked hsame hnone hmark hmarked

include hL hp hnew in
/-- Storing one more field. -/
theorem store (h : Agrees L done s v)
    (hmark : p.1.isRepeated = false → p.1.isMarked s.presence s.cases = true)
    {slot : Slot Message} (hslot : s.slots[p.2]? = some slot) :
    Agrees L (p :: done) s ((v.setSlot p.2 slot).markPresent p.1) := by
  have hmem := List.mem_of_getElem? hp
  have hcoherent : (v.setSlot p.2 slot).Coherent L := h.coherent.congr rfl rfl
  have hindex : ∀ q : PlacedField, L.fields[q.2]? = some q.1 → q ≠ p → p.2 ≠ q.2 := by
    intro q hq hne heq
    rw [← heq, hp, Option.some.injEq] at hq
    exact hne (Prod.ext hq.symm heq.symm)
  have hother : ∀ q : PlacedField, L.fields[q.2]? = some q.1 → q ≠ p →
      q.1.isMarked ((v.setSlot p.2 slot).markPresent p.1).presence
          ((v.setSlot p.2 slot).markPresent p.1).cases =
        q.1.isMarked v.presence v.cases := by
    intro q hq hne
    rw [hcoherent.isMarked_markPresent hL hmem (List.mem_of_getElem? hq)
      (hL.number_ne hp hq hne.symm)]
    change (_ && q.1.isMarked v.presence v.cases) = _
    cases hmarked : q.1.isMarked v.presence v.cases with
    | false => rw [Bool.and_false]
    | true =>
      rw [Bool.and_true, decide_eq_true_eq]
      cases hrep : p.1.isRepeated with
      | true => exact .inl (Field.oneof?_of_repeated (Field.bit?_of_repeated hrep))
      | false => exact h.number_ne_of_isMarked hL hp (hmark hrep) hq hne hmarked
  refine ⟨hcoherent.markPresent hL hmem, ?_, fun q hq hdone => ?_, fun q hq hdone => ?_,
    fun q hq hdone => ?_, fun q hq hdone => ?_⟩
  · rw [Message.slots_markPresent, Message.setSlot, List.length_set, h.length]
  · by_cases hne : q = p
    · subst hne
      cases hrep : q.1.isRepeated with
      | true =>
        have hbit := Field.bit?_of_repeated hrep
        rw [Field.isMarked_repeated hbit, Field.isMarked_repeated hbit]
      | false =>
        obtain ⟨bit, hbit⟩ := Field.exists_bit? hrep
        rw [hcoherent.isMarked_markPresent_self hL hmem hbit, hmark hrep]
    · rw [hother q hq hne]
      exact h.marked q hq ((List.mem_cons.1 hdone).resolve_left hne)
  · have hne : q ≠ p := fun heq => hdone (heq ▸ List.mem_cons_self)
    rw [hother q hq hne]
    exact h.unmarked q hq fun hmem => hdone (List.mem_cons_of_mem _ hmem)
  · rw [Message.slots_markPresent]
    by_cases hne : q = p
    · subst hne
      rw [getElem?_setSlot (h.blank q hq hnew), hslot]
    · rw [Message.setSlot, List.getElem?_set_ne (hindex q hq hne)]
      exact h.stored q hq ((List.mem_cons.1 hdone).resolve_left hne)
  · have hne : q ≠ p := fun heq => hdone (heq ▸ List.mem_cons_self)
    rw [Message.slots_markPresent, Message.setSlot, List.getElem?_set_ne (hindex q hq hne)]
    exact h.blank q hq fun hmem => hdone (List.mem_cons_of_mem _ hmem)

include hL hp hnew in
theorem vacate_eq (h : Agrees L done s v) (hmark : p.1.isMarked s.presence s.cases = true) :
    v.vacate L p.1 = v := by
  have hunmarked := h.unmarked p hp hnew
  unfold Message.vacate
  cases hplace : p.1.placement with
  | singular bit | repeated packed => rfl
  | member oneof bit =>
    have honeof : p.1.oneof? = some oneof := by simp [Field.oneof?, hplace]
    simp only
    split
    · rfl
    · rename_i hcase
      cases hactive : v.activeMember? L oneof with
      | none => rfl
      | some q =>
        have hq := List.mem_zipIdx_iff_getElem?.1 (List.mem_of_find?_eq_some hactive)
        have hmember := List.find?_some hactive
        simp only [Bool.and_eq_true, beq_iff_eq] at hmember
        have hqoneof := Field.isMemberOf_eq_true.1 hmember.1
        have hmarked : q.1.isMarked v.presence v.cases = true := by
          rw [Field.isMarked_member hqoneof, hmember.2, beq_self_eq_true]
        have hne : q ≠ p := by
          rintro rfl
          exact hcase hmember.2.symm
        rcases h.number_ne_of_isMarked hL hp hmark hq hne hmarked with hnone | hother
        · rw [honeof] at hnone
          cases hnone
        · exact absurd (honeof.trans hqoneof.symm) hother

end Agrees

section Updates

variable {S : Schema} (hS : S.Valid) {type : TypeId} {done : List PlacedField} {slot : Slot Message}
  (hp : (S.layout type).fields[p.2]? = some p.1) (hnew : p ∉ done)
  (hslot : s.slots[p.2]? = some slot)

include hS hp hnew hslot

theorem Agrees.applyAll_singular (h : Agrees (S.layout type) done s v)
    (hmark : p.1.isMarked s.presence s.cases = true) {u : Update} (hindex : u.index = p.2)
    (hchange : u.change S p.1 p.1.blankSlot = some slot) :
    ∃ v', applyAll S type [u] v = some v' ∧ Agrees (S.layout type) (p :: done) s v' := by
  refine ⟨_, ?_, h.store (hS type) hp hnew (fun _ => hmark) hslot⟩
  rw [applyAll_singleton, hindex, Message.amend, hp, h.blank p hp hnew]
  simp only [hchange, Option.map_some, h.vacate_eq (hS type) hp hnew hmark]

theorem Agrees.applyAll_repeated (h : Agrees (S.layout type) done s v)
    (hrep : p.1.isRepeated = true) {us : List Update} (hindex : ∀ u ∈ us, u.index = p.2)
    (hchange : changeAll S p.1 us p.1.blankSlot = some slot) :
    ∃ v', applyAll S type us v = some v' ∧ Agrees (S.layout type) (p :: done) s v' := by
  have hsingular : p.1.isRepeated = false → p.1.isMarked s.presence s.cases = true := by
    intro hsingular
    rw [hrep] at hsingular
    cases hsingular
  refine ⟨_, ?_, h.store (hS type) hp hnew hsingular hslot⟩
  rw [applyAll_eq_changeAll hp hrep (h.blank p hp hnew) hindex, hchange, Option.map_some,
    Message.markPresent_of_repeated (Field.bit?_of_repeated hrep)]

end Updates

end ProtoWire
