import ProtoWire.Proofs.Message.Footprint
import ProtoWire.Proofs.Message.Rearranged
import ProtoWire.Proofs.Message.Records

/-!
# Of a oneof one member is present at most

* `Message.Coherent.oneofBit_iff`: the bit of a oneof is set if there is a case.
* `Message.Fits.memberNumbers_records`: of the members, the one that is present is written.
* `oneof_exclusive`: all of this in any state, and what changes of other fields leave alone.
-/

namespace ProtoWire

variable {m : Message} {f : Field} {oneof : Nat} {S : Schema} {type : TypeId}

/-! ### The case and its bit -/

section Cases

variable {L : Layout}

theorem Message.Coherent.oneofBit_iff (h : m.Coherent L) (hL : L.Valid) (oneof : Nat) :
    (oneofBit? L oneof).any m.presence.test = true ↔ m.cases.getD oneof 0 ≠ 0 := by
  constructor
  · intro hany
    obtain ⟨bit, hbit, htest⟩ := (Option.any_eq_true _ _).1 hany
    obtain ⟨g, hg, hgo, hgbit⟩ := oneofBit?_eq_some hbit
    -- whoever owns the bit is a member
    obtain ⟨f, hf, hfbit, hmarked⟩ := h.bit_owner bit htest
    have hfo : f.oneof? = some oneof := by
      rcases hL.bit_eq f hf g hg bit hfbit hgbit with hnumber | ⟨hshare, -⟩
      · rw [hL.field_eq hf hg hnumber, hgo]
      · rw [hshare, hgo]
    rw [Field.isMarked_member hfo, beq_iff_eq] at hmarked
    rw [hmarked]
    exact hL.number_pos f hf
  · intro hcase
    obtain ⟨f, hf, hfo, hnumber⟩ := h.case_member oneof hcase
    have hmarked : f.isMarked m.presence m.cases = true := by
      rw [Field.isMarked_member hfo, hnumber, beq_self_eq_true]
    cases hbit : oneofBit? L oneof with
    | none => exact absurd hfo (oneofBit?_eq_none hbit f hf)
    | some bit =>
      obtain ⟨g, hg, hgo, hgbit⟩ := oneofBit?_eq_some hbit
      have hfbit : f.bit? = some bit := (hL.oneof_eq f hf g hg oneof hfo hgo).trans hgbit
      exact h.bit_set f hf hmarked bit hfbit

theorem Field.isRepeated_of_oneof (h : f.oneof? = some oneof) : f.isRepeated = false := by
  obtain ⟨_, _, _, placement⟩ := f
  cases placement with
  | repeated packed => cases h
  | singular | member => rfl

/-- A member is present if the case is its number. -/
theorem Message.Fits.has_member (hm : m.Fits S type) {i : Nat}
    (hf : (S.layout type).fields[i]? = some f) (honeof : f.oneof? = some oneof) :
    m.has f i = true ↔ m.cases.getD oneof 0 = f.number := by
  obtain ⟨slot, hslot⟩ := hm.exists_slot hf
  rw [Message.has, hslot]
  simp only [Field.isPresent_of_singular (Field.isRepeated_of_oneof honeof),
    Field.isMarked_member honeof, beq_iff_eq]

end Cases

/-! ### Records of members -/

section Records

variable (hS : S.Valid) {order : FieldOrder} (hm : m.Fits S type)

theorem Field.Fits.exists_payload {inner : TypeId → Message → Prop} {slot : Slot Message}
    (h : f.Fits inner slot) (hrep : f.isRepeated = false) (hstored : slot.isStored = true) :
    ∃ payload, f.payloads S order slot = [payload] := by
  cases h.shape with
  | scalar | text | blob => exact ⟨_, rfl⟩
  | @sub t value _ ht =>
    cases value with
    | none => cases hstored
    | some m =>
      exact ⟨f.nestedPayload (m.encode S order (S.layout t)), by
        simp [Field.payloads, Field.nestedPayloads, ht]⟩
  | scalars hrep' | texts hrep' | blobs hrep' | subs hrep' =>
    rw [hrep] at hrep'
    cases hrep'

include hm in
theorem Message.Fits.numbers_recordsOf {p : PlacedField}
    (hp : (S.layout type).fields[p.2]? = some p.1) (hrep : p.1.isRepeated = false)
    (hL : (S.layout type).Valid) :
    (m.recordsOf S order p).map WireRecord.number =
      if p.1.isMarked m.presence m.cases then [p.1.number] else [] := by
  obtain ⟨slot, hslot⟩ := hm.exists_slot hp
  have hpresent := Field.isPresent_of_singular hrep m.presence m.cases slot
  rw [Message.recordsOf, hslot]
  simp only [hpresent]
  split
  · rename_i hmarked
    obtain ⟨payload, hpayload⟩ : ∃ payload, p.1.payloads S order slot = [payload] :=
      (hm.atSlot hp hslot).exists_payload hrep (hm.stored hp hslot hmarked)
    rw [hpayload, List.map_singleton, List.map_singleton,
      p.1.number_record hL (List.mem_of_getElem? hp)]
  · rfl

include hS hm

/-- Of the members of a oneof, the one whose number is the case is written, and only that. -/
theorem Message.Fits.memberNumbers_recordsOf {p : PlacedField}
    (hp : (S.layout type).fields[p.2]? = some p.1) (oneof : Nat) :
    ((m.recordsOf S order p).map WireRecord.number).filter ((S.layout type).isMember oneof) =
      if p.1.number == m.cases.getD oneof 0 && (S.layout type).isMember oneof p.1.number then
        [p.1.number] else [] := by
  have hmem := List.mem_of_getElem? hp
  cases hmember : (S.layout type).isMember oneof p.1.number with
  | false =>
    rw [Bool.and_false, if_neg Bool.false_ne_true, List.filter_eq_nil_iff]
    intro number hnumber
    obtain ⟨rec, hrec, rfl⟩ := List.mem_map.1 hnumber
    rw [(Message.Fits.tagged_of_mem_recordsOf hS hp hrec).2, hmember]
    exact Bool.false_ne_true
  | true =>
    obtain ⟨f, hf, honeof, hnumber⟩ := Layout.isMember_eq_true.1 hmember
    obtain rfl := (hS type).field_eq hf hmem hnumber
    rw [hm.numbers_recordsOf hp (Field.isRepeated_of_oneof honeof) (hS type),
      Field.isMarked_member honeof, Bool.and_true, Bool.beq_comm]
    split
    · rw [List.filter_singleton, hmember]
      rfl
    · rfl

theorem Message.Fits.memberNumbers_records (oneof : Nat) :
    ((m.records S order (S.layout type)).map WireRecord.number).filter
        ((S.layout type).isMember oneof) =
      if m.cases.getD oneof 0 = 0 then [] else [m.cases.getD oneof 0] := by
  have hmem : ∀ p ∈ (S.layout type).placed order, p.1 ∈ (S.layout type).fields := fun p hp =>
    List.mem_of_getElem? (Layout.getElem?_of_mem_placed hp)
  have hall : ((m.records S order (S.layout type)).map WireRecord.number).filter
        ((S.layout type).isMember oneof) =
      (((S.layout type).placed order).map fun p => p.1.number).filter fun number =>
        number == m.cases.getD oneof 0 && (S.layout type).isMember oneof number := by
    rw [Message.records, List.map_flatMap, List.filter_flatMap, List.flatMap_congr fun p hp =>
      hm.memberNumbers_recordsOf hS (Layout.getElem?_of_mem_placed hp) oneof]
    generalize (S.layout type).placed order = ps
    induction ps with
    | nil => rfl
    | cons p ps ih =>
      rw [List.flatMap_cons, List.map_cons, List.filter_cons, ih]
      split <;> rfl
  rw [hall]
  split
  · rename_i hzero
    rw [List.filter_eq_nil_iff]
    intro number hnumber hboth
    obtain ⟨p, hp, rfl⟩ := List.mem_map.1 hnumber
    rw [hzero, Bool.and_eq_true, beq_iff_eq] at hboth
    exact (hS type).number_pos p.1 (hmem p hp) hboth.1
  · rename_i hcase
    obtain ⟨f, hf, honeof, hnumber⟩ := hm.coherent.case_member oneof hcase
    have hmember := Layout.isMember_eq_true.2 ⟨f, hf, honeof, hnumber⟩
    -- the number of the case is that of one field
    have hperm : (((S.layout type).placed order).map fun p => p.1.number).Perm
        ((S.layout type).fields.map Field.number) := by
      have hfields := ((S.layout type).placed_perm order).map Prod.fst
      rw [List.zipIdx_map_fst] at hfields
      simpa only [List.map_map, Function.comp_def] using hfields.map Field.number
    have hone : (((S.layout type).placed order).map fun p => p.1.number).count
        (m.cases.getD oneof 0) = 1 := by
      refine List.count_eq_one_of_mem (hperm.nodup_iff.2 (hS type).numbers) (hperm.mem_iff.2 ?_)
      exact List.mem_map.2 ⟨f, hf, hnumber⟩
    rw [List.filter_congr fun number _ => (?_ : _ = (number == m.cases.getD oneof 0)),
      List.filter_beq, hone]
    · rfl
    · cases heq : number == m.cases.getD oneof 0 with
      | false => rfl
      | true => rw [beq_iff_eq.1 heq, hmember, Bool.and_true]

end Records

/-! ### Exclusion -/

/-- What holds of a oneof: there is no case, or it is the number of a member, and the bit says which;
a member is present if the case is its number, and so one at most; of the members, the one that is
present is written. -/
structure Message.Exclusive (S : Schema) (order : FieldOrder) (L : Layout) (oneof : Nat)
    (m : Message) : Prop where
  case_eq : m.cases.getD oneof 0 = 0 ∨ L.isMember oneof (m.cases.getD oneof 0) = true
  bit_iff : (Message.oneofBit? L oneof).any m.presence.test = true ↔ m.cases.getD oneof 0 ≠ 0
  has_iff : ∀ i f, L.fields[i]? = some f → f.oneof? = some oneof →
    (m.has f i = true ↔ m.cases.getD oneof 0 = f.number)
  has_unique : ∀ i j f g, L.fields[i]? = some f → f.oneof? = some oneof → m.has f i = true →
    L.fields[j]? = some g → g.oneof? = some oneof → m.has g j = true → i = j
  written : ((m.records S order L).map WireRecord.number).filter (L.isMember oneof) =
    if m.cases.getD oneof 0 = 0 then [] else [m.cases.getD oneof 0]

theorem Message.Fits.exclusive (hS : S.Valid) {order : FieldOrder} (hm : m.Fits S type)
    (oneof : Nat) :
    m.Exclusive S order (S.layout type) oneof where
  case_eq := by
    by_cases hcase : m.cases.getD oneof 0 = 0
    · exact .inl hcase
    · exact .inr (Layout.isMember_eq_true.2 (hm.coherent.case_member oneof hcase))
  bit_iff := hm.coherent.oneofBit_iff (hS type) oneof
  has_iff := fun _ _ hf honeof => hm.has_member hf honeof
  has_unique := by
    intro i j f g hf hfo hhas hg hgo hhas'
    have hnumber := (hm.has_member hf hfo).1 hhas
    have hnumber' := (hm.has_member hg hgo).1 hhas'
    exact (hS type).eq_of_number_eq hf hg (hnumber.symm.trans hnumber')
  written := hm.memberNumbers_records hS oneof

theorem Message.Spares.any_oneofBit {L : Layout} {K : Nat → Prop} {m' : Message}
    (h : m.Spares L K m') (hK : ∀ i f, L.fields[i]? = some f → f.oneof? = some oneof → K i) :
    (oneofBit? L oneof).any m'.presence.test = (oneofBit? L oneof).any m.presence.test := by
  cases hbit : oneofBit? L oneof with
  | none => rfl
  | some bit =>
    obtain ⟨f, hf, hfo, hfbit⟩ := oneofBit?_eq_some hbit
    obtain ⟨i, hi⟩ := List.mem_iff_getElem?.1 hf
    exact h.bits i f hi (hK i f hi hfo) bit hfbit

section Conformance

open Conformance (schema)

/-- In any state of a message with a oneof, whether merges failed or not, one member is present at
most, as the case says, and it is written as one record. Changes of members leave the field behind
them as it is, and changes of that field leave the oneof. -/
theorem oneof_exclusive (V : Conformance.Variant) {m : Message}
    (hm : Reachable schema V.order Conformance.Choice m) :
    let L := schema.layout Conformance.Choice
    let members := fun i => ∃ f, L.fields[i]? = some f ∧ f.oneof? = some 0
    m.Exclusive schema V.order L 0 ∧
      (m.encode schema V.order L = (m.records schema V.order L).flatMap WireRecord.bytes ∧
        (∀ rec ∈ m.records schema V.order L, rec.Tagged) ∧
        (m.size schema L < 2 ^ 32 → ∀ rec ∈ m.records schema V.order L, rec.Complete)) ∧
      (∀ action : Action, action.Targets L members →
        ∀ f, L.fields[3]? = some f →
          (action.run schema V.order Conformance.Choice m).2.has f 3 = m.has f 3 ∧
          (action.run schema V.order Conformance.Choice m).2.slots[3]? = m.slots[3]?) ∧
      ∀ action : Action, action.Targets L (· = 3) →
        (action.run schema V.order Conformance.Choice m).2.cases.getD 0 0 = m.cases.getD 0 0 ∧
        (Message.oneofBit? L 0).any
            (action.run schema V.order Conformance.Choice m).2.presence.test =
          (Message.oneofBit? L 0).any m.presence.test ∧
        ∀ i f, L.fields[i]? = some f → f.oneof? = some 0 →
          (action.run schema V.order Conformance.Choice m).2.has f i = m.has f i ∧
          (action.run schema V.order Conformance.Choice m).2.slots[i]? = m.slots[i]? := by
  intro L members
  have hS := Conformance.valid
  have hfits := hm.fits hS
  have hafter : ∀ f ∈ L.fields[3]?, f.oneof? = none := by decide
  have hapart : ∀ i, members i → ∀ j, j = 3 → L.Apart i j := by
    rintro i ⟨f, hf, honeof⟩ _ rfl
    refine ⟨?_, fun f' g hf' hg => .inr ?_⟩
    · rintro rfl
      rw [hafter f hf] at honeof
      cases honeof
    · rw [Option.some.inj (hf'.symm.trans hf), honeof, hafter g hg]
      exact nofun
  refine ⟨hfits.exclusive hS 0, ⟨hfits.encode_eq_records hS, ?_, ?_⟩, ?_, ?_⟩
  · intro rec hrec
    obtain ⟨p, hp, hrec⟩ := List.mem_flatMap.1 hrec
    exact (Message.Fits.tagged_of_mem_recordsOf hS (Layout.getElem?_of_mem_placed hp) hrec).1
  · intro hsize
    rw [← Message.length_encode schema V.order] at hsize
    exact hfits.complete_of_mem_records hS hsize
  · intro action htargets f hf
    have hspares : m.Spares L (· = 3) _ := Message.Spares.run hS V.order hapart (.refl m) hfits
      htargets
    exact ⟨hspares.has_eq hf rfl, hspares.slots 3 rfl⟩
  · intro action htargets
    have hspares : m.Spares L members _ := Message.Spares.run hS V.order
      (fun i hi j hj => (hapart j hj i hi).symm) (.refl m) hfits htargets
    refine ⟨?_, hspares.any_oneofBit fun i f hf honeof => ⟨f, hf, honeof⟩, ?_⟩
    · obtain ⟨f, hf, honeof⟩ : members 0 := ⟨_, rfl, rfl⟩
      exact hspares.cases 0 f hf ⟨f, hf, honeof⟩ 0 honeof
    · exact fun i f hf honeof =>
        ⟨hspares.has_eq hf ⟨f, hf, honeof⟩, hspares.slots i ⟨f, hf, honeof⟩⟩

/-- The last field is set, then a text, and then a number in place of the text. Clearing the oneof
leaves the last field. -/
theorem oneof_exclusive_choice :
    ∃ m, Reachable schema .declaration Conformance.Choice m ∧ m.cases.getD 0 0 = 1 ∧
      ((m.records schema .declaration (schema.layout Conformance.Choice)).map
          WireRecord.number).filter ((schema.layout Conformance.Choice).isMember 0) = [1] ∧
      ∀ f, (schema.layout Conformance.Choice).fields[3]? = some f →
        ((Action.clearOneof 0).run schema .declaration Conformance.Choice m).2.has f 3 =
          m.has f 3 := by
  have hm : Reachable schema Conformance.Variant.declaration.order Conformance.Choice
      ((Action.merge 100 [32, 7, 18, 1, 65, 8, 5]).run schema .declaration Conformance.Choice
        (schema.blank Conformance.Choice)).2 := .run (.blank _) (.merge 100 _)
  have hcase : ((Action.merge 100 [32, 7, 18, 1, 65, 8, 5]).run schema .declaration
      Conformance.Choice (schema.blank Conformance.Choice)).2.cases.getD 0 0 = 1 := by cbv
  obtain ⟨hexclusive, -, hmembers, -⟩ := oneof_exclusive .declaration hm
  have hwritten := hexclusive.written
  rw [hcase] at hwritten
  exact ⟨_, hm, hcase, hwritten, fun f hf =>
    (hmembers (.clearOneof 0) (fun i g hg honeof => ⟨g, hg, honeof⟩) f hf).1⟩

end Conformance

end ProtoWire
