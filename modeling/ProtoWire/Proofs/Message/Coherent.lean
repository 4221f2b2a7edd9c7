import ProtoWire.Proofs.Field.Presence
import ProtoWire.Proofs.Message.Valid

/-!
# Presence that is coherent

Presence is kept in bits and in the cases of oneofs, and the two must agree.

* `Message.Coherent`: every bit that is set belongs to a field that is marked, and the other way
  round.
-/

namespace ProtoWire

variable {m : Message} {f : Field} {oneof : Nat} {bit : PresenceBit}

/-- Whether bits and cases say that a singular field is present. -/
def Field.isMarked (f : Field) (presence : Presence) (cases : List UInt32) : Bool :=
  match f.placement with
  | .singular bit => presence.test bit
  | .repeated _ => false
  | .member oneof _ => cases.getD oneof 0 == f.number

/-- Bits and cases agree. -/
structure Message.Coherent (L : Layout) (m : Message) : Prop where
  presence_length : m.presence.length = L.words
  cases_length : m.cases.length = L.oneofs.length
  case_member : ∀ oneof, m.cases.getD oneof 0 ≠ 0 →
    ∃ f ∈ L.fields, f.oneof? = some oneof ∧ f.number = m.cases.getD oneof 0
  bit_owner : ∀ bit, m.presence.test bit = true →
    ∃ f ∈ L.fields, f.bit? = some bit ∧ f.isMarked m.presence m.cases = true
  bit_set : ∀ f ∈ L.fields, f.isMarked m.presence m.cases = true →
    ∀ bit ∈ f.bit?, m.presence.test bit = true

section Marks

variable {S : Schema} {L : Layout} {g : Field}

theorem Field.isMarked_member (h : f.oneof? = some oneof) (presence : Presence)
    (cases : List UInt32) : f.isMarked presence cases = (cases.getD oneof 0 == f.number) := by
  unfold Field.oneof? at h
  unfold Field.isMarked
  cases hplace : f.placement with
  | singular b | repeated packed => simp [hplace] at h
  | member index b =>
    simp only [hplace, Option.some.injEq] at h ⊢
    rw [h]

theorem Field.isMarked_repeated (h : f.bit? = none) (presence : Presence) (cases : List UInt32) :
    f.isMarked presence cases = false := by
  unfold Field.bit? at h
  unfold Field.isMarked
  cases hplace : f.placement with
  | singular b => simp [hplace] at h
  | repeated packed => rfl
  | member index b => simp [hplace] at h

theorem Field.isPresent_of_singular (hrep : f.isRepeated = false) (presence : Presence)
    (cases : List UInt32) (slot : Slot Message) :
    f.isPresent presence cases slot = f.isMarked presence cases := by
  obtain ⟨_, _, _, placement⟩ := f
  cases placement with
  | singular bit => rfl
  | repeated packed => cases hrep
  | member oneof bit => rfl

theorem Field.isPresent_of_repeated (hrep : f.isRepeated = true) (presence : Presence)
    (cases : List UInt32) (slot : Slot Message) :
    f.isPresent presence cases slot = !slot.isEmpty := by
  obtain ⟨_, _, _, placement⟩ := f
  cases placement with
  | singular bit => cases hrep
  | repeated packed => rfl
  | member oneof bit => cases hrep

theorem Field.oneof?_of_repeated (h : f.bit? = none) : f.oneof? = none := by
  unfold Field.bit? at h
  unfold Field.oneof?
  cases hplace : f.placement with
  | singular b | repeated packed => rfl
  | member index b => simp [hplace] at h

theorem Field.isMarked_singular (h : f.oneof? = none) (hbit : f.bit? = some bit)
    (presence : Presence) (cases : List UInt32) :
    f.isMarked presence cases = presence.test bit := by
  unfold Field.oneof? at h
  unfold Field.bit? at hbit
  unfold Field.isMarked
  cases hplace : f.placement with
  | singular b =>
    simp only [hplace, Option.some.injEq] at hbit ⊢
    rw [hbit]
  | repeated packed => simp [hplace] at hbit
  | member index b => simp [hplace] at h

theorem getD_set {cases : List UInt32} {i j : Nat} (hi : i < cases.length) (value : UInt32) :
    (cases.set i value).getD j 0 = if i = j then value else cases.getD j 0 := by
  rw [List.getD_eq_getElem?_getD, List.getD_eq_getElem?_getD, List.getElem?_set]
  by_cases h : i = j
  · subst h
    simp [hi]
  · simp [h]

theorem Message.markPresent_of_repeated (h : f.bit? = none) : m.markPresent f = m := by
  unfold Field.bit? at h
  unfold markPresent
  cases hplace : f.placement with
  | singular b => simp [hplace] at h
  | repeated packed => rfl
  | member index b => simp [hplace] at h

theorem Message.length_presence_markPresent :
    (m.markPresent f).presence.length = m.presence.length := by
  unfold markPresent
  split <;> simp

theorem Message.length_cases_markPresent : (m.markPresent f).cases.length = m.cases.length := by
  unfold markPresent
  split <;> simp

theorem Message.slots_markPresent : (m.markPresent f).slots = m.slots := by
  unfold markPresent
  split <;> rfl

theorem Message.setSlot_markPresent (m : Message) (f : Field) (i : Nat) (slot : Slot Message) :
    (m.markPresent f).setSlot i slot = (m.setSlot i slot).markPresent f := by
  unfold Message.markPresent Message.setSlot
  cases f.placement <;> rfl

theorem Message.test_markPresent (hbit : f.bit? = some bit) (hword : bit.word < m.presence.length)
    (bit' : PresenceBit) :
    (m.markPresent f).presence.test bit' = (decide (bit = bit') || m.presence.test bit') := by
  unfold Field.bit? at hbit
  unfold markPresent
  cases hplace : f.placement with
  | singular b =>
    simp only [hplace, Option.some.injEq] at hbit ⊢
    subst hbit
    exact Presence.test_insert hword
  | repeated packed => simp [hplace] at hbit
  | member oneof b =>
    simp only [hplace, Option.some.injEq] at hbit ⊢
    subst hbit
    exact Presence.test_insert hword

theorem Message.getD_cases_markPresent (honeof : ∀ oneof ∈ f.oneof?, oneof < m.cases.length)
    (oneof : Nat) :
    (m.markPresent f).cases.getD oneof 0 =
      if f.oneof? = some oneof then f.number else m.cases.getD oneof 0 := by
  unfold Field.oneof? at honeof ⊢
  unfold markPresent
  cases hplace : f.placement with
  | singular b | repeated packed => simp
  | member index b =>
    simp only [hplace] at honeof ⊢
    rw [getD_set (honeof index rfl)]
    simp

theorem Message.oneofBit?_eq_some (h : oneofBit? L oneof = some bit) :
    ∃ f ∈ L.fields, f.oneof? = some oneof ∧ f.bit? = some bit := by
  obtain ⟨f, hf, hbit⟩ := List.exists_of_findSome?_eq_some h
  refine ⟨f, hf, ?_⟩
  unfold Field.oneof? Field.bit?
  cases hplace : f.placement with
  | singular b | repeated packed => simp [hplace] at hbit
  | member index b =>
    simp only [hplace, Option.ite_none_right_eq_some, Option.some.injEq] at hbit
    simp [hbit]

theorem Message.oneofBit?_eq_none (h : oneofBit? L oneof = none) :
    ∀ f ∈ L.fields, f.oneof? ≠ some oneof := by
  intro f hf
  have hbit := List.findSome?_eq_none_iff.1 h f hf
  unfold Field.oneof?
  cases hplace : f.placement with
  | singular b | repeated packed => simp
  | member index b => simpa [hplace] using hbit

theorem Message.cases_clearOneof (oneof : Nat) :
    (m.clearOneof S L oneof).cases = m.cases.set oneof 0 := by
  unfold clearOneof
  split <;> rfl

theorem Message.presence_clearOneof (oneof : Nat) :
    (m.clearOneof S L oneof).presence =
      match oneofBit? L oneof with
      | some bit => m.presence.erase bit
      | none => m.presence := by
  unfold clearOneof
  split <;> rfl

theorem Message.getD_cases_clearOneof (oneof index : Nat) :
    (m.clearOneof S L oneof).cases.getD index 0 =
      if oneof = index then 0 else m.cases.getD index 0 := by
  rw [cases_clearOneof]
  by_cases h : oneof < m.cases.length
  · exact getD_set h 0
  · rw [List.set_eq_of_length_le (Nat.le_of_not_lt h)]
    split
    · rename_i heq
      subst heq
      rw [List.getD_eq_getElem?_getD, List.getElem?_eq_none (Nat.le_of_not_lt h)]
      rfl
    · rfl

end Marks

/-! ### Nothing set -/

/-- No bit is set, and no oneof has a case. -/
structure Message.Unset (m : Message) : Prop where
  bits : ∀ bit, m.presence.test bit = false
  cases : ∀ oneof, m.cases.getD oneof 0 = 0

theorem Message.Unset.isMarked (h : m.Unset) (hf : f.number ≠ 0) :
    f.isMarked m.presence m.cases = false := by
  unfold Field.isMarked
  split
  · exact h.bits _
  · rfl
  · rw [h.cases]
    exact beq_false_of_ne hf.symm

theorem Layout.unset_blank (L : Layout) : L.blank.Unset where
  bits := fun _ => Presence.test_none _
  cases := by
    intro oneof
    simp only [Layout.blank, List.getD_eq_getElem?_getD, List.getElem?_replicate]
    split <;> rfl

theorem Message.unset_clear (S : Schema) (L : Layout) (m : Message) : (m.clear S L).Unset := by
  obtain ⟨_, cases, _⟩ := m
  unfold Message.clear
  refine ⟨fun _ => Presence.test_map_zero, fun oneof => ?_⟩
  simp only [List.getD_eq_getElem?_getD, List.getElem?_map]
  cases cases[oneof]? <;> rfl

/-! ### Coherence is kept -/

namespace Message.Coherent

variable {S : Schema} {L : Layout} {g : Field}

/-- Coherence is about bits and cases alone. -/
theorem congr {m' : Message} (h : m.Coherent L) (hpresence : m'.presence = m.presence)
    (hcases : m'.cases = m.cases) : m'.Coherent L := by
  constructor
  · rw [hpresence]
    exact h.presence_length
  · rw [hcases]
    exact h.cases_length
  · rw [hcases]
    exact h.case_member
  · rw [hpresence, hcases]
    exact h.bit_owner
  · rw [hpresence, hcases]
    exact h.bit_set

theorem of_unset (hL : L.Valid) (hpresence : m.presence.length = L.words)
    (hcases : m.cases.length = L.oneofs.length) (h : m.Unset) : m.Coherent L where
  presence_length := hpresence
  cases_length := hcases
  case_member := fun oneof hne => absurd (h.cases oneof) hne
  bit_owner := by
    intro bit hset
    rw [h.bits] at hset
    cases hset
  bit_set := by
    intro f hf hmarked
    rw [h.isMarked (hL.number_pos f hf)] at hmarked
    cases hmarked

theorem blank (hL : L.Valid) : L.blank.Coherent L :=
  of_unset hL List.length_replicate List.length_replicate L.unset_blank

theorem word_lt (h : m.Coherent L) (hL : L.Valid) (hf : f ∈ L.fields) (hbit : f.bit? = some bit) :
    bit.word < m.presence.length := by
  rw [h.presence_length]
  exact hL.word_lt f hf bit hbit

theorem oneof_lt (h : m.Coherent L) (hL : L.Valid) (hf : f ∈ L.fields) :
    ∀ oneof ∈ f.oneof?, oneof < m.cases.length := by
  rw [h.cases_length]
  exact hL.oneof_lt f hf

theorem isMarked_markPresent_self (h : m.Coherent L) (hL : L.Valid) (hf : f ∈ L.fields)
    (hbit : f.bit? = some bit) :
    f.isMarked (m.markPresent f).presence (m.markPresent f).cases = true := by
  cases honeof : f.oneof? with
  | none =>
    have hword := h.word_lt hL hf hbit
    simp [Field.isMarked_singular honeof hbit, test_markPresent hbit hword]
  | some oneof =>
    have hlt := h.oneof_lt hL hf
    rw [Field.isMarked_member honeof, getD_cases_markPresent hlt, if_pos honeof, beq_self_eq_true]

/-- A field that becomes present takes the marks of other members of its oneof alone. -/
theorem isMarked_markPresent (h : m.Coherent L) (hL : L.Valid) (hf : f ∈ L.fields)
    (hg : g ∈ L.fields) (hne : f.number ≠ g.number) :
    g.isMarked (m.markPresent f).presence (m.markPresent f).cases =
      (decide (f.oneof? = none ∨ f.oneof? ≠ g.oneof?) && g.isMarked m.presence m.cases) := by
  cases hbit : f.bit? with
  | none =>
    have honeof : f.oneof? = none := Field.oneof?_of_repeated hbit
    rw [markPresent_of_repeated hbit]
    simp [honeof]
  | some bit =>
    have hword := h.word_lt hL hf hbit
    have hlt := h.oneof_lt hL hf
    cases hgo : g.oneof? with
    | some oneof =>
      rw [Field.isMarked_member hgo, Field.isMarked_member hgo, getD_cases_markPresent hlt]
      by_cases hsame : f.oneof? = some oneof
      · simp [hsame, hne]
      · simp [hsame]
    | none =>
      cases hgbit : g.bit? with
      | none => simp [Field.isMarked_repeated hgbit]
      | some bit' =>
        have hother : bit ≠ bit' := by
          rintro rfl
          rcases hL.bit_eq f hf g hg bit hbit hgbit with hnumber | ⟨hshare, hsome⟩
          · exact hne hnumber
          · exact hsome (hshare.trans hgo)
        rw [Field.isMarked_singular hgo hgbit, Field.isMarked_singular hgo hgbit,
          test_markPresent hbit hword, decide_eq_false hother]
        cases f.oneof? <;> simp

/-- A field that becomes present takes its bit, and the case of its oneof. -/
theorem markPresent (h : m.Coherent L) (hL : L.Valid) (hf : f ∈ L.fields) :
    (m.markPresent f).Coherent L := by
  cases hbit : f.bit? with
  | none =>
    rw [markPresent_of_repeated hbit]
    exact h
  | some bit =>
    have hword := h.word_lt hL hf hbit
    have hlt := h.oneof_lt hL hf
    have htest := fun bit' => test_markPresent hbit hword bit'
    have hcase := fun oneof => getD_cases_markPresent hlt oneof
    refine ⟨?_, ?_, ?_, ?_, ?_⟩
    · rw [length_presence_markPresent]
      exact h.presence_length
    · rw [length_cases_markPresent]
      exact h.cases_length
    · intro oneof
      rw [hcase]
      split
      · rename_i honeof
        exact fun _ => ⟨f, hf, honeof, rfl⟩
      · exact h.case_member oneof
    · intro bit' hset
      by_cases hsame : bit = bit'
      · exact ⟨f, hf, hsame ▸ hbit, isMarked_markPresent_self h hL hf hbit⟩
      · rw [htest, decide_eq_false hsame, Bool.false_or] at hset
        obtain ⟨g, hg, hgbit, hmarked⟩ := h.bit_owner bit' hset
        refine ⟨g, hg, hgbit, ?_⟩
        cases honeof : g.oneof? with
        | none => rw [Field.isMarked_singular honeof hgbit, htest, hset, Bool.or_true]
        | some oneof =>
          have hother : f.oneof? ≠ some oneof := by
            intro hfo
            have := hL.oneof_eq f hf g hg oneof hfo honeof
            rw [hbit, hgbit, Option.some.injEq] at this
            exact hsame this
          rw [Field.isMarked_member honeof] at hmarked ⊢
          rwa [hcase, if_neg hother]
    · intro g hg hmarked bit' hgbit
      rw [htest]
      cases honeof : g.oneof? with
      | none => rwa [Field.isMarked_singular honeof hgbit, htest] at hmarked
      | some oneof =>
        by_cases hfo : f.oneof? = some oneof
        · have := hL.oneof_eq f hf g hg oneof hfo honeof
          rw [hbit, Option.mem_def.1 hgbit, Option.some.injEq] at this
          simp [this]
        · rw [Field.isMarked_member honeof, hcase, if_neg hfo,
            ← Field.isMarked_member honeof m.presence] at hmarked
          rw [h.bit_set g hg hmarked bit' hgbit, Bool.or_true]

theorem test_clearOneof (hL : L.Valid) (hg : g ∈ L.fields) (hother : g.oneof? ≠ some oneof)
    (hbit : g.bit? = some bit) :
    (m.clearOneof S L oneof).presence.test bit = m.presence.test bit := by
  rw [presence_clearOneof]
  cases hobit : oneofBit? L oneof with
  | none => rfl
  | some obit =>
    obtain ⟨f, hf, hfo, hfbit⟩ := oneofBit?_eq_some hobit
    have hne : obit ≠ bit := by
      rintro rfl
      rcases hL.bit_eq f hf g hg obit hfbit hbit with hnumber | ⟨hshare, -⟩
      · exact hother (hL.field_eq hf hg hnumber ▸ hfo)
      · exact hother (hshare ▸ hfo)
    simp [Presence.test_erase, hne]

/-- Clearing a oneof takes the marks of its members alone. -/
theorem isMarked_clearOneof (hL : L.Valid) (hg : g ∈ L.fields) (oneof : Nat) :
    g.isMarked (m.clearOneof S L oneof).presence (m.clearOneof S L oneof).cases =
      (decide (g.oneof? ≠ some oneof) && g.isMarked m.presence m.cases) := by
  cases honeof : g.oneof? with
  | none =>
    cases hbit : g.bit? with
    | none => simp [Field.isMarked_repeated hbit]
    | some bit =>
      rw [Field.isMarked_singular honeof hbit, Field.isMarked_singular honeof hbit,
        test_clearOneof hL hg (by simp [honeof]) hbit]
      simp
  | some index =>
    rw [Field.isMarked_member honeof, Field.isMarked_member honeof, getD_cases_clearOneof]
    by_cases h : oneof = index
    · simp [h, (hL.number_pos g hg).symm]
    · simp [h, Ne.symm h]

/-- A oneof that is cleared gives up its bit and its case. -/
theorem clearOneof (h : m.Coherent L) (hL : L.Valid) (oneof : Nat) :
    (m.clearOneof S L oneof).Coherent L := by
  refine ⟨?_, ?_, ?_, ?_, ?_⟩
  · rw [presence_clearOneof, ← h.presence_length]
    split <;> simp
  · rw [cases_clearOneof, List.length_set]
    exact h.cases_length
  · intro index
    rw [getD_cases_clearOneof]
    split
    · exact fun hne => absurd rfl hne
    · exact h.case_member index
  · intro bit hset
    have hbefore : m.presence.test bit = true ∧ ∀ obit, oneofBit? L oneof = some obit → obit ≠ bit := by
      rw [presence_clearOneof] at hset
      cases hobit : oneofBit? L oneof with
      | none =>
        simp only [hobit] at hset
        exact ⟨hset, nofun⟩
      | some obit =>
        simp only [hobit, Presence.test_erase, Bool.and_eq_true, decide_eq_true_eq] at hset
        refine ⟨hset.2, ?_⟩
        rintro _ ⟨⟩
        exact hset.1
    obtain ⟨g, hg, hgbit, hmarked⟩ := h.bit_owner bit hbefore.1
    refine ⟨g, hg, hgbit, ?_⟩
    rw [isMarked_clearOneof hL hg, hmarked, Bool.and_true, decide_eq_true_eq]
    intro honeof
    -- a member of the oneof would own the bit that was cleared
    cases hobit : oneofBit? L oneof with
    | none => exact oneofBit?_eq_none hobit g hg honeof
    | some obit =>
      obtain ⟨f, hf, hfo, hfbit⟩ := oneofBit?_eq_some hobit
      have := hL.oneof_eq f hf g hg oneof hfo honeof
      rw [hfbit, hgbit, Option.some.injEq] at this
      exact hbefore.2 obit hobit this
  · intro g hg hmarked bit hbit
    rw [isMarked_clearOneof hL hg, Bool.and_eq_true, decide_eq_true_eq] at hmarked
    rw [test_clearOneof hL hg hmarked.1 hbit]
    exact h.bit_set g hg hmarked.2 bit hbit

theorem clear (h : m.Coherent L) (hL : L.Valid) : (m.clear S L).Coherent L := by
  refine of_unset hL ?_ ?_ (m.unset_clear S L)
  · cases m
    simpa [Message.clear] using h.presence_length
  · cases m
    simpa [Message.clear] using h.cases_length

theorem eraseBit (h : m.Coherent L) (hL : L.Valid) (hf : f ∈ L.fields)
    (hplace : f.placement = .singular bit) :
    Coherent L { m with presence := m.presence.erase bit } := by
  have honeof : f.oneof? = none := by simp [Field.oneof?, hplace]
  have hbit : f.bit? = some bit := by simp [Field.bit?, hplace]
  refine ⟨by simpa using h.presence_length, h.cases_length, h.case_member, ?_, ?_⟩
  · intro bit' hset
    rw [Presence.test_erase, Bool.and_eq_true, decide_eq_true_eq] at hset
    obtain ⟨g, hg, hgbit, hmarked⟩ := h.bit_owner bit' hset.2
    refine ⟨g, hg, hgbit, ?_⟩
    cases hgo : g.oneof? with
    | none => simpa [Field.isMarked_singular hgo hgbit, Presence.test_erase] using hset
    | some oneof => rwa [Field.isMarked_member hgo] at hmarked ⊢
  · intro g hg hmarked bit' hgbit
    cases hgo : g.oneof? with
    | none => rwa [Field.isMarked_singular hgo hgbit] at hmarked
    | some oneof =>
      have hne : bit ≠ bit' := by
        rintro rfl
        rcases hL.bit_eq f hf g hg bit hbit hgbit with hnumber | ⟨-, hsome⟩
        · rw [hL.field_eq hf hg hnumber, hgo] at honeof
          cases honeof
        · exact hsome honeof
      rw [Field.isMarked_member hgo, ← Field.isMarked_member hgo m.presence] at hmarked
      simp [Presence.test_erase, hne, h.bit_set g hg hmarked bit' hgbit]

end Message.Coherent

end ProtoWire
