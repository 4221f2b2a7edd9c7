import ProtoWire.Proofs.Field.Presence

/-!
# Bits are dealt out densely and apart

* `BitSupply.Dealt`: what holds while bits are dealt out. `BitSupply.Dealt.take` is the step.
* `BitAllocation.Apart`: each field that has a bit can be set and cleared without a change to any
  other, the members of one oneof apart.
* `allocated_bits_apart`: this holds of every list of fields.
-/

namespace ProtoWire

variable {count : Nat} {bits : List (Option PresenceBit)} {bit : PresenceBit}

/-- Repeated fields have no bit, nor have members of a oneof that is not declared. -/
def Cardinality.HasBit (oneofCount : Nat) : Cardinality → Prop
  | .singular => True
  | .repeated _ => False
  | .oneof index => index < oneofCount

/-- The indices of bits in the order of their first use. -/
def firstUses (bits : List (Option PresenceBit)) : List Nat :=
  (bits.reduceOption.map PresenceBit.index).eraseDups

theorem mem_firstUses {index : Nat} : index ∈ firstUses bits ↔ some ⟨index⟩ ∈ bits := by
  simp only [firstUses, List.mem_eraseDups, List.mem_map, List.reduceOption_mem_iff]
  constructor
  · rintro ⟨bit, hbit, rfl⟩
    exact hbit
  · intro h
    exact ⟨_, h, rfl⟩

theorem eraseDups_append_singleton {α : Type} [DecidableEq α] (l : List α) (a : α) :
    (l ++ [a]).eraseDups = if a ∈ l then l.eraseDups else l.eraseDups ++ [a] := by
  rw [List.eraseDups_append]
  by_cases h : a ∈ l <;> simp [List.removeAll, List.eraseDups_cons, h]

theorem firstUses_append_none : firstUses (bits ++ [none]) = firstUses bits := by
  simp [firstUses, List.reduceOption_append]

theorem firstUses_append_some : firstUses (bits ++ [some bit]) =
    if some bit ∈ bits then firstUses bits else firstUses bits ++ [bit.index] := by
  have hmem : bit.index ∈ bits.reduceOption.map PresenceBit.index ↔ some bit ∈ bits :=
    List.mem_eraseDups.symm.trans mem_firstUses
  rw [firstUses, List.reduceOption_append, List.map_append]
  refine (eraseDups_append_singleton _ _).trans ?_
  simp only [hmem, firstUses]

/-! ### Dealing out -/

/-- Two fields share no bit, unless they are members of one oneof. -/
def Separate (d e : Cardinality × Option PresenceBit) : Prop :=
  ∀ bit, d.2 = some bit → e.2 = some bit → ∃ index, d.1 = .oneof index ∧ e.1 = .oneof index

instance : Std.Symm Separate where
  symm d e h bit he hd := by
    obtain ⟨index, hindex⟩ := h bit hd he
    exact ⟨index, hindex.symm⟩

/-- What holds of fields with their bits, in order, and of the supply that is left. -/
structure BitSupply.Dealt (count : Nat) (dealt : List (Cardinality × Option PresenceBit))
    (supply : BitSupply) : Prop where
  length_oneofs : supply.oneofs.length = count
  isSome_iff : ∀ d ∈ dealt, d.2.isSome ↔ d.1.HasBit count
  oneof_iff : ∀ index bit,
    supply.oneofs[index]? = some (some bit) ↔ (.oneof index, some bit) ∈ dealt
  firstUses_eq : firstUses (dealt.map Prod.snd) = List.range supply.next
  separate : dealt.Pairwise Separate

namespace BitSupply.Dealt

variable {dealt : List (Cardinality × Option PresenceBit)} {supply : BitSupply} {c : Cardinality}

theorem start (count : Nat) : Dealt count [] ⟨0, List.replicate count none⟩ where
  length_oneofs := List.length_replicate
  isSome_iff := List.forall_mem_nil _
  oneof_iff := by simp [List.getElem?_replicate]
  firstUses_eq := rfl
  separate := .nil

variable (h : Dealt count dealt supply)

include h

/-- The bits in use are those below the next one. -/
theorem lt_next_iff : bit.index < supply.next ↔ ∃ c, (c, some bit) ∈ dealt := by
  rw [← List.mem_range, ← h.firstUses_eq, mem_firstUses, List.mem_map]
  simp

theorem notMem_next (c : Cardinality) : (c, some ⟨supply.next⟩) ∉ dealt := by
  intro hc
  exact Nat.lt_irrefl _ (h.lt_next_iff.2 ⟨c, hc⟩)

/-- What shares a bit with a member is a member of the same oneof. -/
theorem eq_of_oneof {index : Nat} (hc : (c, some bit) ∈ dealt)
    (hmember : (.oneof index, some bit) ∈ dealt) : c = .oneof index := by
  by_contra hne
  obtain ⟨i, rfl, hi⟩ := h.separate.forall hc hmember (by simpa using hne) bit rfl rfl
  exact hne hi.symm

theorem pass (hc : ¬ c.HasBit count) : Dealt count (dealt ++ [(c, none)]) supply where
  length_oneofs := h.length_oneofs
  isSome_iff := List.forall_mem_append.2 ⟨h.isSome_iff, by simpa using hc⟩
  oneof_iff := by simpa using h.oneof_iff
  firstUses_eq := by
    rw [List.map_append]
    exact firstUses_append_none.trans h.firstUses_eq
  separate := List.pairwise_append.2 ⟨h.separate, List.pairwise_singleton _ _, by simp [Separate]⟩

/-- A field that gets a bit of its own, and its oneof with it. -/
theorem fresh (hc : c.HasBit count) {oneofs : List (Option PresenceBit)}
    (hlength : oneofs.length = count) (honeofs : ∀ index bit, oneofs[index]? = some (some bit) ↔
      supply.oneofs[index]? = some (some bit) ∨ c = .oneof index ∧ bit = ⟨supply.next⟩) :
    Dealt count (dealt ++ [(c, some ⟨supply.next⟩)]) ⟨supply.next + 1, oneofs⟩ where
  length_oneofs := hlength
  isSome_iff := List.forall_mem_append.2 ⟨h.isSome_iff, by simpa using hc⟩
  oneof_iff := by
    intro index bit
    rw [honeofs, h.oneof_iff, List.mem_append, List.mem_singleton, Prod.mk.injEq, eq_comm,
      Option.some.injEq]
  firstUses_eq := by
    have hnew : some ⟨supply.next⟩ ∉ dealt.map Prod.snd := by simpa using h.notMem_next
    rw [List.map_append, List.range_succ, ← h.firstUses_eq]
    exact firstUses_append_some.trans (if_neg hnew)
  separate := by
    refine List.pairwise_append.2 ⟨h.separate, List.pairwise_singleton _ _, ?_⟩
    rintro ⟨d, _⟩ hd _ he bit rfl hbit
    obtain rfl := List.mem_singleton.1 he
    cases hbit
    exact absurd hd (h.notMem_next d)

/-- A further member of a oneof. -/
theorem shared {index : Nat} (hbit : supply.oneofs[index]? = some (some bit)) :
    Dealt count (dealt ++ [(.oneof index, some bit)]) supply where
  length_oneofs := h.length_oneofs
  isSome_iff := by
    refine List.forall_mem_append.2 ⟨h.isSome_iff, List.forall_mem_singleton.2 (iff_of_true rfl ?_)⟩
    exact h.length_oneofs ▸ (List.getElem?_eq_some_iff.1 hbit).1
  oneof_iff := by
    intro index' bit'
    rw [h.oneof_iff, List.mem_append, List.mem_singleton, or_iff_left_of_imp]
    rintro ⟨⟩
    exact (h.oneof_iff _ _).1 hbit
  firstUses_eq := by
    rw [List.map_append]
    have hmem : some bit ∈ dealt.map Prod.snd :=
      List.mem_map_of_mem (f := Prod.snd) ((h.oneof_iff _ _).1 hbit)
    exact (firstUses_append_some.trans (if_pos hmem)).trans h.firstUses_eq
  separate := by
    refine List.pairwise_append.2 ⟨h.separate, List.pairwise_singleton _ _, ?_⟩
    rintro ⟨d, _⟩ hd _ he bit' rfl hbit'
    obtain rfl := List.mem_singleton.1 he
    cases hbit'
    exact ⟨index, h.eq_of_oneof hd ((h.oneof_iff _ _).1 hbit), rfl⟩

/-- One more field. -/
theorem take (c : Cardinality) :
    Dealt count (dealt ++ [(c, (supply.take c).1)]) (supply.take c).2 := by
  cases c with
  | singular => exact h.fresh (c := .singular) trivial h.length_oneofs (by simp)
  | repeated packed => exact h.pass (c := .repeated packed) id
  | oneof index =>
    simp only [BitSupply.take]
    split
    next hnone =>
      refine h.pass (c := .oneof index) (Nat.not_lt.2 ?_)
      exact h.length_oneofs ▸ List.getElem?_eq_none_iff.1 hnone
    next bit hbit => exact h.shared hbit
    next hunset =>
      obtain ⟨hlt, hget⟩ := List.getElem?_eq_some_iff.1 hunset
      have hset : (supply.oneofs.set index (some ⟨supply.next⟩)).length = count :=
        List.length_set.trans h.length_oneofs
      refine h.fresh (c := .oneof index) (h.length_oneofs ▸ hlt) hset fun index' bit => ?_
      rw [List.getElem?_set]
      by_cases hindex : index = index'
      · subst hindex
        simp [hlt, hget, eq_comm]
      · simp [hindex]

/-- By induction on the fields that are left. -/
theorem takeAll (cs : List Cardinality) :
    Dealt count (dealt ++ cs.zip (supply.takeAll cs).1) (supply.takeAll cs).2 := by
  induction cs generalizing dealt supply with
  | nil => simpa [BitSupply.takeAll] using h
  | cons c cs ih =>
    have hrest := ih (h.take c)
    rwa [List.append_assoc] at hrest

theorem eq_iff {i j : Nat} {d : Cardinality} {bit' : PresenceBit} (hij : i ≠ j)
    (hi : dealt[i]? = some (c, some bit)) (hj : dealt[j]? = some (d, some bit')) :
    bit = bit' ↔ ∃ index, c = .oneof index ∧ d = .oneof index := by
  constructor
  · rintro rfl
    obtain ⟨hi', hc⟩ := List.getElem?_eq_some_iff.1 hi
    obtain ⟨hj', hd⟩ := List.getElem?_eq_some_iff.1 hj
    have hseparate := List.pairwise_iff_getElem.1 h.separate
    rcases Nat.lt_or_gt_of_ne hij with hlt | hlt
    · exact (hc ▸ hd ▸ hseparate i j hi' hj' hlt) bit rfl rfl
    · exact (hc ▸ hd ▸ symm (hseparate j i hj' hi' hlt)) bit rfl rfl
  · rintro ⟨index, rfl, rfl⟩
    have hbit := (h.oneof_iff _ _).2 (List.mem_of_getElem? hi)
    have hbit' := (h.oneof_iff _ _).2 (List.mem_of_getElem? hj)
    exact Option.some.inj (Option.some.inj (hbit.symm.trans hbit'))

theorem oneof_none_iff {index : Nat} :
    supply.oneofs[index]? = some none ↔ index < count ∧ .oneof index ∉ dealt.map Prod.fst := by
  rw [← h.length_oneofs]
  constructor
  · intro hnone
    refine ⟨(List.getElem?_eq_some_iff.1 hnone).1, fun hmem => ?_⟩
    obtain ⟨⟨_, bit?⟩, hmember, rfl⟩ := List.mem_map.1 hmem
    have hlt : index < count := h.length_oneofs ▸ (List.getElem?_eq_some_iff.1 hnone).1
    obtain ⟨bit, rfl⟩ := Option.isSome_iff_exists.1 ((h.isSome_iff _ hmember).2 hlt)
    cases hnone.symm.trans ((h.oneof_iff _ _).2 hmember)
  · rintro ⟨hlt, hnone⟩
    rw [List.getElem?_eq_getElem hlt]
    cases hbit : supply.oneofs[index] with
    | none => rfl
    | some bit =>
      have hmember := (h.oneof_iff _ _).1 (List.getElem?_eq_some_iff.2 ⟨hlt, hbit⟩)
      exact absurd (List.mem_map_of_mem (f := Prod.fst) hmember) hnone

end BitSupply.Dealt

/-! ### The allocation -/

/-- Bits that are dense, and apart but for the members of one oneof. -/
structure BitAllocation.Apart (cardinalities : List Cardinality) (oneofCount : Nat)
    (bits : BitAllocation) : Prop where
  length_fields : bits.fields.length = cardinalities.length
  length_oneofs : bits.oneofs.length = oneofCount
  isSome_iff : ∀ (i : Nat) (c : Cardinality) (bit? : Option PresenceBit),
    cardinalities[i]? = some c → bits.fields[i]? = some bit? →
    (bit?.isSome ↔ c.HasBit oneofCount)
  /-- Two fields have the same bit if and only if they are members of the same oneof. -/
  eq_iff : ∀ (i j : Nat) (c d : Cardinality) (bit bit' : PresenceBit), i ≠ j →
    cardinalities[i]? = some c → cardinalities[j]? = some d →
    bits.fields[i]? = some (some bit) → bits.fields[j]? = some (some bit') →
    (bit = bit' ↔ ∃ index, c = .oneof index ∧ d = .oneof index)
  /-- The bit of a oneof is that of each member. -/
  oneof_iff : ∀ (index : Nat) (bit : PresenceBit), bits.oneofs[index]? = some (some bit) ↔
    ∃ i : Nat, cardinalities[i]? = some (.oneof index) ∧ bits.fields[i]? = some (some bit)
  oneof_none_iff : ∀ index : Nat, bits.oneofs[index]? = some none ↔
    index < oneofCount ∧ .oneof index ∉ cardinalities
  dense : ∃ n, firstUses bits.fields = List.range n ∧ bits.wordCount = n ⌈/⌉ 32
  word_lt : ∀ bit, some bit ∈ bits.fields → bit.word < bits.wordCount
  /-- Setting or clearing a bit changes that bit, and no other. -/
  independent : ∀ (p : Presence) bit, p.length = bits.wordCount → some bit ∈ bits.fields →
    (p.insert bit).test bit = true ∧ (p.erase bit).test bit = false ∧
      ∀ bit', some bit' ∈ bits.fields → bit' ≠ bit →
        (p.insert bit).test bit' = p.test bit' ∧ (p.erase bit).test bit' = p.test bit'

theorem BitSupply.dealt_allocate (cardinalities : List Cardinality) (oneofCount : Nat) :
    ∃ supply : BitSupply,
      Dealt oneofCount (cardinalities.zip (allocate cardinalities oneofCount).fields) supply ∧
      (allocate cardinalities oneofCount).oneofs = supply.oneofs ∧
      (allocate cardinalities oneofCount).wordCount = supply.next ⌈/⌉ 32 :=
  ⟨_, (Dealt.start oneofCount).takeAll cardinalities, rfl, rfl⟩

theorem PresenceBit.word_lt_of_index_lt {n : Nat} (h : bit.index < n) : bit.word < n ⌈/⌉ 32 := by
  rw [Nat.ceilDiv_eq_add_pred_div, PresenceBit.word]
  omega

/-- The bits of fields and oneofs are dense, and apart but for the members of one oneof. -/
theorem allocated_bits_apart (cardinalities : List Cardinality) (oneofCount : Nat) :
    (allocate cardinalities oneofCount).Apart cardinalities oneofCount := by
  obtain ⟨supply, h, honeofs, hcount⟩ := BitSupply.dealt_allocate cardinalities oneofCount
  have hlength := length_allocate cardinalities oneofCount
  generalize allocate cardinalities oneofCount = bits at *
  have hfst := List.map_fst_zip (Nat.le_of_eq hlength.symm)
  have hsnd := List.map_snd_zip (Nat.le_of_eq hlength)
  have hzip {i c b} (hc : cardinalities[i]? = some c) (hb : bits.fields[i]? = some b) :
      (cardinalities.zip bits.fields)[i]? = some (c, b) :=
    List.getElem?_zip_eq_some.2 ⟨hc, hb⟩
  have hword : ∀ bit, some bit ∈ bits.fields → bit.word < bits.wordCount := by
    intro bit hbit
    rw [← hsnd, ← mem_firstUses, h.firstUses_eq, List.mem_range] at hbit
    exact hcount ▸ PresenceBit.word_lt_of_index_lt hbit
  exact {
    length_fields := hlength
    length_oneofs := honeofs ▸ h.length_oneofs
    isSome_iff := fun i c bit? hc hbit => h.isSome_iff _ (List.mem_of_getElem? (hzip hc hbit))
    eq_iff := fun i j c d bit bit' hij hc hd hi hj => h.eq_iff hij (hzip hc hi) (hzip hd hj)
    oneof_iff := fun index bit => by
      rw [honeofs, h.oneof_iff, List.mem_iff_getElem?]
      exact exists_congr fun i => List.getElem?_zip_eq_some
    oneof_none_iff := fun index => by rw [honeofs, h.oneof_none_iff, hfst]
    dense := ⟨supply.next, by rw [← h.firstUses_eq, hsnd], hcount⟩
    word_lt := hword
    independent := fun p bit hp hbit => by
      have hinsert (bit' : PresenceBit) :
          (p.insert bit).test bit' = (decide (bit = bit') || p.test bit') :=
        Presence.test_insert (hp.symm ▸ hword bit hbit)
      refine ⟨by simp [hinsert], by simp [Presence.test_erase], fun bit' _ hne => ?_⟩
      simp [hinsert, Presence.test_erase, hne.symm] }

end ProtoWire
