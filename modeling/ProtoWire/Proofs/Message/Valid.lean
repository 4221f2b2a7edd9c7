import ProtoWire.Proofs.Message.Route

/-!
# Valid layouts

* `Layout.Valid`: fields share neither tags nor numbers nor, unless they are members of one oneof,
  bits.
* `Conformance.valid`: the layouts of the conformance schema are valid.
-/

namespace ProtoWire

/-- The presence bit of a field that has one. -/
def Field.bit? (f : Field) : Option PresenceBit :=
  match f.placement with
  | .singular bit | .member _ bit => some bit
  | .repeated _ => none

/-- The oneof of a member. -/
def Field.oneof? (f : Field) : Option Nat :=
  match f.placement with
  | .member oneof _ => some oneof
  | .singular _ | .repeated _ => none

/-- What is asked of the fields of a message. -/
structure Layout.Valid (L : Layout) : Prop where
  routed : L.Routed
  numbers : (L.fields.map Field.number).Nodup
  number_pos : ∀ f ∈ L.fields, f.number ≠ 0
  number_lt : ∀ f ∈ L.fields, f.number < 0x20000000
  word_lt : ∀ f ∈ L.fields, ∀ bit ∈ f.bit?, bit.word < L.words
  oneof_lt : ∀ f ∈ L.fields, ∀ oneof ∈ f.oneof?, oneof < L.oneofs.length
  /-- A bit is shared inside a oneof alone. -/
  bit_eq : ∀ f ∈ L.fields, ∀ g ∈ L.fields, ∀ bit ∈ f.bit?, g.bit? = some bit →
    f.number = g.number ∨ f.oneof? = g.oneof? ∧ f.oneof? ≠ none
  /-- The members of a oneof share a bit. -/
  oneof_eq : ∀ f ∈ L.fields, ∀ g ∈ L.fields, ∀ oneof ∈ f.oneof?, g.oneof? = some oneof →
    f.bit? = g.bit?
  /-- What is packed can be packed. -/
  packed : ∀ f ∈ L.fields, f.placement.cardinality.isPacked = true →
    f.element.category.isPackable = true

/-- All layouts are valid. -/
abbrev Schema.Valid (S : Schema) : Prop :=
  ∀ type, (S.layout type).Valid

theorem Conformance.valid (type : TypeId) : (schema.layout type).Valid := by
  have hnumbers : ∀ L ∈ schema.layouts, (L.fields.map Field.number).Nodup := by decide
  have hpos : ∀ L ∈ schema.layouts, ∀ f ∈ L.fields, f.number ≠ 0 := by decide
  have hlt : ∀ L ∈ schema.layouts, ∀ f ∈ L.fields, f.number < 0x20000000 := by decide
  have hword : ∀ L ∈ schema.layouts, ∀ f ∈ L.fields, ∀ bit ∈ f.bit?, bit.word < L.words := by
    decide
  have honeof : ∀ L ∈ schema.layouts, ∀ f ∈ L.fields, ∀ oneof ∈ f.oneof?,
      oneof < L.oneofs.length := by
    decide
  have hbit : ∀ L ∈ schema.layouts, ∀ f ∈ L.fields, ∀ g ∈ L.fields, ∀ bit ∈ f.bit?,
      g.bit? = some bit → f.number = g.number ∨ f.oneof? = g.oneof? ∧ f.oneof? ≠ none := by
    decide +kernel
  have hshare : ∀ L ∈ schema.layouts, ∀ f ∈ L.fields, ∀ g ∈ L.fields, ∀ oneof ∈ f.oneof?,
      g.oneof? = some oneof → f.bit? = g.bit? := by
    decide +kernel
  have hpacked : ∀ L ∈ schema.layouts, ∀ f ∈ L.fields,
      f.placement.cardinality.isPacked = true → f.element.category.isPackable = true := by
    decide
  rcases schema.layout_cases type with h | h
  · exact ⟨routed type, hnumbers _ h, hpos _ h, hlt _ h, hword _ h, honeof _ h, hbit _ h,
      hshare _ h, hpacked _ h⟩
  · have hrouted := routed type
    rw [h] at hrouted ⊢
    exact ⟨hrouted, List.nodup_nil, nofun, nofun, nofun, nofun, nofun, nofun, nofun⟩

theorem Layout.Valid.eq_of_number_eq {L : Layout} (hL : L.Valid) {i j : Nat} {f g : Field}
    (hf : L.fields[i]? = some f) (hg : L.fields[j]? = some g) (h : f.number = g.number) : i = j := by
  have hnodup : (L.fields.filterMap (some ∘ Field.number)).Nodup := by
    rw [List.filterMap_eq_map]
    exact hL.numbers
  exact eq_of_nodup_filterMap hnodup hf hg rfl (congrArg some h.symm)

theorem Layout.Valid.field_eq {L : Layout} (hL : L.Valid) {f g : Field} (hf : f ∈ L.fields)
    (hg : g ∈ L.fields) (h : f.number = g.number) : f = g := by
  obtain ⟨i, hi⟩ := List.mem_iff_getElem?.1 hf
  obtain ⟨j, hj⟩ := List.mem_iff_getElem?.1 hg
  rw [← hL.eq_of_number_eq hi hj h, hi] at hj
  exact Option.some.inj hj

end ProtoWire
