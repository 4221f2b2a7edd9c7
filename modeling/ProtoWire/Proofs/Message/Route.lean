import Mathlib
import ProtoWire.Message.Conformance

/-!
# The field of a tag

* `Layout.Routed`: no two fields share a tag. The layouts of the conformance schema are so.
-/

namespace ProtoWire

variable {p : PlacedField} {tag : UInt32} {L : Layout}

/-- How the payload of a record is read. -/
inductive Form where
  /-- The value of a singular field. -/
  | value
  /-- One value of a repeated field. -/
  | element
  /-- A packed run of values of a repeated field. -/
  | run

namespace Field

/-- Whether a field has any number of values. -/
def isRepeated (f : Field) : Bool :=
  f.strategy.cardinality.isRepeated

/-- How a record with the primary tag is read. -/
def primaryForm (f : Field) : Form :=
  match f.placement with
  | .repeated true => .run
  | .repeated false => .element
  | .singular _ | .member _ _ => .value

/-- How a record with the alternate tag is read. -/
def alternateForm (f : Field) : Form :=
  match f.placement with
  | .repeated true => .element
  | .repeated false | .singular _ | .member _ _ => .run

end Field

/-- The field a tag belongs to, and how the payload is read. -/
def Layout.route (L : Layout) (tag : UInt32) : Option (PlacedField × Form) :=
  match L.fields.zipIdx.find? fun p => p.1.primaryTag == tag with
  | some p => some (p, p.1.primaryForm)
  | none =>
    (L.fields.zipIdx.find? fun p => p.1.alternateTag? == some tag).map fun p =>
      (p, p.1.alternateForm)

theorem Layout.route_eq_some {form : Form} (h : L.route tag = some (p, form)) :
    L.fields[p.2]? = some p.1 ∧
      (p.1.primaryTag = tag ∧ form = p.1.primaryForm ∨
        p.1.alternateTag? = some tag ∧ form = p.1.alternateForm) := by
  unfold Layout.route at h
  cases hprimary : L.fields.zipIdx.find? (fun p => p.1.primaryTag == tag) with
  | some q =>
    rw [hprimary] at h
    cases h
    have htag := List.find?_some hprimary
    exact ⟨List.mem_zipIdx_iff_getElem?.1 (List.mem_of_find?_eq_some hprimary),
      .inl ⟨by simpa using htag, rfl⟩⟩
  | none =>
    simp only [hprimary, Option.map_eq_some_iff, Prod.mk.injEq] at h
    obtain ⟨q, hq, rfl, rfl⟩ := h
    have htag := List.find?_some hq
    exact ⟨List.mem_zipIdx_iff_getElem?.1 (List.mem_of_find?_eq_some hq),
      .inr ⟨by simpa using htag, rfl⟩⟩

theorem Field.alternateTag?_eq_some {f : Field} (h : f.alternateTag? = some tag) :
    ∃ packed, f.placement = .repeated packed ∧ f.element.category.isPackable = true ∧
      tag = Tag.make f.number (if packed then f.element.category.wireType else .len) := by
  obtain ⟨_, _, _, placement⟩ := f
  cases placement with
  | singular bit | member oneof bit => cases h
  | repeated packed =>
    simp only [Field.alternateTag?, Strategy.alternateTag?, Field.strategy, Placement.cardinality,
      Cardinality.isRepeated, Bool.true_and, Option.ite_none_right_eq_some] at h
    refine ⟨packed, rfl, h.1, ?_⟩
    cases packed <;> exact (Option.some.inj h.2).symm

theorem Layout.isRepeated_of_route {form : Form} (h : L.route tag = some (p, form)) :
    p.1.isRepeated = match form with | .value => false | .element | .run => true := by
  obtain ⟨-, ⟨-, rfl⟩ | ⟨htag, rfl⟩⟩ := L.route_eq_some h
  · obtain ⟨⟨_, _, _, placement⟩, i⟩ := p
    cases placement with
    | singular bit | member oneof bit => rfl
    | repeated packed => cases packed <;> rfl
  · obtain ⟨⟨⟩, _⟩ := p
    obtain ⟨packed, ⟨⟩, -⟩ := Field.alternateTag?_eq_some htag
    cases packed <;> rfl

/-! ### Tags of their own -/

/-- The tags that a message's fields are read from. -/
def Layout.tags (L : Layout) : List UInt32 :=
  L.fields.map Field.primaryTag ++ L.fields.filterMap Field.alternateTag?

/-- Each tag belongs to one field, and 0 to none. -/
structure Layout.Routed (L : Layout) : Prop where
  nodup : L.tags.Nodup
  zero_notMem : 0 ∉ L.tags

theorem eq_of_nodup_filterMap {α β : Type} {g : α → Option β} {xs : List α}
    (hnodup : (xs.filterMap g).Nodup) {i j : Nat} {a a' : α} {b : β} (hi : xs[i]? = some a)
    (hj : xs[j]? = some a') (ha : g a = some b) (ha' : g a' = some b) : i = j := by
  obtain ⟨hlti, rfl⟩ := List.getElem?_eq_some_iff.1 hi
  obtain ⟨hltj, rfl⟩ := List.getElem?_eq_some_iff.1 hj
  have hpair := List.pairwise_iff_getElem.1 (List.pairwise_filterMap.1 hnodup)
  rcases Nat.lt_trichotomy i j with hlt | heq | hlt
  · exact absurd rfl (hpair i j hlti hltj hlt b ha b ha')
  · exact heq
  · exact absurd rfl (hpair j i hltj hlti hlt b ha' b ha)

namespace Layout.Routed

variable (hL : L.Routed) (hp : p ∈ L.fields.zipIdx)

include hL hp

theorem eq_of_primaryTag_eq {p' : PlacedField}
    (hp' : p' ∈ L.fields.zipIdx) (h : p.1.primaryTag = p'.1.primaryTag) : p = p' := by
  rw [List.mem_zipIdx_iff_getElem?] at hp hp'
  have hnodup : (L.fields.filterMap (some ∘ Field.primaryTag)).Nodup := by
    rw [List.filterMap_eq_map]
    exact (List.nodup_append.1 hL.nodup).1
  have hindex := eq_of_nodup_filterMap hnodup hp hp' rfl (congrArg some h.symm)
  rw [← hindex, hp] at hp'
  exact Prod.ext (Option.some.inj hp') hindex

theorem eq_of_alternateTag_eq {p' : PlacedField} (hp' : p' ∈ L.fields.zipIdx)
    (h : p.1.alternateTag? = some tag) (h' : p'.1.alternateTag? = some tag) : p = p' := by
  rw [List.mem_zipIdx_iff_getElem?] at hp hp'
  have hindex := eq_of_nodup_filterMap (List.nodup_append.1 hL.nodup).2.1 hp hp' h h'
  rw [← hindex, hp] at hp'
  exact Prod.ext (Option.some.inj hp') hindex

theorem find?_primaryTag :
    L.fields.zipIdx.find? (fun q => q.1.primaryTag == p.1.primaryTag) = some p := by
  cases h : L.fields.zipIdx.find? (fun q => q.1.primaryTag == p.1.primaryTag) with
  | none =>
    rw [List.find?_eq_none] at h
    simpa using h p hp
  | some q =>
    have hq := List.find?_some h
    rw [hL.eq_of_primaryTag_eq (List.mem_of_find?_eq_some h) hp (by simpa using hq)]

theorem find?_alternateTag (htag : p.1.alternateTag? = some tag) :
    L.fields.zipIdx.find? (fun q => q.1.alternateTag? == some tag) = some p := by
  cases h : L.fields.zipIdx.find? (fun q => q.1.alternateTag? == some tag) with
  | none =>
    rw [List.find?_eq_none] at h
    simpa [htag] using h p hp
  | some q =>
    have hq := List.find?_some h
    rw [hL.eq_of_alternateTag_eq (List.mem_of_find?_eq_some h) hp (by simpa using hq) htag]

theorem route_primaryTag : L.route p.1.primaryTag = some (p, p.1.primaryForm) := by
  rw [Layout.route, hL.find?_primaryTag hp]

theorem route_alternateTag (htag : p.1.alternateTag? = some tag) :
    L.route tag = some (p, p.1.alternateForm) := by
  have hmem : p.1 ∈ L.fields := List.mem_of_getElem? (List.mem_zipIdx_iff_getElem?.1 hp)
  have hnone : L.fields.zipIdx.find? (fun q => q.1.primaryTag == tag) = none := by
    rw [List.find?_eq_none]
    intro q hq hprimary
    have hqmem : q.1 ∈ L.fields := List.mem_of_getElem? (List.mem_zipIdx_iff_getElem?.1 hq)
    refine (List.nodup_append.1 hL.nodup).2.2 q.1.primaryTag (List.mem_map_of_mem hqmem) tag
      (List.mem_filterMap.2 ⟨p.1, hmem, htag⟩) (by simpa using hprimary)
  rw [Layout.route, hnone]
  simp only [hL.find?_alternateTag hp htag, Option.map_some]

omit hp

theorem ne_zero_of_route {form : Form} (h : L.route tag = some (p, form)) : tag ≠ 0 := by
  rintro rfl
  refine hL.zero_notMem (List.mem_append.2 ?_)
  obtain ⟨hp, ⟨htag, -⟩ | ⟨htag, -⟩⟩ := L.route_eq_some h
  · exact .inl (List.mem_map.2 ⟨p.1, List.mem_of_getElem? hp, htag⟩)
  · exact .inr (List.mem_filterMap.2 ⟨p.1, List.mem_of_getElem? hp, htag⟩)

theorem route_zero : L.route 0 = none := by
  cases h : L.route 0 with
  | none => rfl
  | some target => exact absurd rfl (hL.ne_zero_of_route h)

end Layout.Routed

/-! ### The conformance schema -/

theorem Schema.layout_cases (S : Schema) (type : TypeId) :
    S.layout type ∈ S.layouts ∨ S.layout type = { name := "", fields := [], words := 0, oneofs := [] } := by
  unfold Schema.layout
  rw [List.getD_eq_getElem?_getD]
  cases h : S.layouts[type]? with
  | none => exact .inr rfl
  | some L => exact .inl (List.mem_of_getElem? h)

theorem Conformance.routed (type : TypeId) : (schema.layout type).Routed := by
  have hnodup : ∀ L ∈ schema.layouts, L.tags.Nodup := by decide
  have hzero : ∀ L ∈ schema.layouts, 0 ∉ L.tags := by decide
  rcases schema.layout_cases type with h | h
  · exact ⟨hnodup _ h, hzero _ h⟩
  · rw [h]
    exact ⟨List.nodup_nil, List.not_mem_nil⟩

end ProtoWire
