import ProtoWire.Proofs.Message.FieldOrder
import ProtoWire.Proofs.Message.View

/-!
# Packed and unpacked fields are read alike

A packed field and an unpacked one swap the tag that is written and the other one that is read.
Record by record this makes no difference.
-/

namespace ProtoWire

/-! ### The other form of a field -/

namespace Field

/-- The field, written in the other form if it is repeated. -/
def repack (f : Field) : Field :=
  { f with
    placement :=
      match f.placement with
      | .repeated packed => .repeated !packed
      | .singular bit => .singular bit
      | .member oneof bit => .member oneof bit }

theorem repack_repack (f : Field) : f.repack.repack = f := by
  obtain ⟨_, _, _, placement⟩ := f
  cases placement with
  | singular bit => rfl
  | repeated packed => cases packed <;> rfl
  | member oneof bit => rfl

theorem isRepeated_repack (f : Field) : f.repack.isRepeated = f.isRepeated := by
  obtain ⟨_, _, _, placement⟩ := f
  cases placement <;> rfl

variable {f : Field} (hrep : f.isRepeated = true)

include hrep

theorem primaryForm_repack : f.repack.primaryForm = f.alternateForm := by
  obtain ⟨_, _, _, placement⟩ := f
  cases placement with
  | singular bit => cases hrep
  | repeated packed => cases packed <;> rfl
  | member oneof bit => cases hrep

theorem alternateForm_repack : f.repack.alternateForm = f.primaryForm := by
  have h := primaryForm_repack (f.isRepeated_repack.trans hrep)
  rw [repack_repack] at h
  exact h.symm

theorem alternateTag?_eq (hpack : f.element.category.isPackable = true) :
    f.alternateTag? = some f.repack.primaryTag := by
  obtain ⟨_, _, _, placement⟩ := f
  cases placement with
  | singular bit => cases hrep
  | repeated packed =>
    rw [Field.alternateTag?, Strategy.alternateTag?]
    refine (if_pos hpack).trans ?_
    cases packed <;> rfl
  | member oneof bit => cases hrep

theorem alternateTag?_repack (hpack : f.element.category.isPackable = true) :
    f.repack.alternateTag? = some f.primaryTag := by
  have h := alternateTag?_eq (f.isRepeated_repack.trans hrep) hpack
  rwa [repack_repack] at h

end Field

/-! ### Values of a field -/

section Values

variable (S : Schema) (nested : Nested) (f : Field)

theorem Field.readToLimit_repack (fuel : Nat) :
    f.repack.readToLimit S nested fuel = f.readToLimit S nested fuel := by
  induction fuel with
  | zero => rfl
  | succ fuel ih =>
    unfold Field.readToLimit
    rw [ih]
    rfl

theorem Field.readPacked_repack : f.repack.readPacked S nested = f.readPacked S nested := by
  unfold Field.readPacked
  simp only [Field.readToLimit_repack]
  rfl

theorem viewSlot_repack (slot : Slot Message) : viewSlot S f.repack slot = viewSlot S f slot := by
  unfold viewSlot
  rfl

theorem viewSlots_repack (fields : List Field) (slots : List (Slot Message)) :
    viewSlots S (fields.map Field.repack) slots = viewSlots S fields slots := by
  induction fields generalizing slots with
  | nil => rfl
  | cons f fields ih =>
    cases slots with
    | nil => rfl
    | cons slot slots => rw [List.map_cons, viewSlots, viewSlots, viewSlot_repack, ih]

end Values

/-! ### Layouts -/

/-- The layouts have the same fields, all of them repeated and packable, in opposite forms. -/
structure Layout.Repacks (L L' : Layout) : Prop where
  fields : L'.fields = L.fields.map Field.repack
  repeated : ∀ f ∈ L.fields, f.isRepeated = true
  packable : ∀ f ∈ L.fields, f.element.category.isPackable = true

namespace Layout.Repacks

variable {L L' : Layout} (h : L.Repacks L')

include h

theorem symm : L'.Repacks L where
  fields := by
    rw [h.fields, List.map_map]
    exact (List.map_id'' Field.repack_repack L.fields).symm
  repeated f hf := by
    rw [h.fields] at hf
    obtain ⟨g, hg, rfl⟩ := List.mem_map.1 hf
    exact g.isRepeated_repack.trans (h.repeated g hg)
  packable f hf := by
    rw [h.fields] at hf
    obtain ⟨g, hg, rfl⟩ := List.mem_map.1 hf
    exact h.packable g hg

theorem mem_zipIdx {p : PlacedField} (hp : L.fields[p.2]? = some p.1) :
    (p.1.repack, p.2) ∈ L'.fields.zipIdx := by
  rw [List.mem_zipIdx_iff_getElem?, h.fields, List.getElem?_map, hp]
  rfl

/-- A message looks the same in either form. -/
theorem view_eq (S : Schema) (m : Message) : m.view S L' = m.view S L := by
  cases m
  rw [Message.view, Message.view, h.fields, viewSlots_repack]

variable (hL' : L'.Routed)

include hL'

/-- A tag of a field is a tag of its other form, and is read in the same form. -/
theorem route_eq_some {tag : UInt32} {p : PlacedField} {form : Form}
    (hroute : L.route tag = some (p, form)) :
    L'.route tag = some ((p.1.repack, p.2), form) := by
  obtain ⟨hp, htag⟩ := L.route_eq_some hroute
  have hmem := List.mem_of_getElem? hp
  have hplace := h.mem_zipIdx hp
  obtain ⟨rfl, rfl⟩ | ⟨htag, rfl⟩ := htag
  · rw [← Field.alternateForm_repack (h.repeated _ hmem)]
    exact hL'.route_alternateTag hplace
      (Field.alternateTag?_repack (h.repeated _ hmem) (h.packable _ hmem))
  · rw [Field.alternateTag?_eq (h.repeated _ hmem) (h.packable _ hmem), Option.some.injEq] at htag
    rw [← Field.primaryForm_repack (h.repeated _ hmem), ← htag]
    exact hL'.route_primaryTag hplace

variable (hL : L.Routed)

include hL

/-- A tag belongs to the same field in either form, and is read in the same form. -/
theorem route_eq (tag : UInt32) :
    L'.route tag = (L.route tag).map fun target => ((target.1.1.repack, target.1.2), target.2) := by
  cases hroute : L.route tag with
  | some target => exact h.route_eq_some hL' hroute
  | none =>
    cases hroute' : L'.route tag with
    | none => rfl
    | some target =>
      have hback := h.symm.route_eq_some hL hroute'
      rw [hroute] at hback
      cases hback

variable (S : Schema) (nested : Nested)

theorem mergePayload_eq (tag : UInt32) :
    mergePayload S nested L' tag = mergePayload S nested L tag := by
  unfold mergePayload
  rw [h.route_eq hL' hL]
  cases hroute : L.route tag with
  | none => rfl
  | some target =>
    obtain ⟨p, form⟩ := target
    cases form with
    | value =>
      -- No field of either layout is singular.
      have hrep := h.repeated p.1 (List.mem_of_getElem? (L.route_eq_some hroute).1)
      rw [L.isRepeated_of_route hroute] at hrep
      cases hrep
    | element => rfl
    | run => simp only [Option.map_some, Field.readPacked_repack]

theorem mergeRecords_eq (fuel : Nat) (tag : UInt32) :
    mergeRecords S nested L' fuel tag = mergeRecords S nested L fuel tag := by
  induction fuel generalizing tag with
  | zero => rfl
  | succ fuel ih =>
    unfold mergeRecords
    simp only [h.mergePayload_eq hL' hL, ih]

/-- Merging from a tag on does the same from every state. -/
theorem mergeFrom_eq : mergeFrom S nested L' = mergeFrom S nested L := by
  funext tag s
  unfold mergeFrom
  rw [h.mergeRecords_eq hL' hL]

end Layout.Repacks

/-! ### Messages -/

section Messages

variable {S : Schema} (hS : ∀ type, (S.layout type).Routed) {type type' : TypeId}
  (h : (S.layout type).Repacks (S.layout type')) (order order' : FieldOrder)

include hS h

theorem mergeWithin_of_repacks (fuel : Nat) :
    mergeWithin S order fuel type = mergeWithin S order' fuel type' := by
  cases fuel with
  | zero => rfl
  | succ fuel =>
    rw [mergeWithin_order_eq hS order order']
    unfold mergeWithin
    rw [mergeFields_eq (composed_mergeWithin hS order' fuel) (hS type),
      mergeFields_eq (composed_mergeWithin hS order' fuel) (hS type'),
      h.mergeFrom_eq (hS type') (hS type)]

/-- Types with the same fields in opposite forms are merged alike, whatever the order. -/
theorem mergeMessage_of_repacks :
    mergeMessage S order type = mergeMessage S order' type' := by
  unfold mergeMessage
  simp only [mergeWithin_of_repacks hS h order order']

end Messages

theorem Conformance.repacks : (schema.layout Packed).Repacks (schema.layout Unpacked) where
  fields := by cbv
  repeated := by decide
  packable := by decide

end ProtoWire
