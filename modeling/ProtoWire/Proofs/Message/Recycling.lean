import ProtoWire.Proofs.Message.Equality
import ProtoWire.Proofs.Message.Merging
import ProtoWire.Proofs.Message.Reachable

/-!
# Recycled messages

A message that was cleared keeps its containers, the elements they retain, and the messages that
were allocated. None of it can be told from a new message.

* `Message.Fits.mergeBytes_eq_ok`: when merging encoded data succeeds, and what is seen then.
* `Message.Fits.has_view`, `Message.get_eq_view`: presence and getters depend on the view alone.
* `recycled_message_like_new`: a message in use, once cleared, is as good as a new one.
-/

namespace ProtoWire

/-- What a whole encoded message says, if it can be decoded. -/
def readBytes (S : Schema) (type : TypeId) (limit : UInt32) (data : Bytes) :
    Option (List Update) :=
  match (do
    let us ← readContents S type
    checkLastTag 0
    return us) { Reader.ofBytes data with recursionLimit := limit } with
  | .ok us _ => some us
  | .error _ _ => none

section View

variable {order : FieldOrder} {data : Bytes} {S : Schema} (hS : S.Valid) {type : TypeId}
  {m n : Message}

include hS in
/-- Merging succeeds if the contents can be read and applied, and leaves what they make of the
view. -/
theorem Message.Fits.mergeBytes_eq_ok (hm : m.Fits S type) {limit : UInt32} {v : Message} :
    ((m.mergeBytes S order type limit data).1 = .ok () ∧
        (m.mergeBytes S order type limit data).2.view S (S.layout type) = v) ↔
      (readBytes S type limit data).bind
        (fun us => applyAll S type us (m.view S (S.layout type))) = some v := by
  have hfollows : Follows (Message.view S (S.layout type))
      (do
        mergeMessage S order type
        Merge.read (checkLastTag 0))
      (do
        let us ← readContents S type
        checkLastTag 0
        return us) (applyAll S type) m :=
    (follows_mergeMessage hS order type hm).bracket (pure ()) fun _ => checkLastTag 0
  unfold Message.mergeBytes readBytes
  dsimp only
  constructor
  · rintro ⟨hok, hv⟩
    split at hok
    · rename_i s hmerge
      rw [hmerge] at hv
      obtain ⟨us, hus, happly⟩ := (hfollows _ s.reader v).1 ⟨s.target, hmerge, hv⟩
      rw [hus]
      exact happly
    · cases hok
  · intro happly
    split at happly
    · rename_i us r' hus
      obtain ⟨m', hmerge, hv⟩ := (hfollows _ r' v).2 ⟨us, hus, happly⟩
      rw [hmerge]
      exact ⟨rfl, hv⟩
    · cases happly

theorem Message.parse_eq_ok :
    Message.parse S order type data = .ok n ↔
      ((S.blank type).mergeBytes S order type defaultRecursionLimit data).1 = .ok () ∧
        ((S.blank type).mergeBytes S order type defaultRecursionLimit data).2 = n := by
  unfold Message.parse
  split
  next m h => simp [h]
  next e m h => simp [h]

theorem Message.parse_of_error {e : Fault} {s : Merging Message}
    (h : mergeMessage S order type ⟨S.blank type,
      { Reader.ofBytes data with recursionLimit := defaultRecursionLimit }⟩ = .error e s) :
    Message.parse S order type data = .error e := by
  simp only [Message.parse, Message.mergeBytes, bind_of_error h]

theorem Message.get_eq_view {p : PlacedField} (hp : (S.layout type).fields[p.2]? = some p.1) :
    m.get S p = (m.view S (S.layout type)).slots[p.2]? :=
  (Message.getElem?_view hp).symm

theorem Message.Fits.has_view (hm : m.Fits S type) {f : Field} {i : Nat}
    (hf : (S.layout type).fields[i]? = some f) :
    (m.view S (S.layout type)).has f i = m.has f i := by
  obtain ⟨slot, hslot⟩ := hm.exists_slot hf
  unfold Message.has
  rw [Message.getElem?_view hf, hslot, Option.map_some, Message.presence_view, Message.cases_view]
  exact isPresent_viewSlot (hm.atSlot hf hslot) _ _

theorem Schema.has_blank (hS : (S.layout type).Valid) {f : Field} {i : Nat}
    (hf : (S.layout type).fields[i]? = some f) : (S.blank type).has f i = false := by
  have hslot : (S.blank type).slots[i]? = some f.blankSlot := by
    simp [Schema.blank, Layout.blank, hf]
  unfold Message.has
  rw [hslot]
  exact (S.layout type).unset_blank.isPresent (hS.number_pos f (List.mem_of_getElem? hf))
    f.isEmpty_blankSlot

include hS in
/-- Merging the same data into messages that look the same succeeds for both or for none, and leaves
messages that look the same. -/
theorem mergeBytes_congr_view (hm : m.Fits S type) (hn : n.Fits S type)
    (hview : m.view S (S.layout type) = n.view S (S.layout type)) {limit : UInt32}
    (hok : (m.mergeBytes S order type limit data).1 = .ok ()) :
    (n.mergeBytes S order type limit data).1 = .ok () ∧
      (n.mergeBytes S order type limit data).2.view S (S.layout type) =
        (m.mergeBytes S order type limit data).2.view S (S.layout type) := by
  have happly := (hm.mergeBytes_eq_ok hS).1 ⟨hok, rfl⟩
  rw [hview] at happly
  exact (hn.mergeBytes_eq_ok hS).2 happly

end View

section Conformance

open Conformance (schema)

/-- A message in use, once cleared, is as good as a new one. No field is present and every getter
shows what it shows on a new message. The same data can be merged into both, and the results are
equal and are written alike. -/
theorem recycled_message_like_new (V : Conformance.Variant) (type : TypeId) {m : Message}
    (hm : Reachable schema V.order type m) (limit : UInt32) (data : Bytes) :
    (∀ p ∈ (schema.layout type).fields.zipIdx,
        (m.clear schema (schema.layout type)).has p.1 p.2 = false ∧
          (m.clear schema (schema.layout type)).get schema p = (schema.blank type).get schema p) ∧
      (m.clear schema (schema.layout type)).cases = (schema.blank type).cases ∧
      (((m.clear schema (schema.layout type)).mergeBytes schema V.order type limit data).1 =
          .ok () ↔
        ((schema.blank type).mergeBytes schema V.order type limit data).1 = .ok ()) ∧
      (((schema.blank type).mergeBytes schema V.order type limit data).1 = .ok () →
        ((m.clear schema (schema.layout type)).mergeBytes schema V.order type limit data).2.beq
            schema (schema.layout type)
            ((schema.blank type).mergeBytes schema V.order type limit data).2 = true ∧
          ((m.clear schema (schema.layout type)).mergeBytes schema V.order type limit data).2.encode
              schema V.order (schema.layout type) =
            ((schema.blank type).mergeBytes schema V.order type limit data).2.encode
              schema V.order (schema.layout type)) := by
  have hS := Conformance.valid
  have hfits := hm.fits hS
  have hclear := hfits.clear hS
  have hblank := Message.Fits.blank (hS type)
  have hview : (m.clear schema (schema.layout type)).view schema (schema.layout type) =
      (schema.blank type).view schema (schema.layout type) :=
    (Message.view_clear hS hfits).trans Message.view_blank.symm
  refine ⟨fun p hp => ⟨?_, ?_⟩, ?_, ⟨?_, ?_⟩, fun hok => ?_⟩
  · have hp := List.mem_zipIdx_iff_getElem?.1 hp
    rw [← hclear.has_view hp, hview, hblank.has_view hp, Schema.has_blank (hS type) hp]
  · have hp := List.mem_zipIdx_iff_getElem?.1 hp
    rw [Message.get_eq_view hp, Message.get_eq_view hp, hview]
  · rw [← Message.cases_view (S := schema) (L := schema.layout type), hview, Message.cases_view]
  · exact fun hok => (mergeBytes_congr_view hS hclear hblank hview hok).1
  · exact fun hok => (mergeBytes_congr_view hS hblank hclear hview.symm hok).1
  · obtain ⟨-, hsame⟩ := mergeBytes_congr_view hS hblank hclear hview.symm hok
    have hmerged := hclear.mergeBytes hS V.order limit data
    have hmerged' := hblank.mergeBytes hS V.order limit data
    exact ⟨Message.beq_of_view_eq hmerged hmerged' hsame,
      hmerged.encode_eq_of_view_eq hmerged' hsame⟩

/-- A tree gets a child, by a merge that fails at a tag cut short. Once it is cleared, it takes a
value like a new one. -/
theorem recycled_message_like_new_tree :
    ((schema.blank Conformance.Tree).mergeBytes schema .declaration Conformance.Tree 100
        [10, 2, 16, 5, 255]).1 = .error (.decode .truncated) ∧
      Reachable schema .declaration Conformance.Tree
        ((schema.blank Conformance.Tree).mergeBytes schema .declaration Conformance.Tree 100
          [10, 2, 16, 5, 255]).2 ∧
      ((((schema.blank Conformance.Tree).mergeBytes schema .declaration Conformance.Tree 100
          [10, 2, 16, 5, 255]).2.clear schema (schema.layout Conformance.Tree)).mergeBytes schema
            .declaration Conformance.Tree 100 [16, 7]).1 = .ok () := by
  have hm : Reachable schema Conformance.Variant.declaration.order Conformance.Tree
      ((Action.merge 100 [10, 2, 16, 5, 255]).run schema .declaration Conformance.Tree
        (schema.blank Conformance.Tree)).2 :=
    .run (.blank _) (.merge 100 [10, 2, 16, 5, 255])
  have hfresh : ((schema.blank Conformance.Tree).mergeBytes schema .declaration Conformance.Tree 100
      [16, 7]).1 = .ok () := by cbv
  exact ⟨by cbv, hm, (recycled_message_like_new .declaration _ hm 100 [16, 7]).2.2.1.2 hfresh⟩

end Conformance

end ProtoWire
