import ProtoWire.Proofs.Message.Local

/-!
# Encoded messages one behind the other

Merging two encoded messages at once is merging one and then the other.
-/

namespace ProtoWire

/-- The messages cannot be told apart: they have the same fields and oneof cases, show the same
values, are equal, and are written alike. -/
structure Message.Same (S : Schema) (type : TypeId) (m n : Message) : Prop where
  has : ∀ p ∈ (S.layout type).fields.zipIdx, m.has p.1 p.2 = n.has p.1 p.2
  cases : m.cases = n.cases
  get : ∀ p ∈ (S.layout type).fields.zipIdx, m.get S p = n.get S p
  beq : m.beq S (S.layout type) n = true
  encode : ∀ order, m.encode S order (S.layout type) = n.encode S order (S.layout type)

section Views

variable {S : Schema} (hS : S.Valid) {type : TypeId}

/-- Messages that look the same cannot be told apart. -/
theorem Message.Same.of_view {m n : Message} (hm : m.Fits S type) (hn : n.Fits S type)
    (hview : m.view S (S.layout type) = n.view S (S.layout type)) : Message.Same S type m n where
  has p hp := by
    have hp := List.mem_zipIdx_iff_getElem?.1 hp
    rw [← hm.has_view hp, hview, hn.has_view hp]
  cases := by
    rw [← Message.cases_view (S := S) (L := S.layout type), hview, Message.cases_view]
  get p hp := by
    have hp := List.mem_zipIdx_iff_getElem?.1 hp
    rw [Message.get_eq_view hp, Message.get_eq_view hp, hview]
  beq := Message.beq_of_view_eq hm hn hview
  encode _ := hm.encode_eq_of_view_eq hn hview

include hS

/-- Merging leaves the same message if what is read makes the same of the views. -/
theorem Message.Fits.mergeBytes_of_bind_eq {m n : Message} (hm : m.Fits S type)
    (hn : n.Fits S type) {order : FieldOrder} {limit : UInt32} {data data' : Bytes}
    (heq : (readBytes S type limit data).bind
        (fun us => applyAll S type us (m.view S (S.layout type))) =
      (readBytes S type limit data').bind
        (fun us => applyAll S type us (n.view S (S.layout type))))
    (hok : (m.mergeBytes S order type limit data).1 = .ok ()) :
    (n.mergeBytes S order type limit data').1 = .ok () ∧
      Message.Same S type (m.mergeBytes S order type limit data).2
        (n.mergeBytes S order type limit data').2 := by
  have happly := (hm.mergeBytes_eq_ok hS).1 ⟨hok, rfl⟩
  have hmerge : (n.mergeBytes S order type limit data').1 = .ok () ∧ _ :=
    (hn.mergeBytes_eq_ok hS).2 (heq.symm.trans happly)
  exact ⟨hmerge.1, .of_view (hm.mergeBytes hS order limit data)
    (hn.mergeBytes hS order limit data') hmerge.2.symm⟩

/-- What two encoded messages make of a view, one behind the other. -/
theorem bind_readBytes_append {limit : UInt32} {a : Bytes} {us : List Update} {v w : Message}
    (ha : readBytes S type limit a = some us) (happly : applyAll S type us v = some w) (b : Bytes) :
    (readBytes S type limit (a ++ b)).bind (fun us => applyAll S type us v) =
      (readBytes S type limit b).bind (fun us => applyAll S type us w) := by
  rw [readBytes_append hS ha, Option.bind_map]
  congr 1
  funext us'
  show applyAll S type (us ++ us') v = applyAll S type us' w
  rw [applyAll_append, happly, Option.bind_some]

end Views

section Conformance

open Conformance (schema)

/-- Merging one encoded message and then another succeeds if merging both at once does, and leaves
the same message: what was there before with the values of the first and then of the second. -/
theorem merge_of_concatenation (V : Conformance.Variant) (type : TypeId) {m : Message}
    (hm : Reachable schema V.order type m) (limit : UInt32) (a b : Bytes)
    (ha : (m.mergeBytes schema V.order type limit a).1 = .ok ()) :
    ((m.mergeBytes schema V.order type limit (a ++ b)).1 = .ok () ↔
        ((m.mergeBytes schema V.order type limit a).2.mergeBytes schema V.order type limit b).1 =
          .ok ()) ∧
      ((m.mergeBytes schema V.order type limit (a ++ b)).1 = .ok () →
        Message.Same schema type (m.mergeBytes schema V.order type limit (a ++ b)).2
            ((m.mergeBytes schema V.order type limit a).2.mergeBytes schema V.order type limit
              b).2 ∧
          ∃ us us', readBytes schema type limit a = some us ∧
            readBytes schema type limit b = some us' ∧
            applyAll schema type (us ++ us') (m.view schema (schema.layout type)) =
              some ((m.mergeBytes schema V.order type limit (a ++ b)).2.view schema
                (schema.layout type))) := by
  have hS := Conformance.valid
  have hfits := hm.fits hS
  have hfits' := hfits.mergeBytes hS V.order limit a
  obtain ⟨us, hus, happly⟩ := Option.bind_eq_some_iff.1 ((hfits.mergeBytes_eq_ok hS).1 ⟨ha, rfl⟩)
  have happend := bind_readBytes_append hS hus happly b
  refine ⟨⟨fun hok => (hfits.mergeBytes_of_bind_eq hS hfits' happend hok).1,
    fun hok => (hfits'.mergeBytes_of_bind_eq hS hfits happend.symm hok).1⟩, fun hok =>
      ⟨(hfits.mergeBytes_of_bind_eq hS hfits' happend hok).2, ?_⟩⟩
  have hboth := (hfits.mergeBytes_eq_ok hS).1 ⟨hok, rfl⟩
  obtain ⟨us', hus', happly'⟩ := Option.bind_eq_some_iff.1 (happend.symm.trans hboth)
  refine ⟨us, us', hus, hus', ?_⟩
  rw [applyAll_append, happly]
  exact happly'

/-- A tree with a value gets a child, and then the child another one. -/
theorem merge_of_concatenation_tree :
    ((schema.blank Conformance.Tree).mergeBytes schema .declaration Conformance.Tree 100
        [16, 7, 10, 2, 16, 5]).1 = .ok () ∧
      Message.Same schema Conformance.Tree
        ((schema.blank Conformance.Tree).mergeBytes schema .declaration Conformance.Tree 100
          ([16, 7, 10, 2, 16, 5] ++ [10, 2, 10, 0])).2
        (((schema.blank Conformance.Tree).mergeBytes schema .declaration Conformance.Tree 100
          [16, 7, 10, 2, 16, 5]).2.mergeBytes schema .declaration Conformance.Tree 100
            [10, 2, 10, 0]).2 := by
  have ha : ((schema.blank Conformance.Tree).mergeBytes schema .declaration Conformance.Tree 100
      [16, 7, 10, 2, 16, 5]).1 = .ok () := by cbv
  have hboth : ((schema.blank Conformance.Tree).mergeBytes schema .declaration Conformance.Tree 100
      ([16, 7, 10, 2, 16, 5] ++ [10, 2, 10, 0])).1 = .ok () := by cbv
  exact ⟨ha, ((merge_of_concatenation .declaration Conformance.Tree (.blank _) 100
    [16, 7, 10, 2, 16, 5] [10, 2, 10, 0] ha).2 hboth).1⟩

end Conformance

end ProtoWire
