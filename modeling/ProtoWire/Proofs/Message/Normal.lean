import ProtoWire.Proofs.Message.Nesting

/-!
# The normal form of encoded messages

The same message can be encoded with its records in another order, with longer numbers, packed or
not, with fields that are given more than once, and with fields and enum numbers that are unknown.
Parsing and encoding it again leaves none of this.
-/

namespace ProtoWire

section Parsed

variable {S : Schema} (hS : S.Valid) {order : FieldOrder} {type : TypeId}
  {data : Bytes} {m : Message}

include hS

theorem Message.fits_parse (h : Message.parse S order type data = .ok m) : m.Fits S type := by
  obtain ⟨-, rfl⟩ := Message.parse_eq_ok.1 h
  exact (Message.Fits.blank (hS type)).mergeBytes hS order defaultRecursionLimit data

/-- What is parsed can be read again, at the levels of a new reader. -/
theorem Message.legible_view_parse (h : Message.parse S order type data = .ok m) :
    (m.view S (S.layout type)).Legible S defaultRecursionLimit.toNat type := by
  obtain ⟨hok, rfl⟩ := Message.parse_eq_ok.1 h
  have hblank : (S.blank type).Fits S type := .blank (hS type)
  have hmerge := (hblank.mergeBytes_eq_ok hS).1 ⟨hok, rfl⟩
  obtain ⟨us, hread, happly⟩ := Option.bind_eq_some_iff.1 hmerge
  rw [Message.view_blank] at happly
  obtain ⟨r, hcontents, -⟩ := readBytes_eq_ok.1 hread
  obtain ⟨count, hmeasured, -⟩ := measures_readContents hS type hcontents
  exact hmeasured.legible hS (.blank (hS type)) happly

theorem Message.exists_parse_encode (h : Message.parse S order type data = .ok m)
    (hlength : (m.encode S order (S.layout type)).length < 2 ^ 31) (order' : FieldOrder) :
    ∃ n : Message, Message.parse S order' type (m.encode S order (S.layout type)) = .ok n ∧
      n.Fits S type ∧ n.view S (S.layout type) = m.gist S (S.layout type) := by
  have hm := Message.fits_parse hS h
  have hparts := hm.legible_parts hS 0 (Message.legible_view_parse hS h)
  simp only [Nat.zero_add] at hparts
  exact hm.parse_encode hS hparts hlength order'

end Parsed

section Conformance

open Conformance (schema)

/-- What is parsed from any data, and encoded, is parsed as an equal message, in any variant. It has
the same encoding, so that this is a normal form of the data. -/
theorem normalization_idempotent (V W : Conformance.Variant) (type : TypeId) {data : Bytes}
    {m : Message} (h : Message.parse schema V.order type data = .ok m)
    (hsize : m.size schema (schema.layout type) < 2 ^ 31) :
    let L := schema.layout type
    ∃ n, Message.parse schema W.order type (m.encode schema V.order L) = .ok n ∧
      n.beq schema L m = true ∧ m.beq schema L n = true ∧
      n.encode schema V.order L = m.encode schema V.order L := by
  intro L
  have hS := Conformance.valid
  have hm := Message.fits_parse hS h
  rw [← Message.length_encode schema V.order] at hsize
  obtain ⟨n, hparse, hn, hview⟩ := Message.exists_parse_encode hS h hsize W.order
  have hbeq : m.beq schema L n = true := hm.beq_of_view_eq_gist hn hview
  have hgist := (hm.beq_iff_gist_eq hn).1 hbeq
  exact ⟨n, hparse, (hn.beq_iff_gist_eq hm).2 hgist.symm, hbeq,
    hn.encode_eq_of_gist_eq hm hgist.symm⟩

/-- Values on their own and in a run, an unknown field, and a number that is given twice, with more
bytes than it needs. -/
theorem normalization_idempotent_sample :
    let L := schema.layout Conformance.Sample
    ∃ m n, Message.parse schema .declaration Conformance.Sample
        [16, 1, 8, 5, 72, 9, 18, 2, 2, 3, 8, 135, 0] = .ok m ∧
      m.encode schema .declaration L = [8, 7, 18, 3, 1, 2, 3] ∧
      Message.parse schema .ascending Conformance.Sample [8, 7, 18, 3, 1, 2, 3] = .ok n ∧
      n.encode schema .declaration L = [8, 7, 18, 3, 1, 2, 3] := by
  intro L
  let m := ((schema.blank Conformance.Sample).mergeBytes schema .declaration Conformance.Sample
    defaultRecursionLimit [16, 1, 8, 5, 72, 9, 18, 2, 2, 3, 8, 135, 0]).2
  have hm : Message.parse schema .declaration Conformance.Sample
      [16, 1, 8, 5, 72, 9, 18, 2, 2, 3, 8, 135, 0] = .ok m :=
    Message.parse_eq_ok.2 ⟨by cbv, rfl⟩
  have hencode : m.encode schema .declaration L = [8, 7, 18, 3, 1, 2, 3] := by decide +kernel
  have hsize : m.size schema L = 7 := by decide +kernel
  obtain ⟨n, hn, -, -, hagain⟩ := normalization_idempotent .declaration .ascending
    Conformance.Sample hm (hsize ▸ by decide)
  exact ⟨m, n, hm, hencode, hencode ▸ hn, hagain.trans hencode⟩

end Conformance

end ProtoWire
