import ProtoWire.Proofs.Message.Failing
import ProtoWire.Proofs.Message.Guarded
import ProtoWire.Proofs.Message.Nesting
import ProtoWire.Proofs.Message.Records

/-!
# Truncated messages

* `parse_of_records`, `parse_of_breaksOff`: what is parsed from them.
* `truncation_detected`: a message that is cut off does not parse, unless between two records.
-/

namespace ProtoWire

section Parsing

variable {S : Schema} (hS : S.Valid) (order : FieldOrder) {type : TypeId}

include hS

/-- The first of some bytes that can be read are merged into a new message, or fail, as they would be
skipped. -/
theorem mergeMessage_cut {r r' t : Reader} {us : List Update} (hcut : r.Cut r')
    (hread : readContents S type r = .ok us t) (hcap : r'.data.length ≤ leastCapacity) :
    match skipMessage r' with
    | .ok () u => ∃ n, mergeMessage S order type ⟨S.blank type, r'⟩ = .ok () ⟨n, u⟩
    | .error e _ => ∃ s, mergeMessage S order type ⟨S.blank type, r'⟩ = .error (.decode e) s := by
  have hblank : (S.blank type).Fits S type := .blank (hS type)
  have hunread : 0 + r'.unread ≤ leastCapacity := by
    have hle : r'.unread ≤ r'.data.length := Nat.sub_le ..
    omega
  have hspare : Message.Spare S type 0 r'.unread (S.blank type) := Message.Roomy.blank hunread
  have hguarded := guarded_mergeMessage hS order (r'.bytesLeft + 1) 0 type ⟨S.blank type, r'⟩
    ⟨hcut.pos_le, hcut.sound_cut.limit_le⟩ (Nat.lt_succ_self _) hblank hunread hspare
  have hfails := failsAsSkipped_mergeWithin hS order (r'.bytesLeft + 1)
  have hmerge : mergeMessage S order type ⟨S.blank type, r'⟩ =
      mergeWithin S order (r'.bytesLeft + 1) type ⟨S.blank type, r'⟩ := by
    unfold mergeMessage
    rw [bind_of_ok (Merge.read_of_ok get_apply)]
  unfold GuardedMerge Guarded at hguarded
  cases hout : mergeMessage S order type ⟨S.blank type, r'⟩ with
  | ok _ s =>
    rw [hfails.skips hblank (hmerge.symm.trans hout)]
    exact ⟨s.target, rfl⟩
  | error fault s =>
    -- there is room for all values, and so it fails for what it reads
    rw [hout] at hguarded
    obtain ⟨-, -, ⟨e, rfl⟩, -⟩ := hguarded
    obtain ⟨u, hu⟩ :=
      hfails.blames hblank hcut (Nat.lt_succ_self _) hread e s (hmerge.symm.trans hout)
    rw [hu]
    exact ⟨s, rfl⟩

variable {data p : Bytes} {us : List Update}
  (hdata : readBytes S type defaultRecursionLimit data = some us) (hp : p <+: data)
  (hcap : p.length ≤ leastCapacity)

omit hS in
include hp in
theorem Reader.cut_ofBytes (limit : UInt32) :
    Reader.Cut { Reader.ofBytes data with recursionLimit := limit }
      { Reader.ofBytes p with recursionLimit := limit } where
  sound := Reader.sound_ofBytes data limit
  sound_cut := Reader.sound_ofBytes p limit
  pos_le := Nat.zero_le _
  levels_eq := rfl
  first := by
    rw [Reader.remaining_ofBytes, Reader.remaining_ofBytes]
    exact hp

include hdata hp hcap

theorem parse_of_records {rs : List WireRecord} (hrs : ∀ rec ∈ rs, rec.Complete)
    (hrecords : p = rs.flatMap WireRecord.bytes) : ∃ n, Message.parse S order type p = .ok n := by
  obtain ⟨t, hread, -⟩ := readBytes_eq_ok.1 hdata
  have hcut := Reader.cut_ofBytes hp defaultRecursionLimit
  have hr' := (Reader.remaining_ofBytes p defaultRecursionLimit).trans
    (hrecords.trans (List.append_nil _).symm)
  obtain ⟨u, u', hcut', hu', -, hskip⟩ :=
    hcut.skipMessage_records hrs hr' (skippable_readContents hS type hread)
  rw [skipMessage_of_atEnd (hcut'.atEnd hu')] at hskip
  have hmerge := mergeMessage_cut hS order hcut hread hcap
  rw [hskip] at hmerge
  obtain ⟨n, hn⟩ := hmerge
  have hlast : checkLastTag 0 { u' with lastTag := 0 } = .ok () { u' with lastTag := 0 } :=
    checkLastTag_eq_ok.2 ⟨rfl, rfl⟩
  refine ⟨n, ?_⟩
  unfold Message.parse Message.mergeBytes
  dsimp only
  rw [bind_of_ok hn, Merge.read_of_ok hlast]

/-- Records that break off fail, and say how. -/
theorem parse_of_breaksOff {e : DecodeError} (hbreaks : WireRecord.BreaksOff p e) :
    Message.parse S order type p = .error (.decode e) := by
  obtain ⟨t, hread, -⟩ := readBytes_eq_ok.1 hdata
  have hcut := Reader.cut_ofBytes hp defaultRecursionLimit
  obtain ⟨u, hu⟩ := hbreaks.skipMessage hcut (Reader.remaining_ofBytes p _)
    (skippable_readContents hS type hread)
  have hmerge := mergeMessage_cut hS order hcut hread hcap
  rw [hu] at hmerge
  obtain ⟨s, hs⟩ := hmerge
  unfold Message.parse Message.mergeBytes
  dsimp only
  rw [bind_of_error hs]

end Parsing

section Conformance

open Conformance (schema)

/-- A message that is written is a sequence of records. Some of them as a whole are parsed. If they
break off, parsing fails: with an end-group tag missing if they do so between the records of a group,
and else because they are truncated. -/
theorem truncation_detected (V : Conformance.Variant) {type : TypeId} {m : Message}
    (hm : Reachable schema V.order type m) (hnesting : m.nesting schema type ≤ 100)
    (hsize : m.size schema (schema.layout type) < 2 ^ 31) :
    let rs := m.records schema V.order (schema.layout type)
    (m.encode schema V.order (schema.layout type) = rs.flatMap WireRecord.bytes ∧
      ∀ rec ∈ rs, rec.Complete) ∧
    ∀ p, p <+: m.encode schema V.order (schema.layout type) →
      p ≠ m.encode schema V.order (schema.layout type) →
        ((∃ k, p = (rs.take k).flatMap WireRecord.bytes) →
          ∃ n, Message.parse schema V.order type p = .ok n) ∧
        ((¬ ∃ k, p = (rs.take k).flatMap WireRecord.bytes) →
          ∃ e, (e = .truncated ∨ e = .invalidEndTag) ∧
            (∀ e', WireRecord.BreaksOff p e' ↔ e' = e) ∧
            Message.parse schema V.order type p = .error (.decode e)) := by
  intro rs
  have hS := Conformance.valid
  have hfits := hm.fits hS
  rw [← Message.length_encode schema V.order] at hsize
  have hcomplete : ∀ rec ∈ rs, rec.Complete :=
    hfits.complete_of_mem_records hS (Nat.lt_trans hsize (by decide))
  have hencode : m.encode schema V.order (schema.layout type) = rs.flatMap WireRecord.bytes :=
    hfits.encode_eq_records hS
  have hparts : ∀ part ∈ m.parts schema type 0, part.depth ≤ 0 + defaultRecursionLimit.toNat :=
    fun part hpart => (Nat.zero_add _).symm ▸ Message.nesting_le.1 hnesting part hpart
  obtain ⟨us, hus⟩ := hfits.exists_conveys_records hS hparts hsize
  have hdata := readBytes_of_conveys hS hus
  refine ⟨⟨hencode, hcomplete⟩, fun p hp _ => ?_⟩
  have hcap : p.length ≤ leastCapacity := by
    have hle := hp.length_le
    have hroom := two_pow_le_leastCapacity
    omega
  refine ⟨?_, fun hbetween => ?_⟩
  · rintro ⟨k, hk⟩
    exact parse_of_records hS V.order hdata hp hcap
      (fun rec hrec => hcomplete rec (List.mem_of_mem_take hrec)) hk
  · have hparse : ∀ {e}, WireRecord.BreaksOff p e →
        Message.parse schema V.order type p = .error (.decode e) :=
      parse_of_breaksOff hS V.order hdata hp hcap
    obtain hends | ⟨e, he⟩ := WireRecord.exists_breaksOff hcomplete (hencode ▸ hp)
    · exact absurd hends hbetween
    · refine ⟨e, he.error_eq, fun e' => ⟨fun he' => ?_, ?_⟩, hparse he⟩
      · have hsame := (hparse he').symm.trans (hparse he)
        rw [Except.error.injEq, Fault.decode.injEq] at hsame
        exact hsame
      · rintro rfl
        exact he

/-- Two groups, with a record each. The second one ends in front of its end tag, or in its record. -/
theorem truncation_detected_group :
    ∃ m, Reachable schema .unordered Conformance.WithGroup m ∧
      m.encode schema .unordered (schema.layout Conformance.WithGroup) =
        [11, 16, 5, 12, 27, 32, 7, 28] ∧
      (∃ n, Message.parse schema .unordered Conformance.WithGroup [11, 16, 5, 12] = .ok n) ∧
      (WireRecord.BreaksOff [11, 16, 5, 12, 27, 32, 7] .invalidEndTag ∧
        Message.parse schema .unordered Conformance.WithGroup [11, 16, 5, 12, 27, 32, 7] =
          .error (.decode .invalidEndTag)) ∧
      WireRecord.BreaksOff [11, 16, 5, 12, 27, 32] .truncated ∧
        Message.parse schema .unordered Conformance.WithGroup [11, 16, 5, 12, 27, 32] =
          .error (.decode .truncated) := by
  let V := Conformance.Variant.unordered
  let L := schema.layout Conformance.WithGroup
  obtain ⟨m, hm, hnesting, hsize, hencode, hbytes⟩ : ∃ m,
      Reachable schema V.order Conformance.WithGroup m ∧
      m.nesting schema Conformance.WithGroup = 1 ∧ m.size schema L = 8 ∧
      m.encode schema V.order L = [11, 16, 5, 12, 27, 32, 7, 28] ∧
      (m.records schema V.order L).map WireRecord.bytes = [[11, 16, 5, 12], [27, 32, 7, 28]] :=
    ⟨((Action.merge 100 [11, 16, 5, 12, 27, 32, 7, 28]).run schema V.order
        Conformance.WithGroup (schema.blank Conformance.WithGroup)).2,
      .run (.blank _) (.merge 100 _), by cbv, by cbv, by cbv, by cbv⟩
  obtain ⟨-, hcut⟩ := truncation_detected V hm (hnesting ▸ by decide) (hsize ▸ by decide)
  rw [hencode] at hcut
  have hrecords : ∀ k, ((m.records schema V.order L).take k).flatMap WireRecord.bytes =
      ([[11, 16, 5, 12], [27, 32, 7, 28]].take k).flatten := by
    intro k
    rw [← hbytes, List.flatMap_def, List.map_take]
  -- each record has four bytes, and other lengths are inside of one
  have hbreaks : ∀ {p e}, p <+: [11, 16, 5, 12, 27, 32, 7, 28] → p.length % 4 ≠ 0 →
      Message.parse schema V.order Conformance.WithGroup p = .error (.decode e) →
        WireRecord.BreaksOff p e ∧
          Message.parse schema V.order Conformance.WithGroup p = .error (.decode e) := by
    intro p e hp hlength hvalue
    obtain ⟨e', -, hbreaks, hparse⟩ := (hcut p hp (by rintro rfl; exact hlength rfl)).2 (by
      rintro ⟨k, rfl⟩
      rw [hrecords] at hlength
      rcases k with _ | _ | k <;> simp at hlength)
    rw [hvalue, Except.error.injEq, Fault.decode.injEq] at hparse
    exact ⟨(hbreaks e).2 hparse, hvalue⟩
  exact ⟨m, hm, hencode, (hcut _ (by decide) (by decide)).1 ⟨1, (hrecords 1).symm⟩,
    hbreaks (by decide) (by decide) (by cbv), hbreaks (by decide) (by decide) (by cbv)⟩

end Conformance

end ProtoWire
