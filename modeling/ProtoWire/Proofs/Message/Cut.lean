import ProtoWire.Proofs.Message.Local
import ProtoWire.Proofs.Wire.Cut

/-!
# Skipping records that break off

A reader has the first of some bytes that could be skipped. Skipping fails if they break off, and
says how.
-/

namespace ProtoWire

variable {e : DecodeError} {tag : UInt32} {r t r' : Reader} {more : Bool}

theorem localAt_skipField_tag (tag : UInt32) (r : Reader) : LocalAt (skipField tag) r :=
  localAt_skipField (fun type t _ => contentsAt t Schema.valid_void type) tag

theorem skipFrom_of_error (hne : tag ≠ 0) (h : skipField tag r = .error e t) :
    skipFrom tag r = .error e t := by
  unfold skipFrom
  rw [if_neg hne, bind_of_error h]

theorem skipFrom_of_true (hne : tag ≠ 0) (h : skipField tag r = .ok true t) :
    skipFrom tag r = skipMessage t := by
  unfold skipFrom
  rw [if_neg hne, bind_of_ok h]
  rfl

theorem skipMessage_of_atEnd (h : r.atEnd = true) :
    skipMessage r = .ok () { r with lastTag := 0 } := by
  have htag : readTag r = .ok 0 { r with lastTag := 0 } := readTag_eq_ok.2 (.inl ⟨h, rfl, rfl⟩)
  rw [skipMessage_apply, bind_of_ok htag]
  rfl

namespace Reader.Cut

variable {rec : WireRecord} {rest : Bytes} {u : Reader}

/-- Both read a tag that is there. -/
theorem skipMessage_tagged (hcut : r.Cut r') (hrec : rec.Tagged)
    (hr' : r'.remaining = rec.tagBytes ++ rest) :
    rec.tag.toUInt32 ≠ 0 ∧ ∃ t t', t.Cut t' ∧ t'.remaining = rest ∧
      skipMessage r = skipFrom rec.tag.toUInt32 t ∧
      skipMessage r' = skipFrom rec.tag.toUInt32 t' := by
  have hne : rec.tag.toUInt32 ≠ 0 := by
    intro hzero
    refine hrec.number_ne ?_
    rw [WireRecord.number, hzero]
    rfl
  obtain ⟨t, t', ht, ht', hcut', hrest⟩ :=
    hcut.of_reads hr' (reads_readTag hrec.spells hrec.number_ne)
  refine ⟨hne, t, t', hcut', hrest, ?_, ?_⟩
  · rw [skipMessage_apply, bind_of_ok ht]
  · rw [skipMessage_apply, bind_of_ok ht']

/-- A payload that is there as a whole and that the first reader skips, the second one does. -/
theorem skipField_whole (hcut : r.Cut r') (hrec : rec.Complete)
    (hr' : r'.remaining = rec.payload ++ rest) (hskip : skipField rec.tag.toUInt32 r = .ok more t) :
    more = true ∧ ∃ t', skipField rec.tag.toUInt32 r' = .ok true t' ∧ t.Cut t' ∧
      t'.remaining = rest := by
  obtain ⟨after, hr⟩ := hcut.exists_remaining hr'
  obtain ⟨rfl, halike⟩ := hrec.whole.skipField rfl hrec.type_eq hcut.sound hr hskip
  refine ⟨rfl, ?_⟩
  -- what the first reader takes is as long as the payload, and so it is the payload
  obtain ⟨bytes, behind, hbytes, hreads⟩ :=
    localAt_skipField_tag rec.tag.toUInt32 r hcut.sound true t hskip
  have hlength : bytes.length = rec.payload.length := by
    obtain ⟨tag, rfl⟩ := halike
    obtain ⟨tag', htag'⟩ := hreads.alike hcut.sound hbytes hskip
    have hpos := congrArg Reader.pos htag'
    simp only [Reader.advance] at hpos
    omega
  obtain ⟨rfl, -⟩ := List.append_inj (hbytes.symm.trans hr) hlength
  rw [← hcut.levels_eq] at hreads
  obtain ⟨u, t', hu, ht', hcut', hrest⟩ := hcut.of_reads hr' hreads
  cases hskip.symm.trans hu
  exact ⟨t', ht', hcut', hrest⟩

/-- By induction on the records: what both readers have left. -/
theorem skipMessage_records {rs : List WireRecord} (hcut : r.Cut r')
    (hrs : ∀ rec ∈ rs, rec.Complete) (hr' : r'.remaining = rs.flatMap WireRecord.bytes ++ rest)
    (hskip : skipMessage r = .ok () u) :
    ∃ t t', t.Cut t' ∧ t'.remaining = rest ∧ skipMessage t = .ok () u ∧
      skipMessage r' = skipMessage t' := by
  induction rs generalizing r r' with
  | nil => exact ⟨r, r', hcut, hr', hskip, rfl⟩
  | cons rec rs ih =>
    rw [List.forall_mem_cons] at hrs
    simp only [List.flatMap_cons, WireRecord.bytes, List.append_assoc] at hr'
    obtain ⟨hne, t, t', hcut₁, ht', hfull, hpart⟩ :=
      hcut.skipMessage_tagged hrs.1.toTagged hr'
    rw [hfull, skipFrom, if_neg hne] at hskip
    obtain ⟨more, v, hfield, hskip⟩ := bind_eq_ok.1 hskip
    obtain ⟨rfl, v', hfield', hcut₂, hv'⟩ := hcut₁.skipField_whole hrs.1 ht' hfield
    rw [hpart, skipFrom_of_true hne hfield']
    exact ih hcut₂ hrs.2 hv' hskip

theorem skipMessage_payload {rs : List WireRecord} (hcut : r.Cut r')
    (hrs : ∀ rec ∈ rs, rec.Complete) (hrec : rec.Tagged)
    (hr' : r'.remaining = rs.flatMap WireRecord.bytes ++ rec.bytes)
    (hskip : skipMessage r = .ok () u) :
    ∃ t t' more v, t.Cut t' ∧ t'.remaining = rec.payload ∧
      skipField rec.tag.toUInt32 t = .ok more v ∧
      ∀ e s, skipField rec.tag.toUInt32 t' = .error e s → skipMessage r' = .error e s := by
  obtain ⟨t, t', hcut₁, ht', hskip, heq⟩ := hcut.skipMessage_records hrs hr' hskip
  obtain ⟨hne, v, v', hcut₂, hv', hfull, hpart⟩ := hcut₁.skipMessage_tagged hrec ht'
  rw [hfull, skipFrom, if_neg hne] at hskip
  obtain ⟨more, w, hfield, -⟩ := bind_eq_ok.1 hskip
  refine ⟨v, v', more, w, hcut₂, hv', hfield, fun e s hs => ?_⟩
  rw [heq, hpart, skipFrom_of_error hne hs]

theorem skipField_group (hcut : r.Cut r') (htype : Tag.wireType tag = .ok .startGroup)
    (hskip : skipField tag r = .ok more u) :
    ∃ t t' v, t.Cut t' ∧ t'.remaining = r'.remaining ∧ skipMessage t = .ok () v ∧
      skipField tag r' = (do
        skipMessage
        checkLastTag (Tag.make (Tag.number tag) .endGroup)
        exitNested
        return true : Read Bool) t' := by
  rw [skipField_apply, skipPayload, htype] at hskip
  obtain ⟨_, t, henter, hskip⟩ := bind_eq_ok.1 hskip
  obtain ⟨_, v, hmessage, -⟩ := bind_eq_ok.1 hskip
  obtain ⟨t', henter', hcut', ht'⟩ := hcut.enterNested henter
  refine ⟨t, t', v, hcut', ht', hmessage, ?_⟩
  rw [skipField_apply, skipPayload, htype]
  exact bind_of_ok henter'

end Reader.Cut

/-- By induction on how they break off: what stands in front is skipped on both sides. -/
theorem WireRecord.BreaksOff.skipMessage {data : Bytes} (h : WireRecord.BreaksOff data e)
    {u : Reader} (hcut : r.Cut r') (hr' : r'.remaining = data)
    (hskip : ProtoWire.skipMessage r = .ok () u) : ∃ s, ProtoWire.skipMessage r' = .error e s := by
  induction h generalizing r r' u with
  | tag hrs htag hpart hrest =>
    obtain ⟨t, t', hcut, ht', -, heq⟩ := hcut.skipMessage_records hrs hr' hskip
    have hread := readTag_cut (ht' ▸ htag) (ht' ▸ hpart) hrest
    exact ⟨t', by rw [heq, skipMessage_apply, bind_of_error hread]⟩
  | payload hrs htag htype hwhole hrest =>
    obtain ⟨t, t', more, v, hcut, ht', hfield, herror⟩ :=
      hcut.skipMessage_payload hrs htag hr' hskip
    obtain ⟨s, hs⟩ := hwhole.skipField_cut hrest htype htag.type_eq hcut ht' hfield
    exact ⟨s, herror _ s hs⟩
  | group hrs htag htype hinner hpayload =>
    obtain ⟨t, t', more, v, hcut, ht', hfield, herror⟩ :=
      hcut.skipMessage_payload hrs htag hr' hskip
    obtain ⟨g, g', w, hcut, hg', hmessage, hgroup⟩ :=
      hcut.skipField_group (htype ▸ htag.type_eq) hfield
    rw [ht', hpayload, ← List.append_nil (List.flatMap _ _)] at hg'
    obtain ⟨x, x', hcut, hx', -, heq⟩ := hcut.skipMessage_records hinner hg' hmessage
    rw [skipMessage_of_atEnd (hcut.atEnd hx')] at heq
    -- at the limit no end-group tag was read
    have hlast : ∀ number, checkLastTag (Tag.make number .endGroup) { x' with lastTag := 0 } =
        .error .invalidEndTag { x' with lastTag := 0 } := by
      intro number
      rw [checkLastTag_apply, if_neg (Tag.make_ne_zero number).symm]
    refine ⟨{ x' with lastTag := 0 }, herror _ _ ?_⟩
    rw [hgroup, bind_of_ok heq, bind_of_error (hlast _)]
  | inside hrs htag htype hpayload ih =>
    obtain ⟨t, t', more, v, hcut, ht', hfield, herror⟩ :=
      hcut.skipMessage_payload hrs htag hr' hskip
    obtain ⟨g, g', w, hcut, hg', hmessage, hgroup⟩ :=
      hcut.skipField_group (htype ▸ htag.type_eq) hfield
    obtain ⟨s, hs⟩ := ih hcut (hg'.trans ht') hmessage
    exact ⟨s, herror _ s (by rw [hgroup, bind_of_error hs])⟩

/-! ### Reading on both sides -/

namespace Reader.Cut

theorem self (h : r.Cut r') : r'.Cut r' :=
  ⟨h.sound_cut, h.sound_cut, h.pos_le, rfl, List.prefix_rfl⟩

theorem openMessage {limit : Nat} (h : r.Cut r) (hopen : openMessage r = .ok limit t) :
    t.Cut t ∧ t.bytesLeft ≤ r.bytesLeft := by
  obtain ⟨n, t₁, hlength, henter, hroom, -, rfl⟩ := openMessage_eq_ok.1 hopen
  obtain ⟨_, ht₁, hcut₁⟩ := h.exists_ok (localAt_readLength r) hlength
  cases hlength.symm.trans ht₁
  obtain ⟨_, ht₂, hcut₂, -⟩ := hcut₁.enterNested henter
  cases henter.symm.trans ht₂
  have hle := (advances_readLength hlength).bytesLeft_le
  have hsound : Reader.Sound { t₁ with depth := t₁.depth + 1, limit := t₁.pos + n } :=
    ⟨Nat.le_trans hroom hcut₂.sound.limit_le, hcut₂.sound.depth_le⟩
  refine ⟨⟨hsound, hsound, Nat.le_add_right .., rfl, List.prefix_rfl⟩, Nat.le_trans ?_ hle⟩
  exact Nat.sub_le_sub_right hroom t₁.pos

/-- What the first reader reads where it skips, the second one does if it can skip. -/
theorem of_skipField {α : Type} {x : Read α} {a : α} {more' : Bool} {v v' : Reader} (h : r.Cut r')
    (hlocal : LocalAt x r) (hx : x r = .ok a t) (hskip : skipField tag r = .ok more v)
    (halike : t.Alike v) (hskip' : skipField tag r' = .ok more' v') : ∃ t', x r' = .ok a t' := by
  obtain ⟨bytes, rest, hr, hreads⟩ := hlocal h.sound a t hx
  obtain ⟨bytes', rest', hr', hreads'⟩ := localAt_skipField_tag tag r' h.sound_cut more' v' hskip'
  obtain ⟨behind, hbehind⟩ := h.exists_remaining hr'
  rw [h.levels_eq] at hreads'
  obtain ⟨w, hw, halike'⟩ := hreads'.exists_ok h.sound hbehind
  cases hskip.symm.trans hw
  -- both end at the same place, and so took the same bytes
  have hlength : bytes.length = bytes'.length := by
    obtain ⟨_, hto⟩ := (hreads.alike h.sound hr hx).trans halike
    obtain ⟨_, hto'⟩ := halike'
    have hpos := congrArg Reader.pos (hto.symm.trans hto')
    simp only [Reader.advance] at hpos
    omega
  obtain ⟨rfl, -⟩ := List.append_inj (hr.symm.trans hbehind) hlength
  rw [← h.levels_eq] at hreads
  obtain ⟨t', ht', -⟩ := hreads.exists_ok h.sound_cut hr'
  exact ⟨t', ht'⟩

end Reader.Cut

end ProtoWire
