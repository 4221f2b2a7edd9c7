import ProtoWire.Proofs.Message.Blame
import ProtoWire.Proofs.Message.Cut

/-!
# Merging bytes that are cut off

The first of some bytes that can be read are merged. If that fails for what is read, then with the
error that skipping them gives, wherever merging meets it.
-/

namespace ProtoWire

variable {t v : Reader} {e : DecodeError} {n : Nat} {number tag : UInt32} {S : Schema}
  {us : List Update} {E : DecodeError → Prop} {p : PlacedField} {u : Update} {read : Reading}

/-! ### Payloads that cannot be skipped -/

section Errors

variable {σ α : Type} {r : Reader}

/-- A number of fixed size that cannot be read cannot be skipped. -/
theorem skipRaw_of_readFixed (hsound : r.Sound) (h : readFixed n r = .error e t) :
    skipRaw n r = .error e t := by
  rw [readFixed_apply, List.length_take, Reader.length_remaining hsound.limit_le] at h
  split at h
  · cases h
    exact WireRecord.skipRaw_cut (by omega)
  · cases h

/-- A varint that cannot be read cannot be skipped. -/
theorem readVarint64_of_readVarint32 (h : readVarint32 r = .error e t) :
    readVarint64 r = .error e t := by
  rw [readVarint32_eq] at h
  rw [readVarint64_eq]
  cases hdecode : Varint.decode r.remaining with
  | ok p =>
    rw [hdecode] at h
    cases h
  | error e' =>
    rw [hdecode] at h
    cases h
    rfl

theorem skipField_of_readScalar {kind : Scalar} (hsound : r.Sound)
    (h : readScalar kind r = .error e t) :
    skipField (Tag.make number kind.wireType) r = .error e t := by
  rw [skipField_make]
  cases kind with
  | uint64 => exact bind_of_error h
  | int64 | bool | sint64 => exact bind_of_error (map_eq_error.1 h)
  | uint32 => exact bind_of_error (readVarint64_of_readVarint32 h)
  | int32 | sint32 => exact bind_of_error (readVarint64_of_readVarint32 (map_eq_error.1 h))
  | double | fixed64 | float | fixed32 =>
    exact bind_of_error (skipRaw_of_readFixed hsound (map_eq_error.1 h))
  | sfixed32 | sfixed64 =>
    exact bind_of_error (skipRaw_of_readFixed hsound (map_eq_error.1 (map_eq_error.1 h)))

/-- A length cannot be read, or there are fewer bytes. -/
theorem skipField_len_error (h : skipField (Tag.make number .len) r = .error e t) :
    readLength r = .error e t ∨
      e = .truncated ∧ ∃ n, readLength r = .ok n t ∧ t.bytesLeft < n := by
  rw [skipField_make] at h
  simp only at h
  cases hlength : readLength r with
  | error e' u =>
    rw [bind_of_error hlength] at h
    cases h
    exact .inl rfl
  | ok n u =>
    rw [bind_of_ok hlength] at h
    by_cases hroom : u.bytesLeft < n
    · rw [bind_of_error (WireRecord.skipRaw_cut hroom)] at h
      cases h
      exact .inr ⟨rfl, n, rfl, hroom⟩
    · rw [bind_of_ok (skipRaw_eq_ok.2 ⟨Nat.le_of_not_lt hroom, rfl⟩)] at h
      cases h

/-- What starts with a length fails at the length, or for want of the bytes. -/
theorem blames_len (hskip : skipField (Tag.make number .len) r = .error e t) {a : σ}
    {k : Nat → Merge σ α}
    (hk : ∀ n u, readLength r = .ok n u → u.bytesLeft < n → Blames (· = .truncated) (k n) ⟨a, u⟩) :
    Blames (· = e) (Merge.read readLength >>= k) ⟨a, r⟩ := by
  rcases skipField_len_error hskip with hlength | ⟨rfl, n, hlength, hroom⟩
  · exact blames_read_error hlength a k
  · refine .bind_of_ok (Merge.read_of_ok hlength) ?_
    exact hk n t hlength hroom

theorem blames_readRaw (hroom : r.bytesLeft < n) (a : σ) (k : Bytes → Merge σ α) :
    Blames (· = .truncated) (Merge.read (readRaw n) >>= k) ⟨a, r⟩ := by
  have hraw : readRaw n r = .error .truncated r := by rw [readRaw_apply, if_pos hroom]
  exact blames_read_error hraw a k

theorem blames_pushLimit (hroom : r.bytesLeft < n) (a : σ) (k : Nat → Merge σ α) :
    Blames (· = .truncated) (Merge.read (pushLimit n) >>= k) ⟨a, r⟩ := by
  have hlimit : pushLimit n r = .error .truncated r := by
    rw [Reader.bytesLeft] at hroom
    rw [pushLimit_apply, if_pos (by omega)]
  exact blames_read_error hlimit a k

end Errors

/-! ### Nested messages -/

/-- Merging messages, less than `n` bytes before the limit: one that is merged is skipped, and if the
bytes of one that can be read are cut off, it fails as it would be skipped. -/
structure FailsAsSkipped (S : Schema) (nested : Nested) (n : Nat) : Prop where
  keeps : ∀ type, KeepsTarget (Message.Fits S type) (nested type)
  skips : ∀ {type : TypeId} {m : Message} {r : Reader} {s : Merging Message}, m.Fits S type →
    nested type ⟨m, r⟩ = .ok () s → skipMessage r = .ok () s.reader
  blames : ∀ {type : TypeId} {m : Message} {r r' t : Reader} {us : List Update}, m.Fits S type →
    r.Cut r' → r'.bytesLeft < n → readContents S type r = .ok us t →
      Blames (fun e => ∃ u, skipMessage r' = .error e u) (nested type) ⟨m, r'⟩

section Values

variable (hS : S.Valid) {nested : Nested} (hnested : FailsAsSkipped S nested n) {type : TypeId}
  {m : Message} {r r' : Reader} (hleft : r'.bytesLeft < n)

include hnested hleft

theorem blames_readGroup (hm : m.Fits S type) (hnumber : number < 0x20000000) (hcut : r.Cut r')
    {u : Reader} (henter : enterNested r = .ok () t) (hread : readContents S type t = .ok us u) :
    Blames (fun e => ∃ v, skipField (Tag.make number .startGroup) r' = .error e v)
      (readGroup number (nested type)) ⟨m, r'⟩ := by
  obtain ⟨t', henter', hcut', ht'⟩ := hcut.enterNested henter
  have hleft' : t'.bytesLeft < n := by
    rw [hcut'.bytesLeft_eq, ht', ← hcut.bytesLeft_eq]
    exact hleft
  have hskip : skipField (Tag.make number .startGroup) r' = (do
      skipMessage
      closeGroup number
      return true : Read Bool) t' := by
    rw [skipField_make]
    simp only [closeGroup, bind_assoc]
    rw [bind_of_ok henter', Tag.number_make hnumber]
  rw [readGroup_eq]
  refine .bind_of_ok (Merge.read_of_ok henter') ?_
  refine Blames.bind (fun e s he => ?_) fun _ s hs => blames_read fun e v he => ?_
  · obtain ⟨v, hv⟩ := hnested.blames hm hcut' hleft' hread e s he
    exact ⟨v, by rw [hskip, bind_of_error hv]⟩
  · exact ⟨v, by rw [hskip, bind_of_ok (hnested.skips hm hs), bind_of_error he]⟩

include hS in
/-- A nested message that is there as a whole does not fail for what is read. -/
theorem blames_readMessage (hm : m.Fits S type) (hcut : r'.Cut r') {limit : Nat} {u : Reader}
    (hopen : openMessage r' = .ok limit t) (hread : readContents S type t = .ok us u)
    (hclose : closeMessage limit u = .ok () v) : Blames E (readMessage (nested type)) ⟨m, r'⟩ := by
  obtain ⟨hcut', hle⟩ := hcut.openMessage hopen
  have hskip := skippable_readContents hS type hread
  rw [readMessage_eq]
  refine .bind_of_ok (Merge.read_of_ok hopen) ?_
  refine Blames.bind (fun e s he => ?_) fun _ s hs => blames_read fun e w he => ?_
  · obtain ⟨w, hw⟩ := hnested.blames hm hcut' (Nat.lt_of_le_of_lt hle hleft) hread e s he
    cases hskip.symm.trans hw
  · have hsame := hskip.symm.trans (hnested.skips hm hs)
    rw [EStateM.Result.ok.injEq] at hsame
    rw [← hsame.2] at he
    cases hclose.symm.trans he

include hS in
/-- A value that is there as a whole does not fail for what is read. -/
theorem PlacedField.blamesValue_of_ok (hnumber : p.1.number < 0x20000000) (hcut : r'.Cut r')
    (hu : p.readUpdate (readContents S) r' = .ok u t) : p.1.BlamesValue S nested E r' := by
  have hskip := p.skipField_readUpdate (skippable_readContents hS) hnumber hu
  obtain ⟨⟨_, _, element, _⟩, _⟩ := p
  cases element with
  | scalar | enum =>
    obtain ⟨value, hvalue, -⟩ := map_eq_ok.1 hu
    intro e s he
    cases hvalue.symm.trans he
  | text _ =>
    obtain ⟨text, htext, -⟩ := map_eq_ok.1 hu
    intro old
    obtain ⟨s, hs, -⟩ := (follows_readTextInto old r' t text).2 ⟨text, htext, rfl⟩
    exact .of_ok hs
  | blob _ =>
    obtain ⟨bytes, hbytes, -⟩ := map_eq_ok.1 hu
    intro old
    obtain ⟨s, hs, -⟩ := (follows_readBlobInto old r' t bytes).2 ⟨bytes, hbytes, rfl⟩
    exact .of_ok hs
  | message type =>
    obtain ⟨us, hus, -⟩ := map_eq_ok.1 hu
    obtain ⟨limit, t₁, hopen, hus⟩ := bind_eq_ok.1 hus
    obtain ⟨_, t₂, hread, hus⟩ := bind_eq_ok.1 hus
    obtain ⟨_, t₃, hclose, -⟩ := bind_eq_ok.1 hus
    exact fun m hm => blames_readMessage hS hnested hleft hm hcut hopen hread hclose
  | group type =>
    obtain ⟨us, hus, -⟩ := map_eq_ok.1 hu
    obtain ⟨_, t₁, henter, hus⟩ := bind_eq_ok.1 hus
    obtain ⟨_, t₂, hread, -⟩ := bind_eq_ok.1 hus
    obtain ⟨v, hv, -⟩ := hskip
    intro m hm
    refine (blames_readGroup hnested hleft hm hnumber hcut henter hread).mono ?_
    rintro e ⟨w, hw⟩
    cases hv.symm.trans hw

/-- A value that cannot be skipped fails in the same way. -/
theorem PlacedField.blamesValue_of_error (hnumber : p.1.number < 0x20000000) (hcut : r.Cut r')
    (hu : p.readUpdate (readContents S) r = .ok u t)
    (hskip : skipField (Tag.make p.1.number p.1.element.category.wireType) r' = .error e v) :
    p.1.BlamesValue S nested (· = e) r' := by
  have hscalar : ∀ {kind : Scalar} {number : UInt32},
      skipField (Tag.make number kind.wireType) r' = .error e v →
        ∀ e' t, readScalar kind r' = .error e' t → e' = e := by
    intro kind number hskip e' t he
    cases hskip.symm.trans (skipField_of_readScalar hcut.sound_cut he)
    rfl
  obtain ⟨⟨_, number, element, _⟩, _⟩ := p
  cases element with
  | scalar kind _ => exact hscalar hskip
  | enum declared default => exact @hscalar .int32 number hskip
  | text _ =>
    intro old
    refine blames_len hskip fun length t _ hroom => .bind_of_ok rfl ?_
    rw [if_pos (Nat.ne_zero_of_lt hroom)]
    exact blames_readRaw hroom _ _
  | blob _ => exact fun old => blames_len hskip fun length t _ hroom => blames_readRaw hroom _ _
  | message type =>
    obtain ⟨us, hus, -⟩ := map_eq_ok.1 hu
    obtain ⟨limit, t₁, hopen, -⟩ := bind_eq_ok.1 hus
    obtain ⟨length, t₂, hlength, henter, -⟩ := openMessage_eq_ok.1 hopen
    intro m hm
    refine blames_len hskip fun length' t hlength' hroom => ?_
    obtain ⟨_, ht, hcut₁⟩ := hcut.exists_ok (localAt_readLength r') hlength'
    cases hlength.symm.trans ht
    obtain ⟨t', henter', hcut₂, ht'⟩ := hcut₁.enterNested henter
    refine .bind_of_ok (Merge.read_of_ok henter') ?_
    refine blames_pushLimit ?_ _ _
    rw [hcut₂.bytesLeft_eq, ht', ← hcut₁.bytesLeft_eq]
    exact hroom
  | group type =>
    obtain ⟨us, hus, -⟩ := map_eq_ok.1 hu
    obtain ⟨_, t₁, henter, hus⟩ := bind_eq_ok.1 hus
    obtain ⟨_, t₂, hread, -⟩ := bind_eq_ok.1 hus
    intro m hm
    refine (blames_readGroup hnested hleft hm hnumber hcut henter hread).mono ?_
    rintro e' ⟨w, hw⟩
    cases hskip.symm.trans hw
    rfl

end Values

/-! ### Packed runs -/

section Packed

variable (hS : S.Valid) {nested : Nested}
  (hkeeps : ∀ type, KeepsTarget (Message.Fits S type) (nested type)) (hrep : p.1.isRepeated = true)
  (hpack : p.1.element.category.isPackable = true) {slot : Slot Message} (hslot : p.1.FitsIn S slot)
  {r : Reader}

include hrep hpack hslot in
theorem PlacedField.reader_readElement {s : Merging (Slot Message)}
    (hu : p.readUpdate read r = .ok u t) (h : p.1.readElement S nested ⟨slot, r⟩ = .ok () s) :
    s.reader = t := by
  have hcollects := hslot.holds.collects hrep
  obtain ⟨⟨⟩, _⟩ := p
  cases hcollects with
  | scalar | enum =>
    obtain ⟨value, hvalue, -⟩ := map_eq_ok.1 hu
    obtain ⟨value', t', hvalue', h⟩ := Merge.read_bind_eq_ok.1 h
    obtain ⟨c, -, rfl⟩ := Merge.edit_eq_ok.1 h
    cases hvalue.symm.trans hvalue'
    rfl
  | text | blob | message | group => cases hpack

include hpack in
theorem PlacedField.blamesValue_packed (hu : p.readUpdate read r = .ok u t) :
    p.1.BlamesValue S nested E r := by
  obtain ⟨⟨_, _, element, _⟩, _⟩ := p
  cases element with
  | scalar | enum =>
    obtain ⟨value, hvalue, -⟩ := map_eq_ok.1 hu
    intro e s he
    cases hvalue.symm.trans he
  | text | blob | message | group => cases hpack

include hS hkeeps hrep hpack hslot in
/-- By induction on the values: each is there, and only room may be missing. -/
theorem PlacedField.blames_readToLimit {fuel : Nat} (hus : p.readUpdates read fuel r = .ok us t) :
    Blames E (p.1.readToLimit S nested fuel) ⟨slot, r⟩ := by
  induction fuel generalizing r us slot t with
  | zero => cases hus
  | succ fuel ih =>
    have hkeep := p.1.keeps_readElement hS hkeeps
    rw [PlacedField.readUpdates, bind_of_ok get_apply] at hus
    unfold Field.readToLimit
    refine .bind_of_ok (Merge.read_of_ok get_apply) ?_
    cases hend : r.atEnd with
    | true =>
      simp only [if_true]
      exact .of_ok rfl
    | false =>
      rw [if_neg (by simp [hend])] at hus
      obtain ⟨u, r₁, hu, hus⟩ := bind_eq_ok.1 hus
      obtain ⟨us', r₂, hus', -⟩ := bind_eq_ok.1 hus
      simp only [Bool.false_eq_true, if_false]
      refine ((p.blamesValue_packed hpack hu).readElement hS hslot hrep).bind fun _ s hs => ?_
      have hfits : p.1.FitsIn S s.target := by
        simpa only [hs] using hkeep ⟨slot, r⟩ hslot
      cases p.reader_readElement hrep hpack hslot hu hs
      exact ih hfits hus'

include hS hkeeps hrep hpack hslot in
/-- A packed run that is there as a whole does not fail for what is read. -/
theorem PlacedField.blames_readPacked (hus : p.readPackedUpdates read r = .ok us t) :
    Blames E (p.1.readPacked S nested) ⟨slot, r⟩ := by
  obtain ⟨⟨limit, length⟩, r₁, hopen, hus⟩ := bind_eq_ok.1 hus
  obtain ⟨us', r₂, hus, -⟩ := bind_eq_ok.1 hus
  obtain ⟨t, hlength, hlimit⟩ := openRun_eq_ok.1 hopen
  have hbytes : r₁.bytesLeft = length := by
    obtain ⟨-, -, rfl⟩ := pushLimit_eq_ok.1 hlimit
    exact Nat.add_sub_cancel_left ..
  unfold Field.readPacked
  refine .bind_of_ok (Merge.read_of_ok hlength) ?_
  refine .bind_of_ok (Merge.read_of_ok hlimit) ?_
  refine .bind_of_ok (Merge.read_of_ok get_apply) ?_
  refine (blames_slotReserve _ slot r₁).bind fun _ s hs => ?_
  obtain ⟨slot', hslot', -, hfits⟩ | ⟨-, hnot⟩ := reserve_slot hslot hrep _ r₁
  · cases hs.symm.trans hslot'
    rw [← hbytes] at hus
    exact (p.blames_readToLimit hS hkeeps hrep hpack hfits hus).bind fun _ _ _ => .of_ok rfl
  · exact absurd hs (hnot s)

omit hrep hpack hslot in
/-- A packed run that cannot be skipped fails in the same way. -/
theorem Field.blames_readPacked_of_error {f : Field}
    (hskip : skipField (Tag.make f.number .len) r = .error e v) :
    Blames (· = e) (f.readPacked S nested) ⟨slot, r⟩ :=
  blames_len hskip fun _ _ _ hroom => blames_pushLimit hroom _ _

end Packed

/-! ### Records -/

section Records

variable {L : Layout} {r : Reader} {x : List Update × Bool} (h : readPayload read L tag r = .ok x t)

include h

theorem readUpdate_of_readPayload {form : Form} (hroute : L.route tag = some (p, form))
    (hform : form ≠ .run) : ∃ u, p.readUpdate read r = .ok u t := by
  unfold readPayload at h
  cases form with
  | value | element =>
    simp only [hroute] at h
    obtain ⟨u, t', hu, h⟩ := bind_eq_ok.1 h
    cases h
    exact ⟨u, hu⟩
  | run => exact absurd rfl hform

theorem readPackedUpdates_of_readPayload (hroute : L.route tag = some (p, .run)) :
    ∃ us, p.readPackedUpdates read r = .ok us t := by
  unfold readPayload at h
  simp only [hroute] at h
  obtain ⟨us, t', hus, h⟩ := bind_eq_ok.1 h
  cases h
  exact ⟨us, hus⟩

end Records

section Merging

variable (hS : S.Valid) {nested : Nested} (hnested : FailsAsSkipped S nested n) {type : TypeId}
  {m : Message} {r r' : Reader}

include hS hnested

/-- A record that can be skipped fails only for what lies ahead, and another one as it would be
skipped. -/
theorem blames_payload (hm : m.Fits S type) (hcut : r.Cut r') (hleft : r'.bytesLeft < n)
    (hne : tag ≠ 0) {more : Bool}
    (hread : readPayload (readContents S) (S.layout type) tag r = .ok (us, more) t) :
    Blames (fun e => ∃ u, skipFrom tag r' = .error e u)
      (mergePayload S nested (S.layout type) tag) ⟨m, r'⟩ := by
  have hnumber : ∀ {p form}, (S.layout type).route tag = some (p, form) →
      p.1.number < 0x20000000 := fun hroute =>
    (hS type).number_lt _ (List.mem_of_getElem? (Layout.route_eq_some hroute).1)
  have hahead : ∀ p, (S.layout type).route tag = some (p, .element) → ∀ e u,
      repeatedLength tag r' = .error e u → skipFrom tag r' = .error e u := fun p hroute e u h =>
    skipFrom_of_repeatedLength hne (Layout.wireType_ne_of_route hroute) h
  cases hskip : skipField tag r' with
  | error e v =>
    have hfrom := skipFrom_of_error hne hskip
    have hblames : Blames (· = e) (mergePayload S nested (S.layout type) tag) ⟨m, r'⟩ := by
      refine blames_mergePayload hS hm ?_ ?_ ?_ ?_
      · intro p form hroute hform
        obtain ⟨u, hu⟩ := readUpdate_of_readPayload hread hroute hform
        have htag := Layout.tag_of_route hroute
        refine p.blamesValue_of_error hnested hleft (hnumber hroute) hcut hu (v := v) ?_
        cases form with
        | run => exact absurd rfl hform
        | value | element => exact htag ▸ hskip
      · intro p hroute slot hslot
        exact p.1.blames_readPacked_of_error (Layout.tag_of_route hroute ▸ hskip)
      · intro p hroute e' u h
        cases hfrom.symm.trans (hahead p hroute e' u h)
        rfl
      · intro e' u h
        cases hskip.symm.trans h
        rfl
    refine hblames.mono ?_
    rintro _ rfl
    exact ⟨v, hfrom⟩
  | ok more' v =>
    have hlocal : LocalAt (readPayload (readContents S) (S.layout type) tag) r :=
      localAt_readPayload hS (fun type t _ => contentsAt t hS type)
        (fun type t _ => contentsAt t Schema.valid_void type) type tag
    obtain ⟨w, hw, halike, -⟩ :=
      skipField_readPayload (skippable_readContents hS) (hS type) hne hread
    obtain ⟨t', hread'⟩ := hcut.of_skipField hlocal hread hw halike hskip
    refine blames_mergePayload hS hm ?_ ?_ ?_ ?_
    · intro p form hroute hform
      obtain ⟨u, hu⟩ := readUpdate_of_readPayload hread' hroute hform
      exact p.blamesValue_of_ok hS hnested hleft (hnumber hroute) hcut.self hu
    · intro p hroute slot hslot
      obtain ⟨us, hus⟩ := readPackedUpdates_of_readPayload hread' hroute
      exact p.blames_readPacked hS hnested.keeps (Layout.isRepeated_of_route hroute)
        ((hS type).isPackable_of_route hroute) hslot hus
    · exact fun p hroute e u h => ⟨u, hahead p hroute e u h⟩
    · intro e u h
      cases hskip.symm.trans h

/-- By induction on the bytes left: behind a record that was merged both sides go on, up to where the
bytes are cut off. -/
theorem blames_mergeFrom (hcomposed : ∀ type, ComposedMerge (nested type)) (hread : Skippable read)
    (hfollows : ∀ (type : TypeId) (m : Message), m.Fits S type →
      Follows (Message.view S (S.layout type)) (nested type) (read type) (applyAll S type) m)
    (hm : m.Fits S type) (hcut : r.Cut r') (hleft : r'.bytesLeft < n)
    (hus : readFrom (readContents S) (S.layout type) tag r = .ok us t) :
    Blames (fun e => ∃ u, skipFrom tag r' = .error e u)
      (mergeFrom S nested (S.layout type) tag) ⟨m, r'⟩ := by
  induction hbytes : r'.bytesLeft using Nat.strongRecOn generalizing m r r' tag us t with
  | ind k ih =>
    by_cases hne : tag = 0
    · subst hne
      exact .of_ok (mergeFrom_zero (hS type).routed _)
    rw [readFrom_apply (skippable_readContents hS) (hS type)] at hus
    obtain ⟨⟨us₁, more⟩, t₁, hpayload, hus⟩ := bind_eq_ok.1 hus
    have hrecords : Blames (fun e => ∃ u, skipFrom tag r' = .error e u) (do
        if ← mergePayload S nested (S.layout type) tag then
          mergeFrom S nested (S.layout type) (← Merge.read readTag)) ⟨m, r'⟩ := by
      refine (blames_payload hS hnested hm hcut hleft hne hpayload).bind fun more' s hs => ?_
      cases more' with
      | false => exact .of_ok rfl
      | true =>
        obtain ⟨m₁, t₁'⟩ := s
        have hm₁ : m₁.Fits S type := by
          simpa only [hs] using keeps_mergePayload hS hnested.keeps tag ⟨m, r'⟩ hm
        have hle := ((composed_mergePayload hcomposed (S.layout type) tag).advances hs).bytesLeft_le
        obtain ⟨us', hus', -⟩ := mergePayload_sound hS hfollows hm hnested.keeps hs
        obtain ⟨v', hskip', halike', -⟩ := skipField_readPayload hread (hS type) hne hus'
        obtain ⟨v, hskip, hcutv⟩ := hcut.exists_ok (localAt_skipField_tag tag r') hskip'
        obtain ⟨w, hw, halike, -⟩ :=
          skipField_readPayload (skippable_readContents hS) (hS type) hne hpayload
        cases hskip.symm.trans hw
        have hcut₁ : t₁.Cut t₁' := hcutv.alike halike.symm halike'.symm
        simp only [if_true] at hus
        obtain ⟨us₂, t₂, hrest, -⟩ := bind_eq_ok.1 hus
        obtain ⟨next₁, t₃, hnext₁, hrest⟩ := bind_eq_ok.1 hrest
        refine Blames.bind (blames_read fun e u he => ?_) fun next s hs => ?_
        · obtain ⟨u', hu'⟩ := halike'.readTag_error he
          exact ⟨u', by rw [skipFrom_of_true hne hskip', skipMessage_apply, bind_of_error hu']⟩
        · obtain ⟨t₃', hnext, rfl⟩ := Merge.read_eq_ok.1 hs
          by_cases hend : next = 0
          · subst hend
            exact .of_ok (mergeFrom_zero (hS type).routed _)
          · obtain ⟨t₄, ht₄, hcut₂⟩ := hcut₁.readTag hnext hend
            cases hnext₁.symm.trans ht₄
            have hlt := bytesLeft_readTag hnext hend
            simp only at hle hlt
            refine (ih _ (by omega) hm₁ hcut₂ (by omega) hrest rfl).mono ?_
            rintro e ⟨u, hu⟩
            refine ⟨u, ?_⟩
            rw [skipFrom_of_true hne hskip', skipMessage_apply,
              bind_of_ok (halike'.readTag hnext), hu]
    intro e u he
    rw [mergeFrom_apply hcomposed (hS type).routed] at he
    exact hrecords e u he

end Merging

/-! ### Messages -/

/-- By induction on the fuel: what is nested has less of it. -/
theorem failsAsSkipped_mergeWithin (hS : S.Valid) (order : FieldOrder) (fuel : Nat) :
    FailsAsSkipped S (mergeWithin S order fuel) fuel := by
  have hrouted := fun type => (hS type).routed
  have hskips : ∀ {fuel type} {m : Message} {r s}, m.Fits S type →
      mergeWithin S order fuel type ⟨m, r⟩ = .ok () s → skipMessage r = .ok () s.reader := by
    intro fuel type m r s hm h
    obtain ⟨us, hus, -⟩ :=
      (follows_mergeWithin hS order fuel type m hm r s.reader _).1 ⟨s.target, h, rfl⟩
    exact skippable_readWithin hS fuel type hus
  induction fuel with
  | zero => exact ⟨keeps_mergeWithin hS order 0, hskips, fun _ _ h => absurd h (Nat.not_lt_zero _)⟩
  | succ fuel ih =>
    refine ⟨keeps_mergeWithin hS order _, hskips, fun {type m r r' t us} hm hcut hleft hread => ?_⟩
    have hcomposed := composed_mergeWithin hrouted order fuel
    rw [readContents_apply hS] at hread
    obtain ⟨tag₁, t₁, htag₁, hread⟩ := bind_eq_ok.1 hread
    rw [mergeWithin, mergeFields_eq hcomposed (hrouted type)]
    refine Blames.bind (blames_read fun e u he => ?_) fun tag s hs => ?_
    · exact ⟨u, by rw [skipMessage_apply, bind_of_error he]⟩
    · obtain ⟨t', htag, rfl⟩ := Merge.read_eq_ok.1 hs
      by_cases hzero : tag = 0
      · subst hzero
        exact .of_ok (mergeFrom_zero (hrouted type) _)
      · obtain ⟨t₂, ht₂, hcut'⟩ := hcut.readTag htag hzero
        cases htag₁.symm.trans ht₂
        have hlt : t'.bytesLeft < r'.bytesLeft := bytesLeft_readTag htag hzero
        refine (blames_mergeFrom hS ih hcomposed (skippable_readWithin hS fuel)
          (follows_mergeWithin hS order fuel) hm hcut' (by omega) hread).mono ?_
        rintro e ⟨u, hu⟩
        exact ⟨u, by rw [skipMessage_apply, bind_of_ok htag, hu]⟩

end ProtoWire
