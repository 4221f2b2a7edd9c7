import ProtoWire.Proofs.Message.Storing

/-!
# What is read can be skipped

What was read as updates is passed over by skipping, which ends in the same place. Looking ahead
counts no more records of a field than its updates.
-/

namespace ProtoWire

variable {p : PlacedField} {us : List Update} {fuel : Nat} {tag : UInt32}

/-- Where contents can be read, they can be skipped. -/
def Skippable (read : Reading) : Prop :=
  ∀ (type : TypeId) {r r' : Reader} {us : List Update}, read type r = .ok us r' →
    skipMessage r = .ok () r'

section Values

variable {read : Reading} (hread : Skippable read) {r r' : Reader}

theorem skipField_make (number : UInt32) (wireType : WireType) (r : Reader) :
    skipField (Tag.make number wireType) r =
      (match wireType with
        | .varint => do
          let _ ← readVarint64
          return true
        | .i64 => do
          skipRaw fixed64Size
          return true
        | .len => do
          skipRaw (← readLength)
          return true
        | .startGroup => do
          enterNested
          skipMessage
          checkLastTag (Tag.make (Tag.number (Tag.make number .startGroup)) .endGroup)
          exitNested
          return true
        | .endGroup => return false
        | .i32 => do
          skipRaw fixed32Size
          return true : Read Bool) r := by
  rw [skipField_apply, skipPayload, Tag.wireType_make]
  cases wireType <;> rfl

theorem skipField_len {number : UInt32} {n : Nat} (hlength : readLength r = .ok n r')
    (hroom : n ≤ r'.bytesLeft) :
    skipField (Tag.make number .len) r = .ok true (r'.advance n) := by
  rw [skipField_make]
  simp only
  rw [bind_of_ok hlength, bind_of_ok (skipRaw_eq_ok.2 ⟨hroom, rfl⟩)]
  rfl

theorem skipField_readScalar {kind : Scalar} {value : kind.Value} {number : UInt32}
    (h : readScalar kind r = .ok value r') :
    skipField (Tag.make number kind.wireType) r = .ok true r' := by
  rw [skipField_make]
  cases hkind : kind.fixedSize with
  | some n =>
    obtain ⟨hle, rfl⟩ := readScalar_fixed hkind h
    have hskip := skipRaw_eq_ok.2 ⟨Nat.le_trans hle r.length_remaining_le, rfl⟩
    cases kind <;> cases hkind <;> exact bind_of_ok hskip
  | none =>
    obtain ⟨full, n, hn, rfl⟩ := readScalar_varint hkind h
    have hskip : readVarint64 r = .ok full (r.advance n) := readVarint64_eq_ok.2 ⟨n, hn, rfl⟩
    cases kind <;> cases hkind <;> exact bind_of_ok hskip

theorem skipField_readBlob {bytes : Bytes} {number : UInt32} (h : readBlob r = .ok bytes r') :
    skipField (Tag.make number .len) r = .ok true r' := by
  obtain ⟨n, t, hlength, h⟩ := bind_eq_ok.1 h
  obtain ⟨hroom, -, rfl⟩ := readRaw_eq_ok.1 h
  exact skipField_len hlength hroom

theorem decodeText_reader {bytes : Bytes} {text : String} (h : decodeText bytes r = .ok text r') :
    r' = r := by
  unfold decodeText at h
  cases htext : utf8Text? bytes with
  | none =>
    rw [htext] at h
    cases h
  | some text =>
    rw [htext] at h
    cases h
    rfl

include hread in
/-- A nested message ends at its limit, and a group with its tag. -/
theorem Field.skipField_readContents {f : Field} {type : TypeId}
    (htype : f.element.type? = some type) (hnumber : f.number < 0x20000000)
    (h : f.readContents read r = .ok us r') :
    ∃ r'', skipField (Tag.make f.number f.element.category.wireType) r = .ok true r'' ∧
      r'.Alike r'' := by
  obtain ⟨_, _, element, _⟩ := f
  cases element with
  | message t =>
    obtain ⟨limit, r₁, hopen, h⟩ := bind_eq_ok.1 h
    obtain ⟨us', r₂, hcontents, h⟩ := bind_eq_ok.1 h
    obtain ⟨_, r₃, hclose, h⟩ := bind_eq_ok.1 h
    cases h
    obtain ⟨n, t₁, hlength, -, hroom, rfl, rfl⟩ := openMessage_eq_ok.1 hopen
    obtain ⟨hzero, rfl⟩ := closeMessage_eq_ok.1 hclose
    have hskip := hread t hcontents
    have hend := atEnd_of_skipMessage hskip hzero
    have hahead := advances_skipMessage hskip
    have hbytes : n ≤ t₁.bytesLeft := Nat.le_sub_of_add_le' hroom
    refine ⟨_, skipField_len hlength hbytes, t₁.lastTag, ?_⟩
    cases t₁
    cases r₂
    obtain ⟨⟨⟩, ⟨⟩, ⟨⟩, ⟨⟩, -, -⟩ := hahead
    simp only [Reader.atEnd, beq_iff_eq] at hend
    subst hend
    simp [Reader.advance]
  | group t =>
    obtain ⟨_, r₁, henter, h⟩ := bind_eq_ok.1 h
    obtain ⟨us', r₂, hcontents, h⟩ := bind_eq_ok.1 h
    obtain ⟨_, r₃, hclose, h⟩ := bind_eq_ok.1 h
    cases h
    obtain ⟨_, t₃, hlast, hclose⟩ := bind_eq_ok.1 hclose
    refine ⟨_, ?_, .refl _⟩
    rw [skipField_make]
    simp only [Element.category, Category.wireType]
    rw [bind_of_ok henter, bind_of_ok (hread t hcontents), Tag.number_make hnumber,
      bind_of_ok hlast, bind_of_ok hclose]
    rfl
  | scalar | enum | text | blob => cases htype

include hread in
theorem PlacedField.skipField_readUpdate {u : Update} (hnumber : p.1.number < 0x20000000)
    (h : p.readUpdate read r = .ok u r') :
    ∃ r'', skipField (Tag.make p.1.number p.1.element.category.wireType) r = .ok true r'' ∧
      r'.Alike r'' := by
  obtain ⟨⟨_, number, element, _⟩, _⟩ := p
  cases element with
  | scalar kind _ =>
    obtain ⟨value, hvalue, -⟩ := map_eq_ok.1 h
    exact ⟨r', skipField_readScalar hvalue, .refl _⟩
  | enum declared default =>
    obtain ⟨value, hvalue, -⟩ := map_eq_ok.1 h
    exact ⟨r', @skipField_readScalar r r' .int32 value number hvalue, .refl _⟩
  | text _ =>
    obtain ⟨text, htext, -⟩ := map_eq_ok.1 h
    obtain ⟨bytes, t, hbytes, htext⟩ := bind_eq_ok.1 htext
    rw [decodeText_reader htext]
    exact ⟨t, skipField_readBlob hbytes, .refl _⟩
  | blob _ =>
    obtain ⟨bytes, hbytes, -⟩ := map_eq_ok.1 h
    exact ⟨r', skipField_readBlob hbytes, .refl _⟩
  | message type | group type =>
    obtain ⟨us, hus, -⟩ := map_eq_ok.1 h
    exact Field.skipField_readContents hread rfl hnumber hus

include hread in
theorem PlacedField.ReadsRun.ahead (hnumber : p.1.number < 0x20000000)
    (h : p.ReadsRun read r us r') : r.Ahead r' ∧ r'.atEnd = true := by
  induction h with
  | done hend => exact ⟨.refl _, hend⟩
  | more hu _ ih =>
    obtain ⟨t, hskip, halike⟩ := p.skipField_readUpdate hread hnumber hu
    exact ⟨(halike.ahead (advances_skipField _ hskip)).trans ih.1, ih.2⟩

include hread in
theorem PlacedField.skipField_readPackedUpdates (hnumber : p.1.number < 0x20000000)
    (h : p.readPackedUpdates read r = .ok us r') :
    ∃ r'', skipField (Tag.make p.1.number .len) r = .ok true r'' ∧ r'.Alike r'' := by
  obtain ⟨n, t, r₂, hlength, hroom, hus, rfl⟩ := p.readPackedUpdates_eq_ok h
  obtain ⟨hahead, hend⟩ := hus.ahead hread hnumber
  refine ⟨_, skipField_len hlength (Nat.le_sub_of_add_le' hroom), t.lastTag, ?_⟩
  cases t
  cases r₂
  obtain ⟨⟨⟩, ⟨⟩, ⟨⟩, ⟨⟩, -, -⟩ := hahead
  simp only [Reader.atEnd, beq_iff_eq] at hend
  subst hend
  rfl

end Values

/-! ### Records -/

theorem Layout.tag_of_route {L : Layout} {form : Form} (h : L.route tag = some (p, form)) :
    tag = Tag.make p.1.number
      (match form with | .run => .len | .value | .element => p.1.element.category.wireType) := by
  obtain ⟨-, ⟨rfl, rfl⟩ | ⟨htag, rfl⟩⟩ := L.route_eq_some h
  · obtain ⟨⟨_, _, _, placement⟩, i⟩ := p
    cases placement with
    | singular bit | member oneof bit => rfl
    | repeated packed => cases packed <;> rfl
  · obtain ⟨⟨⟩, _⟩ := p
    obtain ⟨packed, ⟨⟩, -, rfl⟩ := Field.alternateTag?_eq_some htag
    cases packed <;> rfl

theorem Layout.wireType_ne_of_route {L : Layout} {form : Form} (h : L.route tag = some (p, form)) :
    Tag.wireType tag ≠ .ok .endGroup := by
  rw [L.tag_of_route h, Tag.wireType_make]
  cases form with
  | run => exact nofun
  | value | element =>
    cases p.1.element with
    | scalar kind _ => cases kind <;> exact nofun
    | enum | text | blob | message | group => exact nofun

section Records

variable {read : Reading} (hread : Skippable read) {L : Layout} (hL : L.Valid) {r r' : Reader}

include hL in
theorem readPayload_zero (read : Reading) (r : Reader) :
    readPayload read L 0 r = .ok ([], false) r := by
  unfold readPayload
  rw [hL.routed.route_zero]
  rfl

include hread hL

/-- Skipping passes over a payload that was read. -/
theorem skipField_readPayload {more : Bool} (htag : tag ≠ 0)
    (h : readPayload read L tag r = .ok (us, more) r') :
    ∃ r'', skipField tag r = .ok more r'' ∧ r'.Alike r'' ∧ (more = false → r'' = r') := by
  have hnumber : ∀ (p : PlacedField) (form : Form), L.route tag = some (p, form) →
      p.1.number < 0x20000000 := fun p form hroute =>
    hL.number_lt p.1 (List.mem_of_getElem? (L.route_eq_some hroute).1)
  unfold readPayload at h
  cases hroute : L.route tag with
  | none =>
    simp only [hroute, htag, if_false] at h
    obtain ⟨more', t, hskip, h⟩ := bind_eq_ok.1 h
    cases h
    exact ⟨r', hskip, .refl _, fun _ => rfl⟩
  | some target =>
    obtain ⟨p, form⟩ := target
    have hmake := L.tag_of_route hroute
    have hnumber := hnumber p form hroute
    cases form with
    | value | element =>
      simp only [hroute] at h
      obtain ⟨u, t, hu, h⟩ := bind_eq_ok.1 h
      cases h
      obtain ⟨r'', hskip, halike⟩ := p.skipField_readUpdate hread hnumber hu
      exact ⟨r'', hmake ▸ hskip, halike, nofun⟩
    | run =>
      simp only [hroute] at h
      obtain ⟨us', t, hus, h⟩ := bind_eq_ok.1 h
      cases h
      obtain ⟨r'', hskip, halike⟩ := p.skipField_readPackedUpdates hread hnumber hus
      exact ⟨r'', hmake ▸ hskip, halike, nofun⟩

omit hread hL in
theorem PlacedField.index_readUpdate {u : Update} (h : p.readUpdate read r = .ok u r') :
    u.index = p.2 := by
  obtain ⟨⟨_, _, element, _⟩, _⟩ := p
  cases element
  all_goals
    obtain ⟨_, -, rfl⟩ := map_eq_ok.1 h
    rfl

omit hread hL in
theorem PlacedField.ReadsRun.index (h : p.ReadsRun read r us r') : ∀ u ∈ us, u.index = p.2 := by
  induction h with
  | done => exact List.forall_mem_nil _
  | more hu _ ih => exact List.forall_mem_cons.2 ⟨p.index_readUpdate hu, ih⟩

omit hread hL in
theorem PlacedField.index_readPackedUpdates (h : p.readPackedUpdates read r = .ok us r') :
    ∀ u ∈ us, u.index = p.2 := by
  obtain ⟨n, t, t', -, -, hus, -⟩ := p.readPackedUpdates_eq_ok h
  exact hus.index

/-- Records that were read can be passed over, and those of a repeated field have an update each. -/
theorem exists_tagsFrom {fuel' : Nat} (h : readRecords read L fuel tag r = .ok us r')
    (hfuel : tag ≠ 0 → r.bytesLeft < fuel') :
    ∃ tags, tagsFrom (recordTags fuel') tag r = .ok tags r' ∧
      ∀ {p tag'}, L.route tag' = some (p, .element) →
        tags.count tag' ≤ us.countP (·.index == p.2) := by
  induction fuel generalizing tag r us fuel' with
  | zero => cases h
  | succ fuel ih =>
    obtain ⟨⟨us₁, more⟩, r₁, hpayload, h⟩ := bind_eq_ok.1 h
    by_cases hzero : tag = 0
    · subst hzero
      cases (readPayload_zero hL read r).symm.trans hpayload
      cases h
      exact ⟨[], tagsFrom_eq_ok.2 (.inl ⟨.inl rfl, rfl, rfl⟩), fun _ => Nat.zero_le _⟩
    · obtain ⟨t, hskip, halike, hsame⟩ := skipField_readPayload hread hL hzero hpayload
      cases more with
      | false =>
        cases h
        cases hsame rfl
        obtain ⟨htype, rfl⟩ := skipField_eq_false hskip
        exact ⟨[], tagsFrom_eq_ok.2 (.inl ⟨.inr htype, rfl, rfl⟩), fun _ => Nat.zero_le _⟩
      | true =>
        obtain ⟨next, r₂, hnext, h⟩ := bind_eq_ok.1 h
        obtain ⟨us₂, r₃, hrecords, h⟩ := bind_eq_ok.1 h
        cases h
        have hfuel := hfuel hzero
        have hleft : t.bytesLeft ≤ r.bytesLeft := (advances_skipField _ hskip).bytesLeft_le
        have hnext := halike.readTag hnext
        obtain ⟨fuel', rfl⟩ := Nat.exists_eq_add_of_lt (Nat.zero_lt_of_lt hfuel)
        have hrest : next ≠ 0 → r₂.bytesLeft < 0 + fuel' := fun hne => by
          have := bytesLeft_readTag hnext hne
          omega
        obtain ⟨tags, htags, hcount⟩ := ih hrecords hrest
        refine ⟨tag :: tags, tagsFrom_eq_ok.2 (.inr ⟨hzero, t, tags, hskip,
          (bind_of_ok hnext).trans htags, rfl⟩), fun {p tag'} hroute => ?_⟩
        rw [List.countP_append, List.count_cons, Nat.add_comm]
        refine Nat.add_le_add ?_ (hcount hroute)
        split
        · rename_i htag
          obtain rfl := beq_iff_eq.1 htag
          unfold readPayload at hpayload
          simp only [hroute] at hpayload
          obtain ⟨u, r₂, hu, hpayload⟩ := bind_eq_ok.1 hpayload
          cases hpayload
          simp [p.index_readUpdate hu]
        · exact Nat.zero_le _

theorem skipFrom_readRecords (h : readRecords read L fuel tag r = .ok us r') :
    skipFrom tag r = .ok () r' := by
  obtain ⟨tags, htags, -⟩ := exists_tagsFrom hread hL h fun _ => Nat.lt_succ_self _
  rw [skipFrom_eq_tags]
  exact map_eq_ok.2 ⟨tags, htags, rfl⟩

/-- Looking ahead counts no more records of a field than its updates. -/
theorem exists_repeatedLength (hroute : L.route tag = some (p, .element))
    (h : readRecords read L fuel tag r = .ok us r') :
    ∃ n, repeatedLength tag r = .ok n r ∧ n ≤ us.countP (·.index == p.2) := by
  have htype := L.wireType_ne_of_route hroute
  obtain ⟨tags, htags, hcount⟩ := exists_tagsFrom hread hL h fun _ => Nat.lt_succ_self _
  rcases tagsFrom_eq_ok.1 htags with ⟨hend, -⟩ | ⟨-, t, tags', hskip, hrest, rfl⟩
  · exact absurd (hend.resolve_left (hL.routed.ne_zero_of_route hroute)) htype
  · refine ⟨_, (repeatedLength_eq_ok htype).2 ⟨rfl, t, tags', r', hskip, hrest, rfl⟩, ?_⟩
    simpa using hcount hroute

end Records

/-! ### Messages -/

/-- The contents of a message can be skipped. -/
theorem skippable_readWithin {S : Schema} (hS : S.Valid) (fuel : Nat) :
    Skippable (readWithin S fuel) := by
  induction fuel with
  | zero => exact fun _ _ _ _ => nofun
  | succ fuel ih =>
    intro type r r' us h
    obtain ⟨tag, t, htag, h⟩ := bind_eq_ok.1 h
    rw [skipMessage_apply, bind_of_ok htag]
    exact skipFrom_readRecords ih (hS type) h

end ProtoWire
