import ProtoWire.Proofs.Message.Written
import ProtoWire.Proofs.Wire.Local

/-!
# What a message says depends on its bytes alone

At every reader the contents of a message are read from some bytes and would be read from them
anywhere, up to the limit or to an end-group tag.
-/

namespace ProtoWire

variable {r r' : Reader} {S : Schema} {type : TypeId} {us : List Update}

/-- At the reader, the contents are read from some bytes, and would be read from them whatever
follows. They end at the limit or with an end-group tag. -/
def ContentsAt (S : Schema) (type : TypeId) (r : Reader) : Prop :=
  r.Sound → ∀ (us : List Update) (r' : Reader), readContents S type r = .ok us r' →
    ∃ bytes rest tag, r.remaining = bytes ++ rest ∧
      Conveys r.levels (readContents S type) bytes us ∧
      readTag (r.advance bytes.length) = .ok tag r' ∧
      (tag = 0 ∨ Tag.wireType tag = .ok .endGroup)

/-! ### Messages and groups -/

/-- Nearer limits show the first bytes. -/
theorem Reader.remaining_take {n : Nat} (h : r.pos + n ≤ r.limit) :
    ({ r with limit := r.pos + n } : Reader).remaining = r.remaining.take n := by
  simp only [Reader.remaining, List.take_take]
  congr 1
  omega

section Nested

variable (hS : S.Valid)
  (hinner : ∀ (type : TypeId) (t : Reader), t.bytesLeft ≤ r.bytesLeft → ContentsAt S type t)

include hS hinner

/-- A nested message depends on its bytes alone if its contents do. -/
theorem Field.localAt_readContents_message {f : Field} (helement : f.element = .message type) :
    LocalAt (f.readContents (ProtoWire.readContents S)) r := by
  intro hsound us r' h
  unfold Field.readContents at h
  rw [helement] at h
  obtain ⟨limit, r₁, hopen, h⟩ := bind_eq_ok.1 h
  obtain ⟨us', r₂, hcontents, h⟩ := bind_eq_ok.1 h
  obtain ⟨_, r₃, hclose, h⟩ := bind_eq_ok.1 h
  cases h
  have hleft := bytesLeft_openMessage hopen
  obtain ⟨n, t₁, hlength, henter, hroom, rfl, rfl⟩ := openMessage_eq_ok.1 hopen
  have hzero := (closeMessage_eq_ok.1 hclose).1
  obtain ⟨header, rest, hr, hne, halike, hheader⟩ := exists_reads_readLength hsound hlength
  have hsound₁ := (hsound.advance _).alike halike
  obtain ⟨-, hlevels, hdepth⟩ := Reader.levels_of_enterNested henter
  obtain ⟨contents, rest', tag, hr', hconveys, htag, -⟩ :=
    hinner type _ hleft ⟨Nat.le_trans hroom hsound₁.limit_le, hdepth⟩ _ _ hcontents
  -- no end-group tag was read, hence the contents reach up to the limit
  obtain rfl : tag = 0 := (readTag_lastTag htag).symm.trans hzero
  have hend := Reader.pos_eq_of_atEnd (readTag_zero htag).1
  obtain rfl : contents.length = n := Nat.add_left_cancel hend
  have htake := (Reader.remaining_take hroom).symm.trans hr'
  rw [halike.remaining_eq, Reader.remaining_advance_append hr] at htake
  have hlevels' : r.levels = _ := halike.levels_eq.symm.trans hlevels
  refine ⟨header ++ contents, rest' ++ rest.drop contents.length, ?_, ?_⟩
  · rw [hr, List.append_assoc, ← List.append_assoc contents, ← htake, List.take_append_drop]
  · rw [hlevels'] at hheader ⊢
    exact reads_nestedMessage hS helement hheader hne hconveys

/-- So does a group: its contents end with an end-group tag, which has to be its own. -/
theorem Field.localAt_readContents_group {f : Field} (helement : f.element = .group type) :
    LocalAt (f.readContents (ProtoWire.readContents S)) r := by
  intro hsound us r' h
  unfold Field.readContents at h
  rw [helement] at h
  obtain ⟨_, r₁, henter, h⟩ := bind_eq_ok.1 h
  obtain ⟨us', r₂, hcontents, h⟩ := bind_eq_ok.1 h
  obtain ⟨_, r₃, hclose, h⟩ := bind_eq_ok.1 h
  cases h
  have hmake := (closeGroup_eq_ok.1 hclose).1
  obtain ⟨rfl, hlevels, hdepth⟩ := Reader.levels_of_enterNested henter
  have hleft : Reader.bytesLeft { r with depth := r.depth + 1 } ≤ r.bytesLeft := Nat.le_refl _
  obtain ⟨contents, rest, tag, hr, hconveys, htag, -⟩ :=
    hinner type _ hleft ⟨hsound.limit_le, hdepth⟩ _ _ hcontents
  obtain rfl : tag = Tag.make f.number .endGroup := (readTag_lastTag htag).symm.trans hmake
  obtain ⟨trailer, rest', hr', -, htrailer⟩ := exists_reads_readTag htag (Tag.make_ne_zero _)
  rw [Reader.remaining_advance_append hr] at hr'
  refine ⟨contents ++ trailer, rest', ?_, ?_⟩
  · rw [show r.remaining = contents ++ rest from hr, hr', List.append_assoc]
  · rw [hlevels]
    exact reads_nestedGroup hS helement hconveys (htrailer _)

theorem Field.localAt_readContents (f : Field) :
    LocalAt (f.readContents (ProtoWire.readContents S)) r := by
  cases helement : f.element with
  | scalar | enum | text | blob =>
    unfold Field.readContents
    rw [helement]
    exact .pure _
  | message type => exact Field.localAt_readContents_message hS hinner helement
  | group type => exact Field.localAt_readContents_group hS hinner helement

/-- The value of a field depends on its bytes alone. -/
theorem PlacedField.localAt_readUpdate (p : PlacedField) :
    LocalAt (p.readUpdate (readContents S)) r := by
  unfold PlacedField.readUpdate
  cases p.1.element with
  | scalar kind => exact (localAt_readScalar r kind).map _
  | enum => exact (localAt_readScalar r .int32).map _
  | text => exact (localAt_readText r).map _
  | blob => exact (localAt_readBlob r).map _
  | message | group => exact (Field.localAt_readContents hS hinner p.1).map _

end Nested

/-! ### Packed runs -/

theorem Scalar.fixedSize_pos {kind : Scalar} {n : Nat} (h : kind.fixedSize = some n) : 0 < n := by
  cases kind <;> cases h <;> decide

/-- A scalar takes a byte at least. -/
theorem pos_lt_of_readScalar {kind : Scalar} {value : kind.Value}
    (h : readScalar kind r = .ok value r') : r.pos < r'.pos := by
  cases hsize : kind.fixedSize with
  | none =>
    obtain ⟨full, n, hdecode, rfl⟩ := readScalar_varint hsize h
    exact Nat.lt_add_of_pos_right (Varint.decode_length hdecode).1
  | some n =>
    obtain ⟨-, rfl⟩ := readScalar_fixed hsize h
    exact Nat.lt_add_of_pos_right (Scalar.fixedSize_pos hsize)

section Runs

variable {read : Reading} {p : PlacedField} (hpack : p.1.element.category.isPackable = true)

include hpack

theorem PlacedField.exists_scalar (read : Reading) :
    ∃ kind, p.readUpdate read = Update.scalar p.2 kind <$> readScalar kind := by
  unfold PlacedField.readUpdate
  cases helement : p.1.element with
  | scalar kind => exact ⟨kind, rfl⟩
  | enum => exact ⟨.int32, rfl⟩
  | text | blob | message | group =>
    rw [helement] at hpack
    cases hpack

theorem PlacedField.localAt_readUpdate_of_isPackable (r : Reader) :
    LocalAt (p.readUpdate read) r := by
  obtain ⟨kind, hkind⟩ := PlacedField.exists_scalar hpack read
  rw [hkind]
  exact (localAt_readScalar r kind).map _

/-- A value that can be packed takes a byte at least. -/
theorem PlacedField.pos_lt_of_readUpdate {u : Update} (h : p.readUpdate read r = .ok u r') :
    r.pos < r'.pos := by
  obtain ⟨kind, hkind⟩ := PlacedField.exists_scalar hpack read
  rw [hkind] at h
  obtain ⟨value, hvalue, -⟩ := map_eq_ok.1 h
  exact pos_lt_of_readScalar hvalue

/-- The values of a run are read from the bytes up to the limit, one after the other. -/
theorem PlacedField.ReadsRun.exists_chunks (hsound : r.Sound) (h : p.ReadsRun read r us r') :
    ∃ chunks : List (Bytes × Update), r.remaining = chunks.flatMap Prod.fst ∧
      us = chunks.map Prod.snd ∧
      ∀ c ∈ chunks, Reads r.levels (p.readUpdate read) c.1 c.2 ∧ c.1 ≠ [] := by
  induction h with
  | done hend => exact ⟨[], Reader.remaining_of_atEnd hend, rfl, List.forall_mem_nil _⟩
  | @more r r₁ _ u _ hu _ ih =>
    obtain ⟨bytes, rest, hr, hreads⟩ :=
      PlacedField.localAt_readUpdate_of_isPackable hpack r hsound u r₁ hu
    have halike := hreads.alike hsound hr hu
    have hne : bytes ≠ [] := by
      rintro rfl
      have hlt := PlacedField.pos_lt_of_readUpdate hpack hu
      obtain ⟨tag, rfl⟩ := halike
      exact Nat.lt_irrefl r.pos hlt
    obtain ⟨chunks, hr', rfl, hchunks⟩ := ih ((hsound.advance _).alike halike)
    rw [halike.remaining_eq, Reader.remaining_advance_append hr] at hr'
    rw [halike.levels_eq] at hchunks
    refine ⟨(bytes, u) :: chunks, ?_, rfl, List.forall_mem_cons.2 ⟨⟨hreads, hne⟩, hchunks⟩⟩
    rw [hr, hr', List.flatMap_cons]

/-- A packed run depends on its bytes alone. -/
theorem PlacedField.localAt_readPackedUpdates (r : Reader) :
    LocalAt (p.readPackedUpdates read) r := by
  intro hsound us r' h
  obtain ⟨n, t₁, t', hlength, hroom, hus, rfl⟩ := p.readPackedUpdates_eq_ok h
  obtain ⟨header, rest, hr, hne, halike, hheader⟩ := exists_reads_readLength hsound hlength
  have hsound₁ := (hsound.advance _).alike halike
  have hsound₂ : Reader.Sound { t₁ with limit := t₁.pos + n } :=
    ⟨Nat.le_trans hroom hsound₁.limit_le, hsound₁.depth_le⟩
  obtain ⟨chunks, hr', rfl, hchunks⟩ := hus.exists_chunks hpack hsound₂
  have hrest : t₁.remaining = rest :=
    halike.remaining_eq.trans (Reader.remaining_advance_append hr)
  have hlengthLeft := Reader.length_remaining hsound₁.limit_le
  rw [Reader.remaining_take hroom, hrest] at hr'
  rw [hrest, Reader.bytesLeft] at hlengthLeft
  have hn : (chunks.flatMap Prod.fst).length = n := by
    rw [← hr', List.length_take]
    omega
  refine ⟨header ++ chunks.flatMap Prod.fst, rest.drop n, ?_, ?_⟩
  · rw [hr, ← hr', List.append_assoc, List.take_append_drop]
  · refine PlacedField.reads_readPackedUpdates header chunks (hn ▸ hheader) hne
      (fun c hc => ?_) fun c hc => (hchunks c hc).2
    have hlevels : t₁.levels = r.levels := halike.levels_eq
    exact hlevels ▸ (hchunks c hc).1

end Runs

/-! ### Unknown records -/

/-- The schema without types. Whatever is read there is skipped. -/
def Schema.void : Schema :=
  ⟨[]⟩

theorem Schema.valid_void (type : TypeId) : (Schema.void.layout type).Valid := by
  have hnil : ∀ f, f ∉ (Schema.void.layout type).fields := fun _ => List.not_mem_nil
  exact {
    routed := ⟨List.nodup_nil, List.not_mem_nil⟩
    numbers := List.nodup_nil
    number_pos := fun f hf => absurd hf (hnil f)
    number_lt := fun f hf => absurd hf (hnil f)
    word_lt := fun f hf => absurd hf (hnil f)
    oneof_lt := fun f hf => absurd hf (hnil f)
    bit_eq := fun f hf => absurd hf (hnil f)
    oneof_eq := fun f hf => absurd hf (hnil f)
    packed := fun f hf => absurd hf (hnil f) }

theorem readContents_void (h : skipMessage r = .ok () r') (type : TypeId) :
    readContents .void type r = .ok [] r' := by
  induction hleft : r.bytesLeft using Nat.strongRecOn generalizing r with
  | ind n ih =>
    rw [skipMessage_apply] at h
    obtain ⟨tag, r₁, htag, h⟩ := bind_eq_ok.1 h
    rw [readContents_apply Schema.valid_void, bind_of_ok htag]
    unfold skipFrom at h
    by_cases hzero : tag = 0
    · subst hzero
      cases h
      rw [readFrom_zero (Schema.valid_void type)]
    · rw [if_neg hzero] at h
      obtain ⟨more, r₂, hskip, h⟩ := bind_eq_ok.1 h
      have hpayload : readPayload (readContents .void) (Schema.void.layout type) tag r₁ =
          .ok ([], more) r₂ := by
        have hroute : (Schema.void.layout type).route tag = none := rfl
        unfold readPayload
        simp only [hroute, if_neg hzero]
        rw [bind_of_ok hskip]
        rfl
      rw [readFrom_apply (skippable_readContents Schema.valid_void) (Schema.valid_void type),
        bind_of_ok hpayload]
      cases more with
      | false =>
        cases h
        rfl
      | true =>
        have hlt := bytesLeft_readTag htag hzero
        have hle := (advances_skipField tag hskip).bytesLeft_le
        have hrest := ih r₂.bytesLeft (hleft ▸ Nat.lt_of_le_of_lt hle hlt) h rfl
        rw [readContents_apply Schema.valid_void] at hrest
        simp only [if_true]
        rw [bind_of_ok hrest]
        rfl

section Skipped

variable
  (hinner : ∀ (type : TypeId) (t : Reader), t.bytesLeft ≤ r.bytesLeft → ContentsAt .void type t)

include hinner

/-- A group that is skipped depends on its bytes alone if its records do. -/
theorem localAt_skipField_group {tag : UInt32} (htype : Tag.wireType tag = .ok .startGroup) :
    LocalAt (skipField tag) r := by
  -- a group of unknown records is read as a group of a type without fields
  intro hsound more r' h
  let f : Field := ⟨"", Tag.number tag, .group 0, .repeated false⟩
  rw [skipField_apply, skipPayload, htype] at h
  obtain ⟨_, r₁, henter, h⟩ := bind_eq_ok.1 h
  obtain ⟨_, r₂, hskip, h⟩ := bind_eq_ok.1 h
  obtain ⟨_, r₃, hlast, h⟩ := bind_eq_ok.1 h
  obtain ⟨_, r₄, hexit, h⟩ := bind_eq_ok.1 h
  cases h
  have hcontents : f.readContents (readContents .void) r = .ok [] r' := by
    show (do
      enterNested
      let us ← readContents .void 0
      closeGroup (Tag.number tag)
      return us) r = _
    rw [bind_of_ok henter, bind_of_ok (readContents_void hskip 0)]
    unfold closeGroup
    rw [bind_assoc, bind_of_ok hlast, bind_of_ok hexit]
    rfl
  obtain ⟨bytes, rest, hr, hreads⟩ :=
    Field.localAt_readContents Schema.valid_void hinner f hsound [] _ hcontents
  refine ⟨bytes, rest, hr, fun s rest' hs hlevels => ?_⟩
  obtain ⟨s', hs', halike⟩ := hreads s rest' hs hlevels
  obtain ⟨s'', hskip', halike'⟩ := Field.skipField_readContents
    (skippable_readContents Schema.valid_void) rfl (Tag.number_lt tag) hs'
  refine ⟨s'', ?_, halike.trans halike'⟩
  rwa [show Tag.make f.number f.element.category.wireType = tag from Tag.make_number htype]
    at hskip'

/-- A payload that is skipped depends on its bytes alone. -/
theorem localAt_skipField (tag : UInt32) : LocalAt (skipField tag) r := by
  by_cases hgroup : Tag.wireType tag = .ok .startGroup
  · exact localAt_skipField_group hinner hgroup
  rw [funext (skipField_apply tag)]
  unfold skipPayload
  cases htype : Tag.wireType tag with
  | error e => exact .throw e
  | ok wireType =>
    cases wireType with
    | startGroup => exact absurd htype hgroup
    | varint => exact (localAt_readVarint64 r).bind fun _ _ _ => .pure true
    | i64 | i32 => exact (localAt_skipRaw r _).bind fun _ _ _ => .pure true
    | len =>
      exact (localAt_readLength r).bind fun n r' _ =>
        (localAt_skipRaw r' n).bind fun _ _ _ => .pure true
    | endGroup => exact .pure false

end Skipped

/-! ### Records -/

theorem readPayload_eq_false {read : Reading} {L : Layout} {tag : UInt32} (htag : tag ≠ 0)
    (h : readPayload read L tag r = .ok (us, false) r') :
    us = [] ∧ r' = r ∧ Tag.wireType tag = .ok .endGroup := by
  unfold readPayload at h
  cases hroute : L.route tag with
  | some target =>
    obtain ⟨p, form⟩ := target
    cases form <;> simp only [hroute] at h <;> obtain ⟨_, _, -, h⟩ := bind_eq_ok.1 h <;> cases h
  | none =>
    simp only [hroute, if_neg htag] at h
    obtain ⟨more, r₁, hskip, h⟩ := bind_eq_ok.1 h
    cases h
    obtain ⟨htype, hr⟩ := skipField_eq_false hskip
    exact ⟨rfl, hr, htype⟩

section Contents

variable (hS : S.Valid)

include hS

/-- A payload depends on its bytes alone if the messages inside do. -/
theorem localAt_readPayload
    (hinner : ∀ (type : TypeId) (t : Reader), t.bytesLeft ≤ r.bytesLeft → ContentsAt S type t)
    (hskipped : ∀ (type : TypeId) (t : Reader), t.bytesLeft ≤ r.bytesLeft →
      ContentsAt .void type t) (type : TypeId) (tag : UInt32) :
    LocalAt (readPayload (readContents S) (S.layout type) tag) r := by
  unfold readPayload
  cases hroute : (S.layout type).route tag with
  | some target =>
    obtain ⟨p, form⟩ := target
    cases form with
    | value | element => exact (p.localAt_readUpdate hS hinner).bind fun _ _ _ => .pure _
    | run =>
      have hpack := (hS type).isPackable_of_route hroute
      exact (PlacedField.localAt_readPackedUpdates hpack r).bind fun _ _ _ => .pure _
  | none =>
    dsimp only
    split
    · exact .pure _
    · exact (localAt_skipField hskipped tag).bind fun _ _ _ => .pure _

/-- Contents depend on their bytes alone if those that are further on do. -/
theorem contentsAt_step
    (hinner : ∀ (type : TypeId) (t : Reader), t.bytesLeft < r.bytesLeft → ContentsAt S type t)
    (hskipped : ∀ (type : TypeId) (t : Reader), t.bytesLeft < r.bytesLeft →
      ContentsAt .void type t) (type : TypeId) : ContentsAt S type r := by
  intro hsound us r' h
  have hcontents := readContents_apply hS type r
  rw [hcontents] at h
  obtain ⟨tag, r₁, htag, h⟩ := bind_eq_ok.1 h
  by_cases hzero : tag = 0
  · subst hzero
    rw [readFrom_zero (hS type)] at h
    cases h
    exact ⟨[], r.remaining, 0, rfl, .nil, htag, .inl rfl⟩
  have hlt := bytesLeft_readTag htag hzero
  have hread := skippable_readContents hS
  rw [readFrom_apply hread (hS type)] at h
  obtain ⟨⟨us₁, more⟩, r₂, hpayload, hmore⟩ := bind_eq_ok.1 h
  cases more with
  | false =>
    obtain ⟨rfl, rfl, htype⟩ := readPayload_eq_false hzero hpayload
    cases hmore
    exact ⟨[], r.remaining, tag, rfl, .nil, htag, .inr htype⟩
  | true =>
    obtain ⟨us₂, r₃, hrest, hmore⟩ := bind_eq_ok.1 hmore
    cases hmore
    rw [← readContents_apply hS] at hrest
    obtain ⟨tagBytes, rest₁, hr, halike, hreadsTag⟩ := exists_reads_readTag htag hzero
    have hsound₁ := (hsound.advance _).alike halike
    obtain ⟨payload, rest₂, hr₁, hreads⟩ := localAt_readPayload hS
      (fun type t ht => hinner type t (Nat.lt_of_le_of_lt ht hlt))
      (fun type t ht => hskipped type t (Nat.lt_of_le_of_lt ht hlt)) type tag hsound₁ _ _ hpayload
    have halike₁ := hreads.alike hsound₁ hr₁ hpayload
    have hsound₂ := (hsound₁.advance _).alike halike₁
    have hle := (advances_readPayload hread (hS type) tag hpayload).bytesLeft_le
    obtain ⟨bytes, rest, tag', hr₂, hconveys, htag', hend⟩ :=
      hinner type r₂ (Nat.lt_of_le_of_lt hle hlt) hsound₂ _ _ hrest
    rw [halike.remaining_eq, Reader.remaining_advance_append hr] at hr₁
    rw [halike₁.remaining_eq, Reader.remaining_advance_append
      (halike.remaining_eq.trans ((Reader.remaining_advance_append hr).trans hr₁))] at hr₂
    have hlevels : r₁.levels = r.levels := halike.levels_eq
    have hlevels₂ : r₂.levels = r.levels := halike₁.levels_eq.trans hlevels
    rw [hlevels] at hreads
    rw [hlevels₂] at hconveys
    have hrecord := (conveys_record (hS type) hread (hreadsTag _) hreads).congr
      (readContents_apply hS type)
    refine ⟨tagBytes ++ payload ++ bytes, rest, tag', ?_, hrecord.append hconveys, ?_, hend⟩
    · rw [hr, hr₁, hr₂, List.append_assoc, List.append_assoc]
    · obtain ⟨t, rfl⟩ := halike
      obtain ⟨t', rfl⟩ := halike₁
      exact Reader.Alike.readTag ⟨r.lastTag, by simp [Reader.advance, Nat.add_assoc]⟩ htag'

end Contents

/-- Contents depend on their bytes alone. -/
theorem contentsAt (r : Reader) (hS : S.Valid) (type : TypeId) : ContentsAt S type r := by
  induction hleft : r.bytesLeft using Nat.strongRecOn generalizing r S type with
  | ind n ih =>
    subst hleft
    exact contentsAt_step hS (fun type t ht => ih _ ht t hS type rfl)
      (fun type t ht => ih _ ht t Schema.valid_void type rfl) type

/-! ### Encoded messages -/

section Bytes

variable (hS : S.Valid) {limit : UInt32} {a b data : Bytes}

theorem Reader.sound_ofBytes (data : Bytes) (limit : UInt32) :
    Reader.Sound { Reader.ofBytes data with recursionLimit := limit } :=
  ⟨Nat.le_refl _, Nat.zero_le _⟩

theorem readBytes_eq_ok :
    readBytes S type limit data = some us ↔
      ∃ r', readContents S type { Reader.ofBytes data with recursionLimit := limit } = .ok us r' ∧
        r'.lastTag = 0 := by
  unfold readBytes
  constructor
  · intro h
    split at h
    next us' r' hread =>
      cases h
      obtain ⟨us', r₁, hcontents, hread⟩ := bind_eq_ok.1 hread
      obtain ⟨_, r₂, hlast, hread⟩ := bind_eq_ok.1 hread
      cases hread
      obtain ⟨hzero, rfl⟩ := checkLastTag_eq_ok.1 hlast
      exact ⟨_, hcontents, hzero⟩
    next => cases h
  · rintro ⟨r', hcontents, hzero⟩
    rw [bind_of_ok hcontents, bind_of_ok (checkLastTag_eq_ok.2 ⟨hzero, rfl⟩)]
    rfl

include hS

theorem conveys_of_readContents (hsound : r.Sound) (h : readContents S type r = .ok us r')
    (hzero : r'.lastTag = 0) : Conveys r.levels (readContents S type) r.remaining us := by
  obtain ⟨bytes, rest, tag, hr, hconveys, htag, -⟩ := contentsAt r hS type hsound us r' h
  obtain rfl : tag = 0 := (readTag_lastTag htag).symm.trans hzero
  have hnil : rest = [] := by
    rw [← Reader.remaining_advance_append hr, Reader.remaining_of_atEnd (readTag_zero htag).1]
  rw [hr, hnil, List.append_nil]
  exact hconveys

/-- An encoded message is read if it conveys its updates, whatever follows it. -/
theorem readBytes_eq_some :
    readBytes S type limit data = some us ↔
      Conveys limit.toNat (readContents S type) data us := by
  refine ⟨fun h => ?_, readBytes_of_conveys hS⟩
  obtain ⟨r', hcontents, hzero⟩ := readBytes_eq_ok.1 h
  have hconveys := conveys_of_readContents hS (Reader.sound_ofBytes data limit) hcontents hzero
  simpa [Reader.levels, Reader.remaining, Reader.ofBytes] using hconveys

/-- Behind an encoded message another one is read as if it stood alone. -/
theorem readBytes_append (h : readBytes S type limit a = some us) (b : Bytes) :
    readBytes S type limit (a ++ b) = (readBytes S type limit b).map (us ++ ·) := by
  have hconveys := (readBytes_eq_some hS).1 h
  refine Option.ext fun vs => ⟨fun hvs => ?_, fun hvs => ?_⟩
  · obtain ⟨r', hcontents, hzero⟩ := readBytes_eq_ok.1 hvs
    let r : Reader := { Reader.ofBytes (a ++ b) with recursionLimit := limit }
    have hr : r.remaining = a ++ b := Reader.remaining_ofBytes (a ++ b) limit
    have hlevels : r.depth.toNat + limit.toNat ≤ r.recursionLimit.toNat := by
      simp [r, Reader.ofBytes]
    obtain ⟨us', hrest, rfl⟩ := (hconveys r b hr hlevels vs r').1 hcontents
    have hsound : (r.advance a.length).Sound := (Reader.sound_ofBytes _ limit).advance _
    have hconveys' := conveys_of_readContents hS hsound hrest hzero
    rw [Reader.remaining_advance_append hr] at hconveys'
    have hb : readBytes S type limit b = some us' := readBytes_of_conveys hS hconveys'
    rw [hb]
    rfl
  · obtain ⟨us', hb, rfl⟩ := Option.map_eq_some_iff.1 hvs
    exact readBytes_of_conveys hS (hconveys.append ((readBytes_eq_some hS).1 hb))

end Bytes

end ProtoWire
