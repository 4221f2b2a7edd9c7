import ProtoWire.Proofs.Message.Reading
import ProtoWire.Proofs.Message.Recycling
import ProtoWire.Proofs.Wire.ReadBack

/-!
# Records that are written are read back

* `conveys_record`: a tag and a payload convey what the payload says.
* `reads_nestedMessage`, `reads_nestedGroup`: a nested message or group is read back if its contents
  are.
-/

namespace ProtoWire

variable {x : Read (List Update)} {levels : Nat} {us : List Update} {bytes rest header : Bytes}
  {L : Layout} {r : Reader} {tag : UInt32} {f : Field}

/-- The bytes are read as the updates, and behind them the reading goes on as if it had started
there. It goes at most so many levels deeper. -/
def Conveys (levels : Nat) (x : Read (List Update)) (bytes : Bytes) (us : List Update) : Prop :=
  ∀ (r : Reader) (rest : Bytes), r.remaining = bytes ++ rest →
    r.depth.toNat + levels ≤ r.recursionLimit.toNat → ∀ (vs : List Update) (r' : Reader),
      x r = .ok vs r' ↔ ∃ us', x (r.advance bytes.length) = .ok us' r' ∧ us ++ us' = vs

theorem Conveys.nil : Conveys levels x [] [] := by
  intro r rest hr hlevels vs r'
  simp [Reader.advance]

theorem Conveys.append {bytes' : Bytes} {us' : List Update} (h : Conveys levels x bytes us)
    (h' : Conveys levels x bytes' us') : Conveys levels x (bytes ++ bytes') (us ++ us') := by
  intro r rest hr hlevels vs r'
  rw [List.append_assoc] at hr
  have hadvance : r.advance (bytes ++ bytes').length =
      (r.advance bytes.length).advance bytes'.length := by
    simp [Reader.advance, Nat.add_assoc]
  rw [h r _ hr hlevels, hadvance]
  simp only [h' (r.advance bytes.length) rest (r.remaining_advance_append hr) hlevels]
  constructor
  · rintro ⟨_, ⟨ws, hws, rfl⟩, rfl⟩
    exact ⟨ws, hws, List.append_assoc ..⟩
  · rintro ⟨ws, hws, rfl⟩
    exact ⟨_, ⟨ws, hws, rfl⟩, (List.append_assoc ..).symm⟩

theorem Conveys.congr {y : Read (List Update)} (h : Conveys levels x bytes us)
    (hxy : ∀ r, y r = x r) : Conveys levels y bytes us := by
  intro r rest hr hlevels vs r'
  simp only [hxy]
  exact h r rest hr hlevels vs r'

/-! ### Records -/

section Records

variable {read : Reading} (hL : L.Valid)

theorem readRest_congr {r' : Reader} (h : r.Alike r') {t : Reader} :
    (readTag >>= readFrom read L) r' = .ok us t ↔ (readTag >>= readFrom read L) r = .ok us t := by
  constructor
  · intro hread
    obtain ⟨tag, r₁, htag, hread⟩ := bind_eq_ok.1 hread
    rw [bind_of_ok (h.symm.readTag htag), hread]
  · intro hread
    obtain ⟨tag, r₁, htag, hread⟩ := bind_eq_ok.1 hread
    rw [bind_of_ok (h.readTag htag), hread]

include hL in
theorem conveys_record (hread : Skippable read) {tagBytes payload : Bytes}
    (htag : Reads levels readTag tagBytes tag)
    (hpayload : Reads levels (readPayload read L tag) payload (us, true)) :
    Conveys levels (readTag >>= readFrom read L) (tagBytes ++ payload) us := by
  intro r rest hr hlevels vs r'
  rw [List.append_assoc] at hr
  obtain ⟨_, htag, last, rfl⟩ := htag r _ hr hlevels
  obtain ⟨_, hpayload, last', rfl⟩ :=
    hpayload { r.advance tagBytes.length with lastTag := last } rest
      (r.remaining_advance_append hr) hlevels
  -- the reader behind the payload differs in the latest tag
  have halike : (r.advance (tagBytes ++ payload).length).Alike
      { ({ r.advance tagBytes.length with lastTag := last } : Reader).advance payload.length with
        lastTag := last' } :=
    ⟨last', by simp [Reader.advance, Nat.add_assoc]⟩
  rw [bind_of_ok htag, readFrom_apply hread hL, bind_of_ok hpayload]
  simp only [if_true, ← readRest_congr halike]
  rw [bind_eq_ok]
  constructor
  · rintro ⟨us', t, hus, h⟩
    cases h
    exact ⟨us', hus, rfl⟩
  · rintro ⟨us', hus, rfl⟩
    exact ⟨us', r', hus, rfl⟩

include hL in
theorem readRest_of_atEnd (h : r.atEnd = true) :
    (readTag >>= readFrom read L) r = .ok [] { r with lastTag := 0 } := by
  rw [bind_of_ok (readTag_eq_ok.2 (.inl ⟨h, rfl, rfl⟩)), readFrom_zero hL]

theorem Layout.route_endGroup (L : Layout) (htype : Tag.wireType tag = .ok .endGroup) :
    L.route tag = none :=
  Option.eq_none_iff_forall_ne_some.2 fun _ hroute => L.wireType_ne_of_route hroute htype

include hL in
theorem readRest_endGroup (hread : Skippable read) (htype : Tag.wireType tag = .ok .endGroup)
    {r' : Reader} (h : readTag r = .ok tag r') : (readTag >>= readFrom read L) r = .ok [] r' := by
  have hne : tag ≠ 0 := by
    rintro rfl
    cases htype
  have hpayload : readPayload read L tag r' = .ok ([], false) r' := by
    unfold readPayload
    rw [L.route_endGroup htype]
    simp only [hne, if_false]
    rw [bind_of_ok (skipField_endGroup htype r')]
    rfl
  rw [bind_of_ok h, readFrom_apply hread hL, bind_of_ok hpayload]
  rfl

end Records

/-! ### Fields -/

theorem Field.primaryTag_eq_make (f : Field) : ∃ t, f.primaryTag = Tag.make f.number t := by
  unfold Field.primaryTag Strategy.primaryTag
  split
  · exact ⟨_, rfl⟩
  · exact ⟨_, rfl⟩

theorem Layout.Valid.number_primaryTag (hL : L.Valid) (hf : f ∈ L.fields) :
    Tag.number f.primaryTag ≠ 0 := by
  obtain ⟨t, ht⟩ := f.primaryTag_eq_make
  rw [ht, Tag.number_make (hL.number_lt f hf)]
  exact hL.number_pos f hf

section Payload

variable {read : Reading} {L : Layout} {p : PlacedField} {payload : Bytes} {u : Update}

theorem reads_value (hroute : L.route tag = some (p, .value))
    (hu : Reads levels (p.readUpdate read) payload u) (hadmits : p.1.element.admits u = true) :
    Reads levels (readPayload read L tag) payload ([u], true) := by
  unfold readPayload
  rw [hroute]
  exact hu.bind_pure (by rw [if_pos hadmits])

theorem reads_element (hroute : L.route tag = some (p, .element))
    (hu : Reads levels (p.readUpdate read) payload u) :
    Reads levels (readPayload read L tag) payload ([u], true) := by
  unfold readPayload
  rw [hroute]
  exact hu.bind_pure rfl

theorem reads_packed (hroute : L.route tag = some (p, .run))
    (hus : Reads levels (p.readPackedUpdates read) payload us) :
    Reads levels (readPayload read L tag) payload (us, true) := by
  unfold readPayload
  rw [hroute]
  exact hus.bind_pure rfl

end Payload

/-! ### Payloads up to a limit -/

theorem Reader.remaining_narrow (h : r.remaining = bytes ++ rest) :
    ({ r with limit := r.pos + bytes.length } : Reader).remaining = bytes := by
  have hle : bytes.length ≤ r.limit - r.pos := by
    have := r.length_remaining_le
    rw [h, List.length_append] at this
    exact Nat.le_trans (Nat.le_add_right ..) this
  simp only [Reader.remaining, Nat.add_sub_cancel_left]
  rw [← Nat.min_eq_left hle, ← List.take_take]
  exact (congrArg (List.take _) h).trans List.take_left

theorem Reader.add_length_le (h : r.remaining = bytes ++ rest) (hne : bytes ≠ []) :
    r.pos + bytes.length ≤ r.limit := by
  have hpos := List.length_pos_iff.2 hne
  have hle := r.length_remaining_le
  rw [h, List.length_append, Reader.bytesLeft] at hle
  omega

/-- The reader at the start of a payload, behind a header that becomes the payload's length. -/
def Reader.atPayload (r : Reader) (header : Bytes) (n : Nat) (depth tag : UInt32) : Reader :=
  { r.advance header.length with
    depth, lastTag := tag, limit := (r.advance header.length).pos + n }

theorem Reader.remaining_atPayload (depth tag : UInt32)
    (hr : r.remaining = header ++ (bytes ++ rest)) :
    (r.atPayload header bytes.length depth tag).remaining = bytes :=
  Reader.remaining_narrow (r.remaining_advance_append hr)

theorem pushLimit_header (hne : header ≠ []) (hr : r.remaining = header ++ (bytes ++ rest))
    (depth tag : UInt32) :
    pushLimit bytes.length { r.advance header.length with depth, lastTag := tag } =
      .ok r.limit (r.atPayload header bytes.length depth tag) := by
  have hwhole : r.remaining = (header ++ bytes) ++ rest := by rw [hr, List.append_assoc]
  have hle := r.add_length_le hwhole (by simp [hne])
  rw [List.length_append] at hle
  exact pushLimit_eq_ok.2 ⟨by simpa [Reader.advance, Nat.add_assoc] using hle, rfl, rfl⟩

namespace PlacedField

variable {read : Reading} {p : PlacedField} {chunks : List (Bytes × Update)}

theorem reads_readUpdates (hread : ∀ c ∈ chunks, Reads levels (p.readUpdate read) c.1 c.2)
    (hne : ∀ c ∈ chunks, c.1 ≠ []) (hr : r.remaining = chunks.flatMap Prod.fst)
    (hend : r.pos + (chunks.flatMap Prod.fst).length = r.limit)
    (hlevels : r.depth.toNat + levels ≤ r.recursionLimit.toNat) {fuel : Nat}
    (hfuel : chunks.length < fuel) :
    ∃ r', p.readUpdates read fuel r = .ok (chunks.map Prod.snd) r' ∧
      (r.advance (chunks.flatMap Prod.fst).length).Alike r' := by
  induction chunks generalizing r fuel with
  | nil =>
    cases fuel with
    | zero => exact absurd hfuel (Nat.not_lt_zero _)
    | succ fuel =>
      have hend : r.atEnd = true := by simpa [Reader.atEnd] using hend
      refine ⟨r, ?_, .refl r⟩
      rw [readUpdates, bind_of_ok get_apply, if_pos hend]
      rfl
  | cons c chunks ih =>
    cases fuel with
    | zero => exact absurd hfuel (Nat.not_lt_zero _)
    | succ fuel =>
      rw [List.flatMap_cons] at hr hend ⊢
      have hpos := List.length_pos_iff.2 (hne c List.mem_cons_self)
      rw [List.length_append] at hend
      have hmore : ¬ r.atEnd = true := by
        simp only [Reader.atEnd, beq_iff_eq]
        omega
      obtain ⟨_, hu, tag, rfl⟩ := hread c List.mem_cons_self r _ hr hlevels
      obtain ⟨_, hus, tag', rfl⟩ :=
        ih (fun c hc => hread c (List.mem_cons_of_mem _ hc))
          (fun c hc => hne c (List.mem_cons_of_mem _ hc))
          (r := { r.advance c.1.length with lastTag := tag })
          (r.remaining_advance_append hr) (by simpa [Reader.advance, Nat.add_assoc] using hend)
          hlevels (Nat.lt_of_succ_lt_succ hfuel)
      refine ⟨_, ?_, tag', rfl⟩
      rw [readUpdates, bind_of_ok get_apply, if_neg hmore, bind_of_ok hu, bind_of_ok hus]
      simp [Reader.advance, Nat.add_assoc]

theorem length_le_length_flatMap (hne : ∀ c ∈ chunks, c.1 ≠ []) :
    chunks.length ≤ (chunks.flatMap Prod.fst).length := by
  induction chunks with
  | nil => exact Nat.zero_le _
  | cons c chunks ih =>
    have hpos := List.length_pos_iff.2 (hne c List.mem_cons_self)
    have := ih fun c hc => hne c (List.mem_cons_of_mem _ hc)
    rw [List.length_cons, List.flatMap_cons, List.length_append]
    omega

/-- A packed run is read back if its length and its values are. -/
theorem reads_readPackedUpdates (header : Bytes) (chunks : List (Bytes × Update))
    (hheader : Reads levels readLength header (chunks.flatMap Prod.fst).length)
    (hheaderNe : header ≠ []) (hread : ∀ c ∈ chunks, Reads levels (p.readUpdate read) c.1 c.2)
    (hne : ∀ c ∈ chunks, c.1 ≠ []) :
    Reads levels (p.readPackedUpdates read) (header ++ chunks.flatMap Prod.fst)
      (chunks.map Prod.snd) := by
  intro r rest hr hlevels
  rw [List.append_assoc] at hr
  obtain ⟨_, hlength, last, rfl⟩ := hheader r _ hr hlevels
  have hrun := openRun_eq_ok.2 ⟨_, hlength, pushLimit_header hheaderNe hr r.depth last⟩
  obtain ⟨_, hus, tag, rfl⟩ := reads_readUpdates hread hne (r.remaining_atPayload r.depth last hr)
    rfl hlevels (Nat.lt_succ_of_le (length_le_length_flatMap hne))
  refine ⟨_, ?_, tag, rfl⟩
  rw [readPackedUpdates, bind_of_ok hrun]
  refine (bind_of_ok hus).trans (congrArg (EStateM.Result.ok _) ?_)
  simp [Reader.atPayload, Reader.advance, Nat.add_assoc]

theorem reads_scalarRun {kind : Scalar}
    (hread : p.readUpdate read = Update.scalar p.2 kind <$> readScalar kind)
    {spellings : List (Bytes × kind.Value)}
    (hheader : Reads levels readLength header (spellings.flatMap Prod.fst).length)
    (hne : header ≠ []) (hvalues : ∀ s ∈ spellings, kind.Spells s.1 s.2) :
    Reads levels (p.readPackedUpdates read) (header ++ spellings.flatMap Prod.fst)
      ((spellings.map Prod.snd).map (Update.scalar p.2 kind)) := by
  have hrun : Reads levels (p.readPackedUpdates read) _ _ :=
    reads_readPackedUpdates header
      (spellings.map fun s => (s.1, Update.scalar p.2 kind s.2))
      (by rwa [List.flatMap_map]) hne
      (by
        rintro _ hc
        obtain ⟨s, hs, rfl⟩ := List.mem_map.1 hc
        rw [hread]
        exact (reads_readScalar (hvalues s hs)).map _)
      (by
        rintro _ hc
        obtain ⟨s, hs, rfl⟩ := List.mem_map.1 hc
        exact (hvalues s hs).ne_nil)
  rw [List.flatMap_map, List.map_map] at hrun
  rwa [List.map_map]

end PlacedField

/-! ### Nested messages -/

section Nested

variable {S : Schema} (hS : S.Valid) {type : TypeId} {contents trailer : Bytes}

theorem enterNested_of_levels (h : r.depth.toNat + (levels + 1) ≤ r.recursionLimit.toNat) :
    enterNested r = .ok () { r with depth := r.depth + 1 } := by
  refine enterNested_eq_ok.2 ⟨?_, rfl⟩
  rw [UInt32.le_iff_toNat_le]
  omega

theorem exists_openMessage (hheader : Reads (levels + 1) readLength header contents.length)
    (hne : header ≠ []) (hr : r.remaining = header ++ (contents ++ rest))
    (hlevels : r.depth.toNat + (levels + 1) ≤ r.recursionLimit.toNat) :
    ∃ last, openMessage r =
      .ok r.limit (r.atPayload header contents.length (r.depth + 1) last) := by
  obtain ⟨_, hlength, last, rfl⟩ := hheader r _ hr hlevels
  exact ⟨last, bind_eq_ok.2 ⟨_, _, hlength, bind_eq_ok.2 ⟨(), _, enterNested_of_levels hlevels,
    pushLimit_header hne hr (r.depth + 1) last⟩⟩⟩

include hS in
theorem readContents_of_conveys (h : Conveys levels (readContents S type) contents us)
    (hr : r.remaining = contents) (hend : r.pos + contents.length = r.limit)
    (hlevels : r.depth.toNat + levels ≤ r.recursionLimit.toNat) :
    readContents S type r = .ok us { r.advance contents.length with lastTag := 0 } := by
  have hrest : readContents S type (r.advance contents.length) =
      .ok [] { r.advance contents.length with lastTag := 0 } := by
    rw [readContents_apply hS]
    exact readRest_of_atEnd (hS type) (by simpa [Reader.atEnd, Reader.advance] using hend)
  exact (h r [] (by rw [hr, List.append_nil]) hlevels _ _).2 ⟨[], hrest, List.append_nil us⟩

theorem Reader.remaining_ofBytes (data : Bytes) (limit : UInt32) :
    ({ Reader.ofBytes data with recursionLimit := limit } : Reader).remaining = data := by
  simp [Reader.remaining, Reader.ofBytes]

include hS in
theorem readBytes_of_conveys {limit : UInt32} {data : Bytes}
    (h : Conveys limit.toNat (readContents S type) data us) :
    readBytes S type limit data = some us := by
  let r : Reader := { Reader.ofBytes data with recursionLimit := limit }
  have hr : r.remaining = data := Reader.remaining_ofBytes data limit
  have hend : r.pos + data.length = r.limit := by simp [r, Reader.ofBytes]
  have hlevels : r.depth.toNat + limit.toNat ≤ r.recursionLimit.toNat := by
    simp [r, Reader.ofBytes]
  unfold readBytes
  rw [bind_of_ok (readContents_of_conveys hS h hr hend hlevels)]
  rfl

include hS in
theorem readContents_of_conveys_group (h : Conveys levels (readContents S type) contents us)
    (htype : Tag.wireType tag = .ok .endGroup) (htrailer : Reads levels readTag trailer tag)
    (hr : r.remaining = contents ++ (trailer ++ rest))
    (hlevels : r.depth.toNat + levels ≤ r.recursionLimit.toNat) :
    readContents S type r =
      .ok us { r.advance (contents ++ trailer).length with lastTag := tag } := by
  obtain ⟨_, htag, last, rfl⟩ :=
    htrailer (r.advance contents.length) rest (r.remaining_advance_append hr) hlevels
  obtain rfl : last = tag := readTag_lastTag htag
  have hrest := readRest_endGroup (hS type) (skippable_readContents hS) htype htag
  rw [← readContents_apply hS] at hrest
  rw [(h r _ hr hlevels _ _).2 ⟨[], hrest, List.append_nil us⟩, List.length_append]
  simp [Reader.advance, Nat.add_assoc]

include hS in
theorem reads_nestedMessage (helement : f.element = .message type)
    (hheader : Reads (levels + 1) readLength header contents.length) (hne : header ≠ [])
    (h : Conveys levels (readContents S type) contents us) :
    Reads (levels + 1) (f.readContents (readContents S)) (header ++ contents) us := by
  intro r rest hr hlevels
  rw [List.append_assoc] at hr
  have hdepth : (r.depth + 1).toNat + levels ≤ r.recursionLimit.toNat := by
    rw [Reader.toNat_depth_succ (by omega)]
    omega
  obtain ⟨last, hopen⟩ := exists_openMessage hheader hne hr hlevels
  have hread :=
    readContents_of_conveys hS h (r.remaining_atPayload (r.depth + 1) last hr) rfl hdepth
  refine ⟨_, ?_, 0, rfl⟩
  unfold Field.readContents
  simp only [helement]
  rw [bind_of_ok hopen, bind_of_ok hread, bind_of_ok (closeMessage_eq_ok.2 ⟨rfl, rfl⟩)]
  simp [Reader.atPayload, Reader.advance, Nat.add_assoc]

include hS in
/-- A group is read back if its contents and its end tag are. -/
theorem reads_nestedGroup (helement : f.element = .group type)
    (h : Conveys levels (readContents S type) contents us)
    (htrailer : Reads levels readTag trailer (Tag.make f.number .endGroup)) :
    Reads (levels + 1) (f.readContents (readContents S)) (contents ++ trailer) us := by
  intro r rest hr hlevels
  rw [List.append_assoc] at hr
  have hdepth : (r.depth + 1).toNat + levels ≤ r.recursionLimit.toNat := by
    rw [Reader.toNat_depth_succ (by omega)]
    omega
  have hread := readContents_of_conveys_group hS h (Tag.wireType_make _ _) htrailer
    (r := { r with depth := r.depth + 1 }) hr hdepth
  refine ⟨_, ?_, Tag.make f.number .endGroup, rfl⟩
  unfold Field.readContents
  simp only [helement]
  rw [bind_of_ok (enterNested_of_levels hlevels), bind_of_ok hread,
    bind_of_ok (closeGroup_eq_ok.2 ⟨rfl, rfl⟩)]
  simp [Reader.advance]

end Nested

/-! ### Nested messages that are written -/

/-- What is written behind the tag of a nested message or group. -/
def Field.nestedPayload (f : Field) (contents : Bytes) : Bytes :=
  match f.element with
  | .group _ => contents ++ writeTag (Tag.make f.number .endGroup)
  | _ => writeLength contents.length ++ contents

theorem Field.writeNested_eq (contents : Bytes)
    (hpacked : f.placement.cardinality.isPacked = true → f.element.category.isPackable = true) :
    writeNested f contents.length contents =
      writeTag f.primaryTag ++ f.nestedPayload contents := by
  unfold writeNested Field.nestedPayload
  cases helement : f.element with
  | group type =>
    have hunpacked : ¬ f.placement.cardinality.isPacked = true := by
      intro h
      have := hpacked h
      rw [helement] at this
      cases this
    have htag : f.primaryTag = Tag.make f.number .startGroup := by
      simp only [Field.primaryTag, Strategy.primaryTag, Field.strategy, helement]
      rw [if_neg hunpacked]
      rfl
    simp [htag]
  | scalar | enum | text | blob | message => simp

theorem writeLength_ne_nil (n : Nat) : writeLength n ≠ [] :=
  (Varint.spells_encode n.toUInt64).ne_nil

theorem reads_nestedPayload {S : Schema} (hS : S.Valid) {type : TypeId} {contents : Bytes}
    (htype : f.element.type? = some type) (hpos : f.number ≠ 0) (hlt : f.number < 0x20000000)
    (hlength : contents.length < 2 ^ 31) (h : Conveys levels (readContents S type) contents us) :
    Reads (levels + 1) (f.readContents (readContents S)) (f.nestedPayload contents) us := by
  have hnumber : Tag.number (Tag.make f.number .endGroup) ≠ 0 := by rwa [Tag.number_make hlt]
  unfold Field.nestedPayload
  cases helement : f.element with
  | message t =>
    rw [helement] at htype
    cases htype
    exact reads_nestedMessage hS helement (reads_readLength_writeLength hlength)
      (writeLength_ne_nil _) h
  | group t =>
    rw [helement] at htype
    cases htype
    exact reads_nestedGroup hS helement h (reads_readTag_writeTag hnumber)
  | scalar | enum | text | blob =>
    rw [helement] at htype
    cases htype

end ProtoWire
