import ProtoWire.Proofs.Wire.Progress
import ProtoWire.Proofs.Wire.Tag

/-!
# Looking ahead

Before values are stored, records are skipped and packed values counted. Here is what that has to do
with reading them.

* `readScalar_fixed`, `readScalar_varint`: how far a scalar reaches.
* `Reader.countPackedVarints_advance`: a varint that is read was counted.
* `skipMessage_apply`, `skipField_apply`: skipping without fuel.
* `repeatedLength_le_bytesLeft`: looking ahead counts no more records than there are bytes.
* `Reader.Alike`: readers that differ at most in the latest tag. Skipping leaves such a reader where
  reading would have left one.
-/

namespace ProtoWire

variable {n : Nat} {r r' : Reader} {tag : UInt32}

/-! ### Scalars -/

theorem Varint.countP_take {bytes : Bytes} {value : UInt64} (h : decode bytes = .ok (value, n)) :
    (bytes.take n).countP (· < 0x80) = 1 := by
  obtain ⟨more, last, rest, rfl, hmore, -, hlast, -, rfl⟩ := decode_eq_ok h
  have hzero : more.countP (· < 0x80) = 0 := by
    rw [List.countP_eq_zero]
    intro b hb
    simpa using hmore b hb
  rw [take_ended, List.countP_append, hzero]
  simp [hlast]

theorem Reader.remaining_advance (r : Reader) (n : Nat) :
    (r.advance n).remaining = r.remaining.drop n := by
  simp only [Reader.remaining, Reader.advance, List.drop_take, List.drop_drop]
  congr 1
  omega

theorem Reader.remaining_of_atEnd (h : r.atEnd = true) : r.remaining = [] := by
  simp only [Reader.atEnd, beq_iff_eq] at h
  simp [Reader.remaining, h]

theorem Reader.bytesLeft_advance (r : Reader) (n : Nat) :
    (r.advance n).bytesLeft = r.bytesLeft - n :=
  Nat.sub_add_eq ..

theorem Reader.countPackedVarints_advance {value : UInt64}
    (h : Varint.decode r.remaining = .ok (value, n)) :
    r.countPackedVarints = (r.advance n).countPackedVarints + 1 := by
  rw [countPackedVarints, countPackedVarints, remaining_advance, ← Varint.countP_take h,
    Nat.add_comm, ← List.countP_append, List.take_append_drop]

section Scalars

variable {kind : Scalar} {value : kind.Value}

/-- A number of fixed size takes so many bytes. -/
theorem readScalar_fixed (hkind : kind.fixedSize = some n) (h : readScalar kind r = .ok value r') :
    n ≤ r.remaining.length ∧ r.advance n = r' := by
  have hfixed : ∀ {n value : Nat}, readFixed n r = .ok value r' →
      n ≤ r.remaining.length ∧ r.advance n = r' := fun h =>
    ⟨(readFixed_eq_ok.1 h).1, (readFixed_eq_ok.1 h).2.2⟩
  cases kind <;> cases hkind
  case double | fixed64 | float | fixed32 =>
    obtain ⟨_, hread, -⟩ := map_eq_ok.1 h
    exact hfixed hread
  case sfixed32 | sfixed64 =>
    obtain ⟨_, hread, -⟩ := map_eq_ok.1 h
    obtain ⟨_, hread, -⟩ := map_eq_ok.1 hread
    exact hfixed hread

theorem readScalar_varint (hkind : kind.fixedSize = none) (h : readScalar kind r = .ok value r') :
    ∃ full n, Varint.decode r.remaining = .ok (full, n) ∧ r.advance n = r' := by
  have hread64 : ∀ {value : UInt64}, readVarint64 r = .ok value r' →
      ∃ full n, Varint.decode r.remaining = .ok (full, n) ∧ r.advance n = r' := fun h =>
    ⟨_, readVarint64_eq_ok.1 h⟩
  have hread32 : ∀ {value : UInt32}, readVarint32 r = .ok value r' →
      ∃ full n, Varint.decode r.remaining = .ok (full, n) ∧ r.advance n = r' := by
    intro value h
    obtain ⟨full, n, hn, -, hr⟩ := readVarint32_eq_ok.1 h
    exact ⟨full, n, hn, hr⟩
  cases kind <;> cases hkind
  case uint64 => exact hread64 h
  case uint32 => exact hread32 h
  case int64 | bool | sint64 =>
    obtain ⟨_, hread, -⟩ := map_eq_ok.1 h
    exact hread64 hread
  case int32 | sint32 =>
    obtain ⟨_, hread, -⟩ := map_eq_ok.1 h
    exact hread32 hread

end Scalars

/-! ### Skipping without fuel -/

/-- What counts is how the records of a group are skipped, as far into the message as this. -/
theorem skipPayload_congr {inner inner' : Read Unit}
    (h : ∀ t : Reader, t.bytesLeft = r.bytesLeft → inner t = inner' t) (tag : UInt32) :
    skipPayload inner tag r = skipPayload inner' tag r := by
  unfold skipPayload
  cases Tag.wireType tag with
  | error e => rfl
  | ok wireType =>
    cases wireType with
    | startGroup =>
      refine bind_congr_ok fun _ t ht => bind_congr_left ?_
      obtain ⟨-, rfl⟩ := enterNested_eq_ok.1 ht
      exact h _ rfl
    | varint | i64 | len | endGroup | i32 => rfl

/-- Fuel above the number of bytes left does not matter. -/
theorem skipMessageWithin_congr {fuel fuel' : Nat} (h : r.bytesLeft < fuel)
    (h' : r.bytesLeft < fuel') : skipMessageWithin fuel r = skipMessageWithin fuel' r := by
  induction fuel generalizing fuel' r with
  | zero => exact absurd h (Nat.not_lt_zero _)
  | succ fuel ih =>
    cases fuel' with
    | zero => exact absurd h' (Nat.not_lt_zero _)
    | succ fuel' =>
      refine bind_congr_ok fun tag t ht => ?_
      by_cases htag : tag = 0
      · rw [if_pos htag, if_pos htag]
      · have hlt := bytesLeft_readTag ht htag
        have hpayload : skipPayload (skipMessageWithin fuel) tag t =
            skipPayload (skipMessageWithin fuel') tag t :=
          skipPayload_congr (fun u hu => ih (by omega) (by omega)) tag
        simp only [htag, if_false]
        rw [bind_congr_left hpayload]
        refine bind_congr_ok fun more u hu => ?_
        have hle := ((composed_skipPayload (composed_skipMessageWithin _) tag).advances hu).bytesLeft_le
        cases more with
        | false => rfl
        | true => exact ih (by simp only [id] at hle; omega) (by simp only [id] at hle; omega)

theorem skipField_apply (tag : UInt32) (r : Reader) :
    skipField tag r = skipPayload skipMessage tag r := by
  refine skipPayload_congr (fun t ht => ?_) tag
  rw [skipMessage, ht]

/-- Skips records from a tag on. -/
def skipFrom (tag : UInt32) : Read Unit := do
  if tag = 0 then return
  if ← skipField tag then skipMessage

theorem skipMessage_apply (r : Reader) : skipMessage r = (readTag >>= skipFrom) r := by
  refine bind_congr_ok fun tag t ht => ?_
  unfold skipFrom
  by_cases htag : tag = 0
  · rw [if_pos htag, if_pos htag]
  · have hlt := bytesLeft_readTag ht htag
    have hpayload : skipPayload (skipMessageWithin r.bytesLeft) tag t = skipField tag t := by
      rw [skipField]
      exact skipPayload_congr
        (fun u hu => skipMessageWithin_congr (by omega) (by omega)) tag
    simp only [htag, if_false]
    rw [bind_congr_left hpayload]
    refine bind_congr_ok fun more u hu => ?_
    have hle := (advances_skipField tag hu).bytesLeft_le
    cases more with
    | false => rfl
    | true =>
      simp only [id] at hle
      exact skipMessageWithin_congr (by omega) (Nat.lt_succ_self _)

/-! ### The end of a message -/

theorem readTag_lastTag (h : readTag r = .ok tag r') : r'.lastTag = tag := by
  obtain ⟨-, rfl, rfl⟩ | ⟨-, -, t, -, rfl⟩ := readTag_eq_ok.1 h
  · rfl
  · rfl

theorem atEnd_of_readTag (h : readTag r = .ok 0 r') : r'.atEnd = true := by
  obtain ⟨hend, -, rfl⟩ | ⟨-, hnumber, -⟩ := readTag_eq_ok.1 h
  · exact hend
  · exact absurd rfl hnumber

theorem skipPayload_eq_false {inner : Read Unit} (h : skipPayload inner tag r = .ok false r') :
    Tag.wireType tag = .ok .endGroup ∧ r' = r := by
  unfold skipPayload at h
  cases htype : Tag.wireType tag with
  | error e =>
    rw [htype] at h
    cases h
  | ok wireType =>
    rw [htype] at h
    cases wireType with
    | endGroup =>
      cases h
      exact ⟨rfl, rfl⟩
    | varint | i64 | i32 =>
      obtain ⟨_, _, -, h⟩ := bind_eq_ok.1 h
      cases h
    | len =>
      obtain ⟨_, _, -, h⟩ := bind_eq_ok.1 h
      obtain ⟨_, _, -, h⟩ := bind_eq_ok.1 h
      cases h
    | startGroup =>
      obtain ⟨_, _, -, h⟩ := bind_eq_ok.1 h
      obtain ⟨_, _, -, h⟩ := bind_eq_ok.1 h
      obtain ⟨_, _, -, h⟩ := bind_eq_ok.1 h
      obtain ⟨_, _, -, h⟩ := bind_eq_ok.1 h
      cases h

theorem skipField_eq_false (h : skipField tag r = .ok false r') :
    Tag.wireType tag = .ok .endGroup ∧ r' = r :=
  skipPayload_eq_false h

theorem skipField_endGroup (htype : Tag.wireType tag = .ok .endGroup) (r : Reader) :
    skipField tag r = .ok false r := by
  unfold skipField skipPayload
  rw [htype]
  rfl

theorem advances_skipMessage : Advances id skipMessage := by
  intro r a r' h
  exact advances_skipMessageWithin _ h

theorem advances_skipFrom (tag : UInt32) : Advances id (skipFrom tag) := by
  unfold skipFrom
  split
  · exact .pure _
  · refine (advances_skipField tag).bind fun more => ?_
    split
    · exact advances_skipMessage
    · exact .pure _

/-! ### The tags of records -/

/-- The tag of a record, and those of the rest behind it. -/
def tagsFrom (rest : Read (List UInt32)) (tag : UInt32) : Read (List UInt32) := do
  if tag = 0 then return []
  if ← skipField tag then (tag :: ·) <$> rest else return []

/-- The tags of the records up to the limit or an end-group tag, less than `fuel` of them. -/
def recordTags : (fuel : Nat) → Read (List UInt32)
  | 0 => throw .truncated
  | fuel + 1 => readTag >>= tagsFrom (recordTags fuel)

section Tags

variable {fuel : Nat} {rest : Read (List UInt32)} {tags : List UInt32}

theorem tagsFrom_eq_ok : tagsFrom rest tag r = .ok tags r' ↔
    ((tag = 0 ∨ Tag.wireType tag = .ok .endGroup) ∧ tags = [] ∧ r' = r) ∨
      tag ≠ 0 ∧ ∃ t tags', skipField tag r = .ok true t ∧ rest t = .ok tags' r' ∧
        tags = tag :: tags' := by
  unfold tagsFrom
  by_cases hzero : tag = 0
  · simp [hzero, eq_comm]
  · simp only [hzero, if_false, false_or, ne_eq, not_false_eq_true, true_and]
    rw [bind_eq_ok]
    constructor
    · rintro ⟨more, t, hskip, h⟩
      cases more with
      | true =>
        obtain ⟨tags', htags, rfl⟩ := map_eq_ok.1 h
        exact .inr ⟨t, tags', hskip, htags, rfl⟩
      | false =>
        obtain ⟨htype, rfl⟩ := skipField_eq_false hskip
        cases h
        exact .inl ⟨htype, rfl, rfl⟩
    · rintro (⟨htype, rfl, rfl⟩ | ⟨t, tags', hskip, htags, rfl⟩)
      · exact ⟨false, r', skipField_endGroup htype r', rfl⟩
      · exact ⟨true, t, hskip, map_eq_ok.2 ⟨tags', htags, rfl⟩⟩

theorem skipFrom_eq (h : tag ≠ 0 → ∀ t, skipField tag r = .ok true t →
      skipMessage t = ((fun _ => ()) <$> rest) t) :
    skipFrom tag r = ((fun _ => ()) <$> tagsFrom rest tag) r := by
  unfold skipFrom tagsFrom
  split
  · rfl
  · rename_i hne
    rw [map_bind]
    refine bind_congr_ok fun more t ht => ?_
    cases more with
    | false => rfl
    | true =>
      simp only [if_true, Functor.map_map]
      exact h hne t ht

/-- Skipping passes over the records and forgets their tags. -/
theorem skipMessage_eq (h : r.bytesLeft < fuel) :
    skipMessage r = ((fun _ => ()) <$> recordTags fuel) r := by
  induction fuel generalizing r with
  | zero => exact absurd h (Nat.not_lt_zero _)
  | succ fuel ih =>
    rw [skipMessage_apply, recordTags, map_bind]
    refine bind_congr_ok fun tag t ht => skipFrom_eq fun hne u hu => ih ?_
    have hlt := bytesLeft_readTag ht hne
    have hle : u.bytesLeft ≤ t.bytesLeft := (advances_skipField tag hu).bytesLeft_le
    omega

theorem exists_recordTags (h : skipMessage r = .ok () r') :
    ∃ tags, recordTags (r.bytesLeft + 1) r = .ok tags r' := by
  rw [skipMessage_eq (Nat.lt_add_one r.bytesLeft)] at h
  obtain ⟨tags, htags, -⟩ := map_eq_ok.1 h
  exact ⟨tags, htags⟩

theorem skipFrom_eq_tags (tag : UInt32) (r : Reader) :
    skipFrom tag r = ((fun _ => ()) <$> tagsFrom (recordTags (r.bytesLeft + 1)) tag) r :=
  skipFrom_eq fun _ _ ht =>
    skipMessage_eq (Nat.lt_succ_of_le (advances_skipField tag ht).bytesLeft_le)

/-- Counting passes over them as well. -/
theorem countRecords_eq (htype : Tag.wireType tag ≠ .ok .endGroup) (fuel count : Nat) :
    countRecords tag fuel count = (fun tags => count + tags.count tag) <$> recordTags fuel := by
  induction fuel generalizing count with
  | zero => rfl
  | succ fuel ih =>
    rw [recordTags, map_bind]
    refine congrArg _ (funext fun next => funext fun r => ?_)
    unfold tagsFrom
    by_cases hzero : next = 0
    · rw [if_pos hzero, if_pos hzero]
      rfl
    · rw [if_neg hzero, if_neg hzero, map_bind]
      by_cases htag : next = tag
      · subst htag
        rw [if_pos rfl]
        refine bind_congr_ok fun more t ht => ?_
        cases more with
        | false => exact absurd (skipField_eq_false ht).1 htype
        | true =>
          simp only [ih, if_true, Functor.map_map, List.count_cons_self, Nat.add_right_comm,
            ← Nat.add_assoc]
      · rw [if_neg htag]
        refine bind_congr_ok fun more t _ => ?_
        cases more with
        | false => rfl
        | true => simp only [ih, if_true, Functor.map_map, List.count_cons_of_ne htag]

/-- Looking ahead counts the tag that was read, and those behind its payload. -/
theorem repeatedLength_eq_tags (htype : Tag.wireType tag ≠ .ok .endGroup) (r : Reader) :
    repeatedLength tag r = (do
      let _ ← skipField tag
      let tags ← recordTags (r.bytesLeft + 1)
      modify fun t => { t with pos := r.pos, lastTag := r.lastTag }
      return tags.count tag + 1 : Read Nat) r := by
  unfold repeatedLength
  rw [bind_of_ok get_apply]
  simp only [countRecords_eq htype, bind_map_left, Nat.add_comm]

theorem repeatedLength_eq_ok (htype : Tag.wireType tag ≠ .ok .endGroup) :
    repeatedLength tag r = .ok n r' ↔ r' = r ∧ ∃ t tags u, skipField tag r = .ok true t ∧
      recordTags (r.bytesLeft + 1) t = .ok tags u ∧ n = tags.count tag + 1 := by
  constructor
  · intro h
    refine ⟨repeatedLength_ok h, ?_⟩
    rw [repeatedLength_eq_tags htype] at h
    obtain ⟨more, t, hskip, h⟩ := bind_eq_ok.1 h
    obtain ⟨tags, u, htags, h⟩ := bind_eq_ok.1 h
    cases h
    cases more with
    | false => exact absurd (skipField_eq_false hskip).1 htype
    | true => exact ⟨t, tags, u, hskip, htags, rfl⟩
  · rintro ⟨rfl, t, tags, u, hskip, htags, rfl⟩
    have h : repeatedLength tag r' = .ok _ { u with pos := r'.pos, lastTag := r'.lastTag } :=
      (repeatedLength_eq_tags htype r').trans ((bind_of_ok hskip).trans (bind_of_ok htags))
    exact h.trans (congrArg _ (repeatedLength_ok h))

theorem skipFrom_of_repeatedLength (hne : tag ≠ 0) (htype : Tag.wireType tag ≠ .ok .endGroup)
    {e : DecodeError} (h : repeatedLength tag r = .error e r') : skipFrom tag r = .error e r' := by
  rw [repeatedLength_eq_tags htype] at h
  rw [skipFrom, if_neg hne]
  cases hskip : skipField tag r with
  | error e' t =>
    rw [bind_of_error hskip] at h ⊢
    cases h
    rfl
  | ok more t =>
    rw [bind_of_ok hskip] at h ⊢
    cases more with
    | false => exact absurd (skipField_eq_false hskip).1 htype
    | true =>
      have hle : t.bytesLeft ≤ r.bytesLeft := (advances_skipField tag hskip).bytesLeft_le
      simp only [if_true]
      rw [skipMessage_eq (Nat.lt_succ_of_le hle), map_eq_error]
      cases htags : recordTags (r.bytesLeft + 1) t with
      | error e' u =>
        rw [bind_of_error htags] at h
        cases h
        rfl
      | ok tags u => cases (bind_of_ok htags).symm.trans h

/-- Records without an end-group tag end at the limit. -/
theorem atEnd_of_skipMessage (h : skipMessage r = .ok () r') (hlast : r'.lastTag = 0) :
    r'.atEnd = true := by
  obtain ⟨tags, htags⟩ := exists_recordTags h
  clear h
  generalize r.bytesLeft + 1 = fuel at htags
  induction fuel generalizing r tags with
  | zero => cases htags
  | succ fuel ih =>
    obtain ⟨tag, t, ht, htags⟩ := bind_eq_ok.1 htags
    rcases tagsFrom_eq_ok.1 htags with ⟨-, -, rfl⟩ | ⟨-, u, tags', -, hrest, -⟩
    · rw [readTag_lastTag ht] at hlast
      exact atEnd_of_readTag (hlast ▸ ht)
    · exact ih tags' hrest

/-! ### Tags and bytes -/

/-- Each tag takes a byte at least. -/
theorem length_recordTags (h : recordTags fuel r = .ok tags r') : tags.length ≤ r.bytesLeft := by
  induction fuel generalizing r tags with
  | zero => cases h
  | succ fuel ih =>
    obtain ⟨tag, t, ht, h⟩ := bind_eq_ok.1 h
    rcases tagsFrom_eq_ok.1 h with ⟨-, rfl, -⟩ | ⟨hne, u, tags', hskip, hrest, rfl⟩
    · exact Nat.zero_le _
    · have hlt := bytesLeft_readTag ht hne
      have hle : u.bytesLeft ≤ t.bytesLeft := (advances_skipField tag hskip).bytesLeft_le
      have hlength := ih hrest
      rw [List.length_cons]
      omega

/-- Records that end with an end-group tag take a byte at least. -/
theorem bytesLeft_skipMessage (h : skipMessage r = .ok () r') (hlast : r'.lastTag ≠ 0) :
    r'.bytesLeft < r.bytesLeft := by
  rw [skipMessage_apply] at h
  obtain ⟨tag, t, htag, h⟩ := bind_eq_ok.1 h
  have hne : tag ≠ 0 := by
    rintro rfl
    cases h
    exact hlast (readTag_lastTag htag)
  exact Nat.lt_of_le_of_lt (advances_skipFrom tag h).bytesLeft_le (bytesLeft_readTag htag hne)

/-- A payload takes a byte at least. -/
theorem bytesLeft_skipField (htype : Tag.wireType tag ≠ .ok .endGroup) {more : Bool}
    (h : skipField tag r = .ok more r') : r'.bytesLeft < r.bytesLeft := by
  rw [skipField_apply, skipPayload] at h
  cases hwire : Tag.wireType tag with
  | error e =>
    rw [hwire] at h
    cases h
  | ok type =>
    rw [hwire] at h
    cases type with
    | varint =>
      obtain ⟨value, _, hread, ⟨⟩⟩ := bind_eq_ok.1 h
      obtain ⟨n, hdecode, rfl⟩ := readVarint64_eq_ok.1 hread
      exact bytesLeft_readVarint32 (readVarint32_eq_ok.2 ⟨value, n, hdecode, rfl, rfl⟩)
    | i64 | i32 =>
      obtain ⟨_, _, hskip, ⟨⟩⟩ := bind_eq_ok.1 h
      obtain ⟨hle, rfl⟩ := skipRaw_eq_ok.1 hskip
      rw [Reader.bytesLeft_advance]
      exact Nat.sub_lt (Nat.lt_of_lt_of_le (by decide) hle) (by decide)
    | len =>
      obtain ⟨n, t, hlength, h⟩ := bind_eq_ok.1 h
      obtain ⟨_, _, hskip, ⟨⟩⟩ := bind_eq_ok.1 h
      obtain ⟨_, hlow, -⟩ := readLength_eq_ok.1 hlength
      obtain ⟨-, rfl⟩ := skipRaw_eq_ok.1 hskip
      rw [Reader.bytesLeft_advance]
      exact Nat.lt_of_le_of_lt (Nat.sub_le _ _) (bytesLeft_readVarint32 hlow)
    | startGroup =>
      obtain ⟨_, t, henter, h⟩ := bind_eq_ok.1 h
      obtain ⟨_, u, hskip, h⟩ := bind_eq_ok.1 h
      obtain ⟨_, _, hcheck, ⟨⟩⟩ := bind_eq_ok.1 h
      obtain ⟨hlast, rfl⟩ := checkLastTag_eq_ok.1 hcheck
      obtain ⟨-, rfl⟩ := enterNested_eq_ok.1 henter
      have hless := bytesLeft_skipMessage hskip (hlast ▸ Tag.make_ne_zero _)
      exact hless
    | endGroup => exact absurd hwire htype

/-- Looking ahead counts no more records than there are bytes. -/
theorem repeatedLength_le_bytesLeft (htype : Tag.wireType tag ≠ .ok .endGroup)
    (h : repeatedLength tag r = .ok n r') : n ≤ r.bytesLeft := by
  obtain ⟨-, t, tags, u, hskip, htags, rfl⟩ := (repeatedLength_eq_ok htype).1 h
  exact Nat.lt_of_le_of_lt (Nat.le_trans List.count_le_length (length_recordTags htags))
    (bytesLeft_skipField htype hskip)

end Tags

/-! ### Readers that differ in the latest tag -/

/-- The readers differ at most in the latest tag. -/
def Reader.Alike (r r' : Reader) : Prop :=
  ∃ tag, r' = { r with lastTag := tag }

theorem Reader.Alike.refl (r : Reader) : r.Alike r :=
  ⟨r.lastTag, rfl⟩

theorem Reader.Alike.symm (h : r.Alike r') : r'.Alike r := by
  obtain ⟨tag, rfl⟩ := h
  exact ⟨r.lastTag, rfl⟩

theorem Reader.Alike.ahead {r'' : Reader} (h : r'.Alike r'') (hahead : r.Ahead r'') :
    r.Ahead r' := by
  obtain ⟨tag, rfl⟩ := h
  exact hahead.withTag r'.lastTag

theorem Reader.Alike.readTag {t : Reader} (h : r.Alike r') (hread : readTag r = .ok tag t) :
    ProtoWire.readTag r' = .ok tag t := by
  obtain ⟨last, rfl⟩ := h
  rw [readTag_eq_ok] at hread ⊢
  obtain ⟨hend, htag, ht⟩ | ⟨hend, htag, u, hu, ht⟩ := hread
  · exact .inl ⟨hend, htag, ht⟩
  · obtain ⟨full, n, hn, hfull, rfl⟩ := readVarint32_eq_ok.1 hu
    exact .inr ⟨hend, htag, _, readVarint32_eq_ok.2 ⟨full, n, hn, hfull, rfl⟩, ht⟩

/-- Reading a tag fails alike whatever the latest tag was. -/
theorem Reader.Alike.readTag_error {t : Reader} {e : DecodeError} (h : r.Alike r')
    (hread : ProtoWire.readTag r = .error e t) : ∃ t', ProtoWire.readTag r' = .error e t' := by
  obtain ⟨last, rfl⟩ := h
  have hend : Reader.atEnd { r with lastTag := last } = r.atEnd := rfl
  have hremaining : Reader.remaining { r with lastTag := last } = r.remaining := rfl
  rw [readTag_apply, readVarint32_eq] at hread ⊢
  rw [hend, hremaining]
  by_cases hlimit : r.atEnd = true
  · rw [if_pos hlimit] at hread
    cases hread
  · rw [if_neg hlimit] at hread ⊢
    cases hdecode : Varint.decode r.remaining with
    | error e' =>
      rw [hdecode] at hread
      cases hread
      exact ⟨_, rfl⟩
    | ok p =>
      rw [hdecode] at hread
      by_cases hzero : Tag.number p.1.toUInt32 = 0
      · simp only [hzero, if_true] at hread ⊢
        cases hread
        exact ⟨_, rfl⟩
      · simp only [hzero, if_false] at hread
        cases hread

end ProtoWire
