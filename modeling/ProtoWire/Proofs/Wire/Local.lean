import ProtoWire.Proofs.Wire.ReadBack

/-!
# Reading is local

What an action reads depends on the bytes that it takes alone, not on what follows them.
-/

namespace ProtoWire

variable {r r' : Reader} {α : Type} {x : Read α} {a : α}

/-- How many levels deeper the reader may go. -/
def Reader.levels (r : Reader) : Nat :=
  r.recursionLimit.toNat - r.depth.toNat

/-- The limit is inside the buffer, and the depth inside its limit. -/
structure Reader.Sound (r : Reader) : Prop where
  limit_le : r.limit ≤ r.data.length
  depth_le : r.depth.toNat ≤ r.recursionLimit.toNat

/-- The action takes some of the bytes at hand for the value, whatever follows them. -/
def Takes {α : Type} (x : Read α) (r : Reader) (a : α) : Prop :=
  ∃ bytes rest, r.remaining = bytes ++ rest ∧ Reads r.levels x bytes a

/-- Where the action succeeds, it depends on the bytes that it takes alone. -/
def LocalAt {α : Type} (x : Read α) (r : Reader) : Prop :=
  r.Sound → ∀ (a : α) (r' : Reader), x r = .ok a r' → Takes x r a

theorem Reader.Alike.remaining_eq (h : r.Alike r') : r'.remaining = r.remaining := by
  obtain ⟨tag, rfl⟩ := h
  rfl

theorem Reader.Alike.levels_eq (h : r.Alike r') : r'.levels = r.levels := by
  obtain ⟨tag, rfl⟩ := h
  rfl

theorem Reader.Alike.trans {r'' : Reader} (h : r.Alike r') (h' : r'.Alike r'') : r.Alike r'' := by
  obtain ⟨tag, rfl⟩ := h
  obtain ⟨tag', rfl⟩ := h'
  exact ⟨tag', rfl⟩

theorem Reader.length_remaining (h : r.limit ≤ r.data.length) :
    r.remaining.length = r.bytesLeft := by
  simp only [Reader.remaining, Reader.bytesLeft, List.length_take, List.length_drop]
  omega

theorem Reader.pos_eq_of_atEnd (h : r.atEnd = true) : r.pos = r.limit :=
  beq_iff_eq.1 h

/-- Going deeper leaves one level less. -/
theorem Reader.levels_of_enterNested (h : enterNested r = .ok () r') :
    { r with depth := r.depth + 1 } = r' ∧ r.levels = r'.levels + 1 ∧
      r'.depth.toNat ≤ r'.recursionLimit.toNat := by
  obtain ⟨hdepth, rfl⟩ := enterNested_eq_ok.1 h
  have hlt : r.depth.toNat < r.recursionLimit.toNat :=
    Nat.lt_of_not_le fun hle => hdepth (UInt32.le_iff_toNat_le.2 hle)
  simp only [Reader.levels, Reader.toNat_depth_succ hlt, true_and]
  omega

/-! ### Composition -/

theorem Reads.exists_ok {bytes rest : Bytes} (h : Reads r.levels x bytes a) (hsound : r.Sound)
    (hr : r.remaining = bytes ++ rest) :
    ∃ r', x r = .ok a r' ∧ (r.advance bytes.length).Alike r' := by
  have hdepth := hsound.depth_le
  exact h r rest hr (by rw [Reader.levels]; omega)

theorem Reads.alike {bytes rest : Bytes} {b : α} (h : Reads r.levels x bytes a) (hsound : r.Sound)
    (hr : r.remaining = bytes ++ rest) (hx : x r = .ok b r') :
    (r.advance bytes.length).Alike r' := by
  obtain ⟨t, ht, halike⟩ := h.exists_ok hsound hr
  cases hx.symm.trans ht
  exact halike

/-- The first bytes are those that are taken. -/
theorem Takes.of_take {n : Nat} (hreads : Reads r.levels x (r.remaining.take n) a) : Takes x r a :=
  ⟨_, _, (List.take_append_drop _ _).symm, hreads⟩

theorem Reader.Sound.alike (hr : r.Sound) (h : r.Alike r') : r'.Sound := by
  obtain ⟨tag, rfl⟩ := h
  exact ⟨hr.limit_le, hr.depth_le⟩

theorem Reader.Sound.advance (hr : r.Sound) (n : Nat) : (r.advance n).Sound :=
  ⟨hr.limit_le, hr.depth_le⟩

namespace LocalAt

variable {β : Type}

theorem pure (a : α) : LocalAt (Pure.pure a : Read α) r := by
  rintro - b r' ⟨⟩
  exact ⟨[], r.remaining, rfl, .pure a⟩

theorem throw (e : DecodeError) : LocalAt (MonadExcept.throw e : Read α) r := by
  rintro - a r' ⟨⟩

theorem map (h : LocalAt x r) (f : α → β) : LocalAt (f <$> x) r := by
  intro hsound b r' hb
  obtain ⟨a, ha, rfl⟩ := map_eq_ok.1 hb
  obtain ⟨bytes, rest, hr, hreads⟩ := h hsound a r' ha
  exact ⟨bytes, rest, hr, hreads.map f⟩

theorem bind {f : α → Read β} (h : LocalAt x r)
    (hf : ∀ a r', x r = .ok a r' → LocalAt (f a) r') : LocalAt (x >>= f) r := by
  intro hsound b r' hb
  obtain ⟨a, t, ha, hb⟩ := bind_eq_ok.1 hb
  obtain ⟨bytes, rest, hr, hreads⟩ := h hsound a t ha
  have halike := hreads.alike hsound hr ha
  obtain ⟨bytes', rest', hr', hreads'⟩ :=
    hf a t ha ((hsound.advance _).alike halike) b r' hb
  rw [halike.remaining_eq, Reader.remaining_advance_append hr] at hr'
  rw [halike.levels_eq] at hreads'
  exact ⟨bytes ++ bytes', rest', by rw [hr, hr', List.append_assoc], hreads.bind hreads'⟩

end LocalAt

/-! ### Values -/

section Values

variable (r : Reader)

theorem localAt_readVarint64 : LocalAt readVarint64 r := by
  intro hsound value r' h
  obtain ⟨n, hdecode, rfl⟩ := readVarint64_eq_ok.1 h
  obtain ⟨hspells, -⟩ := Varint.spells_take hdecode
  exact .of_take (reads_readVarint64 hspells)

theorem localAt_readVarint32 : LocalAt readVarint32 r := by
  intro hsound value r' h
  obtain ⟨full, n, hdecode, rfl, rfl⟩ := readVarint32_eq_ok.1 h
  obtain ⟨hspells, -⟩ := Varint.spells_take hdecode
  exact .of_take (reads_readVarint32 hspells)

theorem localAt_readFixed (n : Nat) : LocalAt (readFixed n) r := by
  intro hsound value r' h
  obtain ⟨hn, rfl, rfl⟩ := readFixed_eq_ok.1 h
  have hreads : Reads r.levels (readFixed (r.remaining.take n).length) _ _ := reads_readFixed _
  rw [List.length_take, Nat.min_eq_left hn] at hreads
  exact .of_take hreads

theorem localAt_readRaw (n : Nat) : LocalAt (readRaw n) r := by
  intro hsound bytes r' h
  obtain ⟨hn, rfl, rfl⟩ := readRaw_eq_ok.1 h
  have hlength := Reader.length_remaining hsound.limit_le
  have htake : (r.data.drop r.pos).take n = r.remaining.take n := by
    rw [Reader.bytesLeft] at hn
    rw [Reader.remaining, List.take_take, Nat.min_eq_left hn]
  have hreads : Reads r.levels (readRaw (r.remaining.take n).length) _ _ := reads_readRaw _
  rw [List.length_take, Nat.min_eq_left (by omega)] at hreads
  rw [htake]
  exact .of_take hreads

theorem localAt_readScalar (kind : Scalar) : LocalAt (readScalar kind) r := by
  cases kind with
  | uint64 => exact localAt_readVarint64 r
  | int64 | bool | sint64 => exact (localAt_readVarint64 r).map _
  | uint32 => exact localAt_readVarint32 r
  | int32 | sint32 => exact (localAt_readVarint32 r).map _
  | double | fixed64 => exact (localAt_readFixed r fixed64Size).map _
  | float | fixed32 => exact (localAt_readFixed r fixed32Size).map _
  | sfixed64 => exact ((localAt_readFixed r fixed64Size).map _).map _
  | sfixed32 => exact ((localAt_readFixed r fixed32Size).map _).map _

theorem localAt_readLength : LocalAt readLength r := by
  intro hsound n r' h
  obtain ⟨size, hsize, hpos, rfl⟩ := readLength_eq_ok.1 h
  obtain ⟨full, n, hdecode, rfl, rfl⟩ := readVarint32_eq_ok.1 hsize
  obtain ⟨hspells, -⟩ := Varint.spells_take hdecode
  exact .of_take (reads_readLength hspells hpos)

/-- A length takes a byte at least. -/
theorem exists_reads_readLength {r : Reader} {n : Nat} (hsound : r.Sound)
    (h : readLength r = .ok n r') :
    ∃ bytes rest, r.remaining = bytes ++ rest ∧ bytes ≠ [] ∧ (r.advance bytes.length).Alike r' ∧
      Reads r.levels readLength bytes n := by
  obtain ⟨bytes, rest, hr, hreads⟩ := localAt_readLength r hsound n r' h
  have halike := hreads.alike hsound hr h
  refine ⟨bytes, rest, hr, ?_, halike, hreads⟩
  rintro rfl
  obtain ⟨size, hsize, -, -⟩ := readLength_eq_ok.1 h
  obtain ⟨tag, rfl⟩ := halike
  have hlt := bytesLeft_readVarint32 hsize
  exact Nat.lt_irrefl r.bytesLeft hlt

theorem localAt_readBlob : LocalAt readBlob r :=
  (localAt_readLength r).bind fun n r' _ => localAt_readRaw r' n

theorem localAt_readText : LocalAt readText r := by
  refine (localAt_readBlob r).bind fun bytes r' _ => ?_
  unfold decodeText
  split
  · exact .pure _
  · exact .throw _

theorem localAt_skipRaw (n : Nat) : LocalAt (skipRaw n) r :=
  (localAt_readRaw r n).bind fun _ _ _ => .pure _

end Values

/-- A tag that was read would be read anywhere. -/
theorem exists_reads_readTag {tag : UInt32} (h : readTag r = .ok tag r') (htag : tag ≠ 0) :
    ∃ bytes rest, r.remaining = bytes ++ rest ∧ (r.advance bytes.length).Alike r' ∧
      ∀ levels, Reads levels readTag bytes tag := by
  rcases readTag_eq_ok.1 h with ⟨-, h, -⟩ | ⟨-, hnumber, t, ht, rfl⟩
  · exact absurd h htag
  · obtain ⟨full, n, hdecode, rfl, rfl⟩ := readVarint32_eq_ok.1 ht
    obtain ⟨hspells, hn⟩ := Varint.spells_take hdecode
    refine ⟨r.remaining.take n, r.remaining.drop n, (List.take_append_drop _ _).symm,
      ⟨full.toUInt32, ?_⟩, fun levels => reads_readTag hspells hnumber⟩
    rw [List.length_take, Nat.min_eq_left hn]

theorem readTag_zero (h : readTag r = .ok 0 r') :
    r.atEnd = true ∧ { r with lastTag := 0 } = r' := by
  rcases readTag_eq_ok.1 h with ⟨hend, -, hr⟩ | ⟨-, hnumber, -⟩
  · exact ⟨hend, hr⟩
  · exact absurd rfl hnumber

end ProtoWire
