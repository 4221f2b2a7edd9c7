import ProtoWire.Proofs.Wire.Composed
import ProtoWire.Proofs.Wire.Reader

/-!
# Progress

All reads and skips only move the reader ahead, inside the same message. Looking ahead leaves it as
it was.
-/

namespace ProtoWire

variable {r r' : Reader} {α : Type}

namespace Varint

/-- A varint takes a byte at least, and no more than there are. -/
theorem decode_length {bytes : Bytes} {value : UInt64} {n : Nat}
    (h : decode bytes = .ok (value, n)) : 0 < n ∧ n ≤ bytes.length := by
  obtain ⟨more, last, rest, rfl, -, -, -, -, rfl⟩ := decode_eq_ok h
  simp

end Varint

theorem Reader.length_remaining_le (r : Reader) : r.remaining.length ≤ r.bytesLeft :=
  List.length_take_le _ _

/-- The second reader is the first one further on, inside the same message. -/
structure Reader.Ahead (r r' : Reader) : Prop where
  data_eq : r'.data = r.data
  limit_eq : r'.limit = r.limit
  depth_eq : r'.depth = r.depth
  recursionLimit_eq : r'.recursionLimit = r.recursionLimit
  pos_le : r.pos ≤ r'.pos
  le_limit : r.pos ≤ r.limit → r'.pos ≤ r.limit

namespace Reader.Ahead

variable {r'' : Reader}

theorem refl (r : Reader) : r.Ahead r :=
  ⟨rfl, rfl, rfl, rfl, Nat.le_refl _, id⟩

theorem trans (h : r.Ahead r') (h' : r'.Ahead r'') : r.Ahead r'' where
  data_eq := h'.data_eq.trans h.data_eq
  limit_eq := h'.limit_eq.trans h.limit_eq
  depth_eq := h'.depth_eq.trans h.depth_eq
  recursionLimit_eq := h'.recursionLimit_eq.trans h.recursionLimit_eq
  pos_le := Nat.le_trans h.pos_le h'.pos_le
  le_limit := by
    intro hr
    have := h'.le_limit (by rw [h.limit_eq]; exact h.le_limit hr)
    rwa [h.limit_eq] at this

theorem advance {n : Nat} (h : n ≤ r.bytesLeft) : r.Ahead (r.advance n) where
  data_eq := rfl
  limit_eq := rfl
  depth_eq := rfl
  recursionLimit_eq := rfl
  pos_le := Nat.le_add_right _ _
  le_limit := by
    intro hr
    simp only [bytesLeft] at h
    simp only [Reader.advance]
    omega

theorem withTag (h : r.Ahead r') (tag : UInt32) : r.Ahead { r' with lastTag := tag } :=
  ⟨h.data_eq, h.limit_eq, h.depth_eq, h.recursionLimit_eq, h.pos_le, h.le_limit⟩

theorem bytesLeft_le (h : r.Ahead r') : r'.bytesLeft ≤ r.bytesLeft := by
  have := h.pos_le
  simp only [bytesLeft, h.limit_eq]
  omega

end Reader.Ahead

/-- Every successful run of the action only moves the reader ahead. -/
def Advances {ε σ α : Type} (reader : σ → Reader) (x : EStateM ε σ α) : Prop :=
  ∀ ⦃s : σ⦄ ⦃a : α⦄ ⦃s' : σ⦄, x s = .ok a s' → (reader s).Ahead (reader s')

namespace Advances

variable {ε σ β : Type} {reader : σ → Reader}

theorem pure (a : α) : Advances reader (Pure.pure a : EStateM ε σ α) := by
  intro s b s' h
  cases h
  exact .refl _

theorem throw (e : ε) : Advances reader (MonadExcept.throw e : EStateM ε σ α) :=
  nofun

theorem bind {x : EStateM ε σ α} {f : α → EStateM ε σ β} (hx : Advances reader x)
    (hf : ∀ a, Advances reader (f a)) : Advances reader (x >>= f) := by
  intro s b s' h
  obtain ⟨a, t, ha, hb⟩ := bind_eq_ok.1 h
  exact (hx ha).trans (hf a hb)

end Advances

/-! ### Reads -/

theorem advances_readVarint64 : Advances id readVarint64 := by
  intro r value r' h
  obtain ⟨n, hn, rfl⟩ := readVarint64_eq_ok.1 h
  exact .advance (Nat.le_trans (Varint.decode_length hn).2 r.length_remaining_le)

theorem advances_readVarint32 : Advances id readVarint32 := by
  intro r value r' h
  obtain ⟨full, n, hn, -, rfl⟩ := readVarint32_eq_ok.1 h
  exact .advance (Nat.le_trans (Varint.decode_length hn).2 r.length_remaining_le)

theorem bytesLeft_readVarint32 {value : UInt32} (h : readVarint32 r = .ok value r') :
    r'.bytesLeft < r.bytesLeft := by
  obtain ⟨full, n, hn, -, rfl⟩ := readVarint32_eq_ok.1 h
  have hpos := Varint.decode_length hn
  have hle := r.length_remaining_le
  simp only [Reader.bytesLeft, Reader.advance] at hle ⊢
  omega

theorem advances_readTag : Advances id readTag := by
  intro r tag r' h
  obtain ⟨-, -, rfl⟩ | ⟨-, -, t, ht, rfl⟩ := readTag_eq_ok.1 h
  · exact (Reader.Ahead.refl r).withTag 0
  · exact (advances_readVarint32 ht).withTag tag

/-- A tag takes a byte at least; at the limit there is none. -/
theorem bytesLeft_readTag {tag : UInt32} (h : readTag r = .ok tag r') (htag : tag ≠ 0) :
    r'.bytesLeft < r.bytesLeft := by
  obtain ⟨-, hzero, -⟩ | ⟨-, -, t, ht, rfl⟩ := readTag_eq_ok.1 h
  · exact absurd hzero htag
  · have hlt := bytesLeft_readVarint32 ht
    exact hlt

theorem advances_checkLastTag (tag : UInt32) : Advances id (checkLastTag tag) := by
  intro r a r' h
  obtain ⟨-, rfl⟩ := checkLastTag_eq_ok.1 h
  exact .refl _

theorem advances_readRaw (n : Nat) : Advances id (readRaw n) := by
  intro r bytes r' h
  obtain ⟨hn, -, rfl⟩ := readRaw_eq_ok.1 h
  exact .advance hn

theorem advances_readFixed (n : Nat) : Advances id (readFixed n) := by
  intro r value r' h
  obtain ⟨hn, -, rfl⟩ := readFixed_eq_ok.1 h
  exact .advance (Nat.le_trans hn r.length_remaining_le)

/-! ### Nesting -/

theorem Reader.toNat_depth_succ (h : r.depth.toNat < r.recursionLimit.toNat) :
    (r.depth + 1).toNat = r.depth.toNat + 1 := by
  have := r.recursionLimit.toNat_lt
  rw [UInt32.toNat_add]
  simp
  omega

/-- The depth is as before around contents that only advance. -/
theorem Reader.Ahead.deeper (h : Ahead { r with depth := r.depth + 1 } r') :
    Ahead r { r' with depth := r'.depth - 1 } where
  data_eq := h.data_eq
  limit_eq := h.limit_eq
  depth_eq := by
    simp only [h.depth_eq]
    exact UInt32.add_sub_cancel _ _
  recursionLimit_eq := h.recursionLimit_eq
  pos_le := h.pos_le
  le_limit := h.le_limit

/-- The limit is as before around contents that only advance to a nearer one. -/
theorem Reader.Ahead.narrower {limit : Nat} (hpos : r.pos ≤ limit) (hlimit : limit ≤ r.limit)
    (h : Ahead { r with limit := limit } r') :
    Ahead r { r' with limit := r.limit } where
  data_eq := h.data_eq
  limit_eq := rfl
  depth_eq := h.depth_eq
  recursionLimit_eq := h.recursionLimit_eq
  pos_le := h.pos_le
  le_limit := fun _ => Nat.le_trans (h.le_limit hpos) hlimit

/-! ### Composition -/

theorem lookingAhead_ok {x : Nat → Read α} (hx : ∀ n, Advances id (x n)) {a : α}
    (h : lookingAhead x r = .ok a r') : r' = r := by
  obtain ⟨_, _, ⟨⟩, h⟩ := bind_eq_ok.1 h
  obtain ⟨_, u, hu, h⟩ := bind_eq_ok.1 h
  cases h
  have hahead := hx _ hu
  cases r
  cases u
  obtain ⟨⟨⟩, ⟨⟩, ⟨⟩, ⟨⟩, -, -⟩ := hahead
  rfl

theorem advances_oneDeeper {x : Read Unit} (hx : Advances id x) : Advances id (oneDeeper x) := by
  intro r a r' h
  obtain ⟨_, t, henter, h⟩ := bind_eq_ok.1 h
  obtain ⟨_, u, hu, h⟩ := bind_eq_ok.1 h
  cases h
  obtain ⟨-, rfl⟩ := enterNested_eq_ok.1 henter
  exact (hx hu).deeper

/-- What is composed of basic reads only moves the reader ahead. -/
theorem ComposedRead.advances {x : Read α} (h : ComposedRead x) : Advances id x := by
  induction h with
  | pure a => exact .pure a
  | throw e => exact .throw e
  | bind _ _ hx hf => exact hx.bind hf
  | readVarint64 => exact advances_readVarint64
  | readVarint32 => exact advances_readVarint32
  | readTag => exact advances_readTag
  | checkLastTag tag => exact advances_checkLastTag tag
  | readRaw n => exact advances_readRaw n
  | readFixed n => exact advances_readFixed n
  | oneDeeper _ hx => exact advances_oneDeeper hx
  | lookingAhead _ hx =>
    intro r a r' h
    rw [lookingAhead_ok hx h]
    exact .refl _
  | bytesLeft _ hx => exact fun r a r' h => hx _ h

theorem advances_readScalar (kind : Scalar) : Advances id (readScalar kind) :=
  (composed_readScalar kind).advances

theorem advances_readLength : Advances id readLength :=
  composed_readLength.advances

theorem advances_skipMessageWithin (fuel : Nat) : Advances id (skipMessageWithin fuel) :=
  (composed_skipMessageWithin fuel).advances

theorem advances_skipField (tag : UInt32) : Advances id (skipField tag) :=
  (composed_skipField tag).advances

theorem repeatedLength_ok {tag : UInt32} {n : Nat} (h : repeatedLength tag r = .ok n r') :
    r' = r := by
  rw [repeatedLength_eq] at h
  exact lookingAhead_ok (fun _ => (advances_skipField tag).bind fun _ =>
    (composed_countRecords tag _ _).advances) h

end ProtoWire
