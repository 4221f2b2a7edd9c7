import ProtoWire.Proofs.Message.Guarded

/-!
# Making room in advance

Merging again, but every time that room is made it is checked that this is for no more values than
there are bytes, and after a packed run that room was made for exactly its values. A check fails
with a fault of choice, so a merge that does the same for every fault fails none.
-/

namespace ProtoWire

/-! ### Definitions -/

/-- Fails unless a condition holds. -/
def Merge.insist {σ : Type} (fault : Fault) (p : Prop) [Decidable p] : Merge σ Unit :=
  if p then return else throw fault

/-- The number of values in a container, and its capacity. -/
def Slot.extent : Slot Message → Nat × Nat
  | scalars _ c => (c.values.length, c.capacity)
  | texts c => (c.values.length, c.capacity)
  | blobs c => (c.values.length, c.capacity)
  | subs c => (c.values.length, c.capacity)
  | scalar _ _ | text _ | blob _ | sub _ => (0, 0)

namespace Presized

/-- Room is made for no more values than there are bytes before the limit. A packed run appends as
many values as there was made room for, and leaves the capacity as it was then. -/
abbrev watch (fault : Fault) : Watch where
  reserve n := do
    Merge.insist fault (n ≤ (← Merge.read get).bytesLeft)
    Slot.reserve n
  packed n values := do
    let start := (← Merge.target).extent
    values
    Merge.insist fault ((← Merge.target).extent = (start.1 + n, start.2))

/-- Merges records up to the limit, or to an end-group tag, with every check. -/
def mergeMessage (fault : Fault) (S : Schema) (order : FieldOrder) (type : TypeId) :
    Merge Message Unit :=
  @ProtoWire.mergeMessage (watch fault) S order type

theorem composed_insist {σ : Type} {fault : Fault} {p : Prop} [Decidable p] :
    ComposedMerge (Merge.insist fault p : Merge σ Unit) := by
  unfold Merge.insist
  split
  · exact .pure _
  · exact .throw _

instance (fault : Fault) : @LawfulWatch (watch fault) :=
  let _ := watch fault
  { composed_reserve := fun n =>
      .look (x := fun _ left _ => do
        Merge.insist fault (n ≤ left)
        Slot.reserve n) fun _ _ _ => composed_insist.bind fun _ => Slot.composed_reserve n
    composed_packed := fun _ _ hx =>
      .bind .target fun _ => hx.bind fun _ => .bind .target fun _ => composed_insist }

variable (fault : Fault) {n : Nat} {s : Merging (Slot Message)}

theorem reserve_apply (h : n ≤ s.reader.bytesLeft) :
    (watch fault).reserve n s = Slot.reserve n s := by
  show (Merge.read get >>= _) s = _
  rw [bind_of_ok (Merge.read_of_ok get_apply), Merge.insist, if_pos h]
  rfl

theorem packed_apply {x y : Merge (Slot Message) Unit} (h : x s = y s)
    (hextent : ∀ t, y s = .ok () t →
      t.target.extent = (s.target.extent.1 + n, s.target.extent.2)) :
    (watch fault).packed n x s = y s := by
  show (Merge.target >>= _) s = _
  rw [bind_of_ok (Merge.target_apply _ _), bind_congr_left h]
  cases hy : y s with
  | error e t => rw [bind_of_error hy]
  | ok a t =>
    rw [bind_of_ok hy, bind_of_ok (Merge.target_apply _ _), Merge.insist, if_pos (hextent t hy)]
    rfl

end Presized

/-! ### Packed runs -/

section Packed

variable {S : Schema} {nested : Nested} {f : Field} {slot : Slot Message} {r : Reader}

theorem Repeated.capacity_add {α : Type} {size : Nat} {value : α} {c c' : Repeated α}
    (hroom : 0 < c.remainingCapacity) (h : Repeated.add size value c = .ok () c') :
    c'.capacity = c.capacity := by
  rw [Repeated.add_apply, if_neg (Nat.ne_of_gt hroom)] at h
  split at h <;> (cases h; rfl)

/-- By induction on the values: each was counted, and has room. -/
theorem Field.extent_readToLimit (hpack : f.element.category.isPackable = true)
    (hrep : f.isRepeated = true) (hslot : f.Holds slot)
    (hroom : f.packedCount r.bytesLeft r ≤ slot.remainingCapacity) {fuel : Nat}
    {t : Merging (Slot Message)} (h : f.readToLimit S nested fuel ⟨slot, r⟩ = .ok () t) :
    t.target.extent = (slot.extent.1 + f.packedCount r.bytesLeft r, slot.extent.2) := by
  induction fuel generalizing slot r with
  | zero => cases h
  | succ fuel ih =>
    obtain ⟨kind, c, rfl, hempty, hc, hholds⟩ := hslot.exists_scalars hpack hrep
    rw [Field.readToLimit, bind_of_ok (Merge.read_of_ok get_apply)] at h
    cases hend : r.atEnd with
    | true =>
      rw [if_pos hend] at h
      cases h
      rw [Field.packedCount_of_atEnd hend]
      rfl
    | false =>
      rw [if_neg (by simp [hend])] at h
      obtain ⟨_, u, helement, h⟩ := bind_eq_ok.1 h
      obtain ⟨_, _, ⟨⟩, helement⟩ := bind_eq_ok.1 helement
      obtain ⟨value, _, hvalue, hedit⟩ := bind_eq_ok.1 helement
      obtain ⟨r', hread, rfl⟩ := Merge.read_eq_ok.1 hvalue
      obtain ⟨c', hadd, rfl⟩ := Merge.edit_eq_ok.1 hedit
      have hcount : f.packedCount r.bytesLeft r = f.packedCount r'.bytesLeft r' + 1 :=
        Field.packedCount_readScalar hempty hread
      have hpos : 0 < c.remainingCapacity := by
        simp only [Slot.remainingCapacity] at hroom
        omega
      have hcapacity := Repeated.capacity_add hpos hadd
      have hlength : c'.values.length = c.values.length + 1 := by
        rw [Repeated.add_values hadd, List.length_append, List.length_singleton]
      have hkeeps : Keeps (Repeated.Sound kind.storageSize fun _ => True)
          (Repeated.add kind.storageSize value) := Repeated.keeps_add trivial
      have hsound := hkeeps c hc
      rw [hadd] at hsound
      have hroom' : f.packedCount r'.bytesLeft r' ≤ c'.remainingCapacity := by
        simp only [Slot.remainingCapacity, Repeated.remainingCapacity] at hroom ⊢
        omega
      rw [ih (hholds c' hsound) hroom' h, hcount]
      simp only [Slot.extent, hcapacity, hlength, Prod.mk.injEq, and_true]
      omega

end Packed

/-! ### Actions that do the same -/

/-- The actions do the same to every target with the property, and keep it. -/
structure Matches {σ α : Type} (P : σ → Prop) (x y : Merge σ α) : Prop where
  eq : ∀ s, P s.target → x s = y s
  keeps : KeepsTarget P y

section Matches

variable {σ τ α β : Type} {P : σ → Prop} {x y : Merge σ α}

theorem Matches.refl (h : KeepsTarget P x) : Matches P x x :=
  ⟨fun _ _ => rfl, h⟩

theorem Matches.read (x : Read α) : Matches P (Merge.read x : Merge σ α) (Merge.read x) :=
  .refl (keeps_read x)

theorem Matches.pure (a : α) : Matches P (Pure.pure a : Merge σ α) (Pure.pure a) :=
  .refl (.pure fun _ h => h)

theorem Matches.throw (e : Fault) :
    Matches P (MonadExcept.throw e : Merge σ α) (MonadExcept.throw e) :=
  .refl (.throw fun _ h => h)

theorem Matches.bind {f g : α → Merge σ β} (hx : Matches P x y) (hf : ∀ a, Matches P (f a) (g a)) :
    Matches P (x >>= f) (y >>= g) where
  eq s hs := by
    rw [bind_congr_left (hx.eq s hs)]
    refine bind_congr_ok fun a t ht => (hf a).eq t ?_
    have hkept := hx.keeps s hs
    rwa [ht] at hkept
  keeps := hx.keeps.bind fun a => (hf a).keeps

theorem matches_readMessage {x y : Merge σ Unit} (h : Matches P x y) :
    Matches P (readMessage x) (readMessage y) :=
  (Matches.read _).bind fun _ => (Matches.read _).bind fun _ => (Matches.read _).bind fun _ =>
    h.bind fun _ => (Matches.read _).bind fun _ => (Matches.read _).bind fun _ => .read _

theorem matches_readGroup {x y : Merge σ Unit} (h : Matches P x y) (number : UInt32) :
    Matches P (readGroup number x) (readGroup number y) :=
  (Matches.read _).bind fun _ => h.bind fun _ => (Matches.read _).bind fun _ => .read _

theorem Merge.within_congr {x y : Merge τ α} {part : τ} {r : Reader}
    (h : x ⟨part, r⟩ = y ⟨part, r⟩) (store : τ → σ → σ) (m : σ) :
    Merge.within part store x ⟨m, r⟩ = Merge.within part store y ⟨m, r⟩ := by
  unfold Merge.within
  rw [h]

end Matches

section Fields

variable {S : Schema} (hS : S.Valid) {nested nested' : Nested}
  (hnested : ∀ type, Matches (Message.Fits S type) (nested' type) (nested type)) {f : Field}
  {type : TypeId}

include hnested

theorem Field.matches_readNested (htype : f.element.type? = some type) :
    Matches (Message.Fits S type) (f.readNested nested') (f.readNested nested) := by
  obtain ⟨_, _, element, _⟩ := f
  unfold Field.readNested
  cases element with
  | message t =>
    cases htype
    exact matches_readMessage (hnested type)
  | group t =>
    cases htype
    exact matches_readGroup (hnested type) _
  | scalar | enum | text | blob => cases htype

include hS

theorem Field.readSingular_congr {s : Merging (Slot Message)} (hs : f.FitsIn S s.target) :
    f.readSingular S nested' s = f.readSingular S nested s := by
  obtain ⟨_, r⟩ := s
  cases hs.shape with
  | sub _ htype hvalue =>
    refine bind_congr_ok fun _ _ hs => ?_
    cases hs
    exact Merge.within_congr ((f.matches_readNested hnested htype).eq ⟨_, r⟩
      (Element.fits_getD hS htype hvalue)) _ _
  | scalar | text | blob | scalars | texts | blobs | subs =>
    refine bind_congr_ok fun _ _ hs => ?_
    cases hs
    rfl

theorem Field.matches_readElement :
    Matches (f.FitsIn S) (f.readElement S nested') (f.readElement S nested) where
  eq := by
    rintro ⟨slot, r⟩ hslot
    cases hslot.shape with
    | @subs type c _ htype hc _ =>
      have hblank := Element.fits_blank hS htype
      refine bind_congr_ok fun _ _ hs => ?_
      cases hs
      refine bind_congr_ok fun _ t ht => ?_
      obtain ⟨c', hpush, rfl⟩ := Merge.edit_eq_ok.1 ht
      have hsound := Repeated.keeps_pushRecycled hblank
        (fun _ => Element.fits_clearMessage hS htype) c hc
      rw [hpush] at hsound
      refine bind_congr_ok fun _ _ hs => ?_
      cases hs
      exact Merge.within_congr ((f.matches_readNested hnested htype).eq ⟨_, r⟩
        (hsound.getLast hblank)) _ _
    | scalar | text | blob | sub | scalars | texts | blobs =>
      refine bind_congr_ok fun _ _ hs => ?_
      cases hs
      rfl
  keeps := f.keeps_readElement hS fun t => (hnested t).keeps

theorem Field.matches_readToLimit (fuel : Nat) :
    Matches (f.FitsIn S) (f.readToLimit S nested' fuel) (f.readToLimit S nested fuel) := by
  induction fuel with
  | zero => exact .throw _
  | succ fuel ih =>
    refine (Matches.read _).bind fun r => ?_
    split
    · exact .pure _
    · exact (f.matches_readElement hS hnested).bind fun _ => ih

variable (fault : Fault)

/-- Looking ahead counts no more records than there are bytes. -/
theorem Field.matches_readRecord {tag : UInt32} (htype : Tag.wireType tag ≠ .ok .endGroup) :
    Matches (f.FitsIn S) (@Field.readRecord (Presized.watch fault) S nested' f tag)
      (f.readRecord S nested tag) := by
  have hroom : Matches (f.FitsIn S)
      (do (Presized.watch fault).reserve (← Merge.read (repeatedLength tag)))
      (do Watch.reserve (← Merge.read (repeatedLength tag))) := by
    refine ⟨fun s _ => bind_congr_ok fun n t ht => ?_, (keeps_read _).bind keeps_reserve⟩
    obtain ⟨r, hr, rfl⟩ := Merge.read_eq_ok.1 ht
    obtain rfl := repeatedLength_ok hr
    exact Presized.reserve_apply fault (repeatedLength_le_bytesLeft htype hr)
  have helement := f.matches_readElement hS hnested
  refine Matches.bind (.refl fun _ h => h) fun slot => ?_
  split
  · simpa only [bind_assoc] using hroom.bind fun _ => helement
  · exact helement

/-- Room is made for as many values as a packed run has. -/
theorem Field.matches_readPacked (hpack : f.element.category.isPackable = true)
    (hrep : f.isRepeated = true) :
    Matches (f.FitsIn S) (@Field.readPacked (Presized.watch fault) S nested' f)
      (f.readPacked S nested) where
  eq := by
    rintro ⟨slot, r⟩ hslot
    obtain ⟨kind, c, rfl, -⟩ := hslot.holds.exists_scalars hpack hrep
    refine bind_congr_ok fun length _ hread => bind_congr_ok fun limit _ hlimit => ?_
    obtain ⟨r₁, -, rfl⟩ := Merge.read_eq_ok.1 hread
    obtain ⟨r₂, hpush, rfl⟩ := Merge.read_eq_ok.1 hlimit
    obtain rfl : r₂.bytesLeft = length := by
      obtain ⟨-, -, rfl⟩ := pushLimit_eq_ok.1 hpush
      exact Nat.add_sub_cancel_left ..
    refine bind_congr_ok fun _ _ hget => ?_
    cases hget
    rw [bind_congr_left (Presized.reserve_apply fault (f.packedCount_le r₂))]
    refine bind_congr_ok fun _ t ht => ?_
    have hfits := keeps_reserve (f.packedCount r₂.bytesLeft r₂) ⟨.scalars kind c, r₂⟩ hslot
    rw [ht] at hfits
    obtain ⟨_, _, ⟨⟩, hedit⟩ := bind_eq_ok.1 ht
    obtain ⟨d, hreserve, rfl⟩ := Merge.edit_eq_ok.1 hedit
    have hroom := (Repeated.reserve_spec hreserve).2.2
    exact bind_congr_left (Presized.packed_apply fault ((f.matches_readToLimit hS hnested _).eq _ hfits)
      fun u => f.extent_readToLimit hpack hrep hfits.holds hroom)
  keeps := f.keeps_readPacked hS fun t => (hnested t).keeps

end Fields

/-! ### Records -/

section Records

variable {S : Schema} (hS : S.Valid) {nested nested' : Nested}
  (hnested : ∀ type, Matches (Message.Fits S type) (nested' type) (nested type)) {type : TypeId}
  {p : PlacedField}

theorem atSlot_congr {α : Type} {f : Field} {i : Nat} (hf : (S.layout type).fields[i]? = some f)
    {x y : Merge (Slot Message) α} (h : ∀ s, f.FitsIn S s.target → x s = y s)
    {s : Merging Message} (hs : s.target.Fits S type) : atSlot i x s = atSlot i y s := by
  obtain ⟨slot, hslot⟩ := hs.exists_slot hf
  rw [atSlot_apply hslot, atSlot_apply hslot]
  exact Merge.within_congr (h ⟨slot, s.reader⟩ (hs.atSlot hf hslot)) _ _

theorem matches_atSlot {α : Type} (hp : (S.layout type).fields[p.2]? = some p.1)
    (hrep : p.1.isRepeated = true) {x y : Merge (Slot Message) α}
    (h : Matches (p.1.FitsIn S) x y) :
    Matches (Message.Fits S type) (atSlot p.2 x) (atSlot p.2 y) :=
  ⟨fun _ => atSlot_congr hp h.eq, keeps_atSlot hp hrep h.keeps⟩

include hS hnested

theorem PlacedField.matches_decodeSingular (hp : (S.layout type).fields[p.2]? = some p.1)
    (hrep : p.1.isRepeated = false) :
    Matches (Message.Fits S type) (p.decodeSingular S nested' (S.layout type))
      (p.decodeSingular S nested (S.layout type)) where
  eq := by
    intro s hs
    have hstored : (do
        Merge.update (Message.prepare S (S.layout type) p.1)
        atSlot p.2 (p.1.readSingular S nested')
        Merge.update (Message.markPresent p.1)) s = (do
        Merge.update (Message.prepare S (S.layout type) p.1)
        atSlot p.2 (p.1.readSingular S nested)
        Merge.update (Message.markPresent p.1)) s := by
      refine bind_congr_ok fun _ t ht => bind_congr_left ?_
      cases ht
      exact atSlot_congr hp (fun s => p.1.readSingular_congr hS hnested) (hs.prepare hS p.1)
    unfold PlacedField.decodeSingular
    cases p.1.element with
    | scalar | text | blob | message | group => exact hstored
    | enum declared default =>
      cases default with
      | some value => exact hstored
      | none => rfl
  keeps := p.keeps_decodeSingular hS (fun t => (hnested t).keeps) hp hrep

theorem matches_mergePayload (fault : Fault) (tag : UInt32) :
    Matches (Message.Fits S type)
      (@mergePayload (Presized.watch fault) S nested' (S.layout type) tag)
      (mergePayload S nested (S.layout type) tag) := by
  unfold mergePayload
  cases hroute : (S.layout type).route tag with
  | none =>
    simp only
    split
    · exact .pure _
    · exact .read _
  | some target =>
    obtain ⟨p, form⟩ := target
    have hp := (Layout.route_eq_some hroute).1
    have hrep := Layout.isRepeated_of_route hroute
    cases form with
    | value => exact (p.matches_decodeSingular hS hnested hp hrep).bind fun _ => .pure _
    | element =>
      exact (matches_atSlot hp hrep (p.1.matches_readRecord hS hnested fault
        (Layout.wireType_ne_of_route hroute))).bind fun _ => .pure _
    | run =>
      exact (matches_atSlot hp hrep (p.1.matches_readPacked hS hnested fault
        ((hS type).isPackable_of_route hroute) hrep)).bind fun _ => .pure _

/-- By induction on the records. -/
theorem matches_mergeRecords (fault : Fault) (fuel : Nat) (tag : UInt32) :
    Matches (Message.Fits S type)
      (@mergeRecords (Presized.watch fault) S nested' (S.layout type) fuel tag)
      (mergeRecords S nested (S.layout type) fuel tag) := by
  induction fuel generalizing tag with
  | zero => exact .throw _
  | succ fuel ih =>
    refine (matches_mergePayload hS hnested fault tag).bind fun more => ?_
    split
    · exact (Matches.read _).bind ih
    · exact .pure _

end Records

/-! ### Messages -/

section Messages

variable {S : Schema} (hS : S.Valid) (fault : Fault) (order : FieldOrder)

include hS

/-- By induction on the fuel: what is nested has less of it. -/
theorem matches_mergeWithin (fuel : Nat) (type : TypeId) :
    Matches (Message.Fits S type) (@mergeWithin (Presized.watch fault) S order fuel type)
      (mergeWithin S order fuel type) := by
  have hrouted : ∀ type, (S.layout type).Routed := fun type => (hS type).routed
  induction fuel generalizing type with
  | zero => exact .throw _
  | succ fuel ih =>
    have hwatched := fun type => @composed_mergeWithin (Presized.watch fault) _ S hrouted order fuel
      type
    unfold mergeWithin
    rw [mergeFields_eq (composed_mergeWithin hrouted order fuel) (hrouted type),
      @mergeFields_eq (Presized.watch fault) _ _ hwatched _ (hrouted type) _ order]
    refine (Matches.read _).bind fun tag => ⟨fun s => ?_, fun s => ?_⟩
    · exact (matches_mergeRecords hS ih fault _ tag).eq s
    · exact (matches_mergeRecords hS ih fault _ tag).keeps s

theorem matches_mergeMessage (type : TypeId) :
    Matches (Message.Fits S type) (Presized.mergeMessage fault S order type)
      (mergeMessage S order type) :=
  (Matches.read _).bind fun _ => matches_mergeWithin hS fault order _ type

end Messages

/-- Whatever is merged into a message of the conformance schema, room is never made for more values
than there are bytes before the limit, and a packed run that is read appends as many values as room
was made for, without the container growing: with all this checked, merging does the same. This is
about repeated fields. Bytes are a plain list here, without capacity: a value is replaced as a
whole, and making room for its bytes is not part of merging. -/
theorem room_made_in_advance (fault : Fault) (V : Conformance.Variant) (type : TypeId)
    (s : Merging Message) (hs : s.target.Fits Conformance.schema type) :
    Presized.mergeMessage fault Conformance.schema V.order type s =
      mergeMessage Conformance.schema V.order type s :=
  (matches_mergeMessage Conformance.valid fault V.order type).eq s hs

/-- A packed run of three values, into a message without any. -/
theorem room_made_in_advance_packed :
    ∃ t, Presized.mergeMessage .capacityOverflow Conformance.schema .declaration Conformance.Packed
        ⟨Conformance.schema.blank Conformance.Packed, .ofBytes [0x0a, 4, 1, 0x80, 1, 2]⟩ =
      .ok () t ∧ t.target.slots[0]?.map Slot.extent = some (3, 3) := by
  obtain ⟨t, hrun, hextent⟩ : ∃ t, mergeMessage Conformance.schema .declaration Conformance.Packed
        ⟨Conformance.schema.blank Conformance.Packed, .ofBytes [0x0a, 4, 1, 0x80, 1, 2]⟩ =
      .ok () t ∧ t.target.slots[0]?.map Slot.extent = some (3, 3) := ⟨_, by cbv, by cbv⟩
  exact ⟨t, (room_made_in_advance .capacityOverflow .declaration Conformance.Packed _
    (.blank (Conformance.valid _))).trans hrun, hextent⟩

end ProtoWire
