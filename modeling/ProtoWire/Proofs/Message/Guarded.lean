import ProtoWire.Proofs.Message.Checked

/-!
# Merging is guarded

* `Field.guarded_readElement`, `Field.guarded_readPacked`, …: reading values is guarded, into slots
  with room.
* `guarded_mergePayload`, `guarded_mergeRecords`: so are records.
-/

namespace ProtoWire

variable {k fuel : Nat} {type : TypeId} {S : Schema} {f : Field} {r r' : Reader} {tag : UInt32}
  {slot : Slot Message}

/-- The slot has room for `k` values more than there are unread bytes. -/
def Slot.Spare (k unread : Nat) (slot : Slot Message) : Prop :=
  k + unread ≤ slot.room

/-- The containers of a message have room for `k` values more than there are unread bytes. -/
def Message.Spare (S : Schema) (type : TypeId) (k unread : Nat) (m : Message) : Prop :=
  m.Roomy S (k + unread) type

theorem lasting_slot : Lasting (Slot.Spare k) :=
  fun _ _ _ hle h => Nat.le_trans (Nat.add_le_add_left hle k) h

theorem lasting_message : Lasting (Message.Spare S type k) :=
  fun _ _ _ hle h => Message.Roomy.mono h (Nat.add_le_add_left hle k)

section Spare

variable {unread : Nat} {m : Message}

theorem Message.Spare.prepare (hm : m.Fits S type) (hcap : k + unread ≤ leastCapacity)
    (h : Message.Spare S type k unread m) (f : Field) :
    Message.Spare S type k unread (m.prepare S (S.layout type) f) :=
  Message.Roomy.prepare hcap h hm f

theorem Message.Spare.markPresent (h : Message.Spare S type k unread m) :
    Message.Spare S type k unread (m.markPresent f) :=
  Message.Roomy.congr h Message.slots_markPresent

end Spare

/-- Merging into messages that fit is guarded, with less than `n` bytes left and room for as many
values as there are bytes. So many values more have room afterwards as before. -/
def GuardedNested (S : Schema) (n : Nat) (nested : Nested) (nested' : CheckedNested) : Prop :=
  ∀ (k : Nat) (type : TypeId) (s : Merging Message), s.reader.Bounded → s.reader.bytesLeft < n →
    s.target.Fits S type → k + s.reader.unread ≤ leastCapacity →
    Message.Spare S type k s.reader.unread s.target →
    GuardedMerge (Message.Spare S type k) (nested type) (nested' type) s

/-! ### Making room -/

theorem Field.packedCount_le (f : Field) (r : Reader) :
    f.packedCount r.bytesLeft r ≤ r.bytesLeft := by
  have hcount : r.countPackedVarints ≤ r.bytesLeft :=
    Nat.le_trans List.countP_le_length r.length_remaining_le
  unfold Field.packedCount
  split
  · split
    · exact Nat.div_le_self _ _
    · exact hcount
  · exact hcount

theorem Reader.Bounded.bytesLeft_le_unread (h : r.Bounded) : r.bytesLeft ≤ r.unread :=
  Nat.sub_le_sub_right h.limit_le _

theorem Field.FitsIn.exists_reserve (h : f.FitsIn S slot) (hrep : f.isRepeated = true) {count : Nat}
    (hcount : count ≤ slot.room) (r : Reader) :
    ∃ slot', Slot.reserve count ⟨slot, r⟩ = .ok () ⟨slot', r⟩ ∧ slot'.room = slot.room ∧
      f.FitsIn S slot' := by
  obtain ⟨slot', hreserve, hview, hfits⟩ | ⟨hlt, -⟩ := reserve_slot h hrep count r
  · exact ⟨slot', hreserve, by rw [← room_viewSlot hfits, hview, room_viewSlot h], hfits⟩
  · exact absurd hcount (Nat.not_le_of_lt hlt)

/-! ### Values -/

variable (hS : S.Valid) {n : Nat} {nested : Nested} {nested' : CheckedNested}
  (hnested : GuardedNested S n nested nested')
  (hkeeps : ∀ type, KeepsTarget (Message.Fits S type) (nested type))

section Values

include hnested in
theorem Field.guarded_readNested (htype : f.element.type? = some type) {s : Merging Message}
    (hr : s.reader.Bounded) (hleft : s.reader.bytesLeft < n) (hm : s.target.Fits S type)
    (hcap : k + s.reader.unread ≤ leastCapacity)
    (hspare : Message.Spare S type k s.reader.unread s.target) :
    GuardedMerge (Message.Spare S type k) (f.readNested nested)
      (Checked.readNested nested' f) s := by
  -- Inside, there is no more to read than before.
  have hcontents : ∀ r, s.reader.Falls r →
      GuardedMerge (Message.Spare S type k) (nested type) (nested' type)
        ⟨s.target, r⟩ := by
    intro r hfalls
    have hunread := hfalls.unread_le
    exact hnested k type ⟨s.target, r⟩ hfalls.bounded (Nat.lt_of_le_of_lt hfalls.bytesLeft_le hleft)
      hm (by simp only; omega) (lasting_message hunread hspare)
  obtain ⟨_, number, element, _⟩ := f
  unfold Field.readNested Checked.readNested
  cases element with
  | message t =>
    cases htype
    exact guarded_readMessage lasting_message hr hspare hcontents
  | group t =>
    cases htype
    exact guarded_readGroup lasting_message hr hspare hcontents number
  | scalar | enum | text | blob => cases htype

/-- A scalar is read and appended where there is room for it. -/
theorem guarded_addScalar {kind : Scalar} {c : Repeated kind.Value} {P : kind.Value → Prop}
    (hc : c.Sound kind.storageSize P) (hr : r.Bounded)
    (hspare : Slot.Spare k r.unread (.scalars kind c))
    (hmore : ∀ value r', readScalar kind r = .ok value r' →
      Slot.Spare (k + 1) r'.unread (.scalars kind c)) :
    GuardedMerge (Slot.Spare k)
      (do
        let value ← Merge.read (readScalar kind)
        Merge.edit c (fun c _ => .scalars kind c) (Repeated.add kind.storageSize value))
      (do
        let value ← Checked.read (Checked.take (readScalar kind))
        Checked.lift
          (Merge.edit c (fun c _ => .scalars kind c) (Repeated.add kind.storageSize value)))
      ⟨.scalars kind c, r⟩ := by
  refine .bind hr (guarded_read lasting_slot hr hspare (guarded_take hr (proceeds_readScalar kind)))
    fun value t ht _ _ => ?_
  obtain ⟨r', hread, rfl⟩ := Merge.read_eq_ok.1 ht
  have hmore := hmore value r' hread
  simp only [Slot.Spare, Slot.room] at hmore
  obtain ⟨c', hadd⟩ : ∃ c', Repeated.add kind.storageSize value c = .ok () c' :=
    (Repeated.add_ok hc).2 (by omega)
  refine guarded_of_ok (a := ()) (m := .scalars kind c') (by rw [Merge.edit, hadd]) ?_
  simp only [Slot.Spare, Slot.room, Repeated.add_values hadd, List.length_append,
    List.length_singleton]
  omega

/-- An element is appended where there is room for it, and read in place. -/
theorem guarded_push {α : Type} {size : Nat} {P : α → Prop} {store : Repeated α → Slot Message}
    (hstore : ∀ c, (store c).room = Repeated.maxCapacity size - c.values.length) {c : Repeated α}
    (hc : c.Sound size P) {default : α} {reset : α → α} {x : Merge α Unit} {y : CheckedMerge α Unit}
    (hr : r.Bounded) (hx : ∀ a, (a = default ∨ ∃ element ∈ c.retained, a = reset element) →
      GuardedMerge (fun _ _ => True) x y ⟨a, r⟩) {after : Slot Message → Merge (Slot Message) Unit}
    {after' : Slot Message → CheckedMerge (Slot Message) Unit}
    (hafter : ∀ c, after (store c) = Slot.atLast default store c x)
    (hafter' : ∀ c, after' (store c) = Slot.atLast default store c y)
    (hspare : (store c).Spare (k + 1) r.unread) :
    GuardedMerge (Slot.Spare k)
      (do
        Merge.edit c (fun c _ => store c) (Repeated.pushRecycled size default reset)
        after (← Merge.target))
      (do
        Checked.lift
          (Merge.edit c (fun c _ => store c) (Repeated.pushRecycled size default reset))
        after' (← Checked.lift Merge.target))
      ⟨store c, r⟩ := by
  rw [Slot.Spare, hstore] at hspare
  obtain ⟨c', hpush⟩ : ∃ c', Repeated.pushRecycled size default reset c = .ok () c' :=
    (Repeated.pushRecycled_ok hc).2 (by omega)
  obtain ⟨a, hvalues, ha⟩ := Repeated.pushRecycled_values hpush
  have hlength : c'.values.length = c.values.length + 1 := by simp [hvalues]
  have hedit : Merge.edit c (fun c _ => store c) (Repeated.pushRecycled size default reset)
      ⟨store c, r⟩ = .ok () ⟨store c', r⟩ := by
    rw [Merge.edit, hpush]
  have hpushed : (store c').Spare k r.unread := by
    rw [Slot.Spare, hstore, hlength]
    omega
  refine .bind hr (guarded_of_ok hedit hpushed) fun _ t ht _ _ => ?_
  cases hedit.symm.trans ht
  refine .bind hr (guarded_target hpushed) fun slot t ht _ _ => ?_
  cases ht
  rw [hafter, hafter']
  have hlast : c'.values.getLast?.getD default = a := by simp [hvalues]
  refine GuardedMerge.within hr (hlast ▸ hx a ha) fun t hfalls _ => ?_
  have hunread : t.reader.unread ≤ r.unread := hfalls.unread_le
  refine lasting_slot hunread ?_
  rw [Slot.Spare, hstore] at hpushed ⊢
  rwa [Repeated.modifyLast, List.length_modify]

end Values

section Slots

variable {s : Merging (Slot Message)} (hr : s.reader.Bounded) (hleft : s.reader.bytesLeft < n)
  (hfits : f.FitsIn S s.target)

include hS hnested hr hleft hfits

include hkeeps in
theorem Field.guarded_readSingular (hcap : k + s.reader.unread ≤ leastCapacity)
    (hspare : f.Roomy S (k + s.reader.unread) s.target) :
    GuardedMerge (fun a slot => f.Roomy S (k + a) slot) (f.readSingular S nested)
      (Checked.readSingular S nested' f) s := by
  have hlasting : Lasting fun a slot => f.Roomy S (k + a) slot :=
    fun _ _ _ hle h => h.mono (Nat.add_le_add_left hle k)
  obtain ⟨slot, r⟩ := s
  refine .bind hr (guarded_target hspare) fun slot t ht _ _ => ?_
  cases ht
  -- A slot without a message has no room to keep.
  have hleaf : ∀ {a slot}, f.isRepeated = false → f.Holds slot → (∀ m, slot ≠ .sub (some m)) →
      f.Roomy S a slot := fun hrep hholds hsub =>
    ⟨hholds, fun h => (nomatch hrep.symm.trans h), fun _ m _ hm => absurd hm (hsub m)⟩
  cases hfits.shape with
  | scalars | texts | blobs | subs => exact .pure hspare
  | @scalar kind value singular store =>
    exact .bind hr (guarded_read hlasting hr hspare (guarded_take hr (proceeds_readScalar kind)))
      fun value t _ _ _ => guarded_update (hleaf singular (store value).holds nofun)
  | text singular store =>
    exact .within hr (guarded_readTextInto hr) fun t _ _ =>
      hleaf singular (store t.target).holds nofun
  | blob singular store =>
    exact .within hr (guarded_readBlobInto hr) fun t _ _ =>
      hleaf singular (store t.target).holds nofun
  | @sub type value singular htype hvalue store =>
    have hm : (value.getD (f.element.blank S)).Fits S type :=
      Element.fits_getD hS htype hvalue
    have hroomy : Message.Spare S type k r.unread (value.getD (f.element.blank S)) := by
      rw [Element.blank_eq htype]
      cases value with
      | none => exact .blank hcap
      | some m => exact hspare.inner type m htype rfl
    have hread := (f.guarded_readNested hnested htype (s := ⟨_, r⟩) hr hleft hm hcap hroomy).keeping
      (f.keeps_readNested hkeeps htype) hm
    refine .within hr hread fun t _ ht =>
      ⟨(store (some t.target) ?_).holds, fun h => ?_, fun t' m ht' hm => ?_⟩
    · rintro _ ⟨⟩
      exact ht.2
    · exact nomatch singular.symm.trans h
    · cases hm
      cases htype.symm.trans ht'
      exact ht.1

/-- A value is read and appended where there is room for it. -/
theorem Field.guarded_readElement (hcap : s.reader.unread ≤ leastCapacity)
    (hspare : s.target.Spare (k + 1) s.reader.unread) :
    GuardedMerge (Slot.Spare k) (f.readElement S nested) (Checked.readElement S nested' f) s := by
  have hspare' : s.target.Spare k s.reader.unread :=
    Nat.le_trans (Nat.add_le_add_right (Nat.le_succ k) _) hspare
  obtain ⟨slot, r⟩ := s
  refine .bind hr (guarded_target hspare') fun slot t ht _ _ => ?_
  cases ht
  cases hfits.shape with
  | scalar | text | blob | sub => exact .pure hspare'
  | scalars _ hc =>
    refine guarded_addScalar hc hr hspare' fun value r' hread => ?_
    exact lasting_slot ((advances_readScalar _ hread).falls hr).unread_le hspare
  | texts _ hc =>
    refine guarded_push (fun _ => rfl) hc hr (fun a _ => guarded_readTextInto hr) ?_ ?_ hspare
    · exact fun _ => rfl
    · exact fun _ => rfl
  | blobs _ hc =>
    refine guarded_push (fun _ => rfl) hc hr (fun a _ => guarded_readBlobInto hr) ?_ ?_ hspare
    · exact fun _ => rfl
    · exact fun _ => rfl
  | @subs type c _ htype hc =>
    refine guarded_push (x := f.readNested nested) (y := Checked.readNested nested' f)
      (fun _ => rfl) hc hr (fun a ha => ?_) ?_ ?_ hspare
    · have hcap : 0 + r.unread ≤ leastCapacity := (Nat.zero_add _).symm ▸ hcap
      have hread : a.Fits S type ∧ Message.Spare S type 0 r.unread a := by
        rcases ha with rfl | ⟨element, helement, rfl⟩
        · rw [Element.blank_eq htype]
          exact ⟨.blank (hS type), .blank hcap⟩
        · have helement := hc.retained element helement
          rw [Element.clearMessage_eq htype]
          exact ⟨helement.clear hS, helement.roomy_clear hcap⟩
      exact (f.guarded_readNested hnested htype (s := ⟨a, r⟩) hr hleft hread.1 hcap hread.2).mono
        fun _ _ => trivial
    · exact fun _ => rfl
    · exact fun _ => rfl

/-- A container without room first makes room for the records ahead. -/
theorem Field.guarded_readRecord (hrep : f.isRepeated = true)
    (hcap : s.reader.unread ≤ leastCapacity)
    (hspare : s.target.Spare (k + 1) s.reader.unread)
    (htype : Tag.wireType tag ≠ .ok .endGroup) :
    GuardedMerge (Slot.Spare k) (f.readRecord S nested tag) (Checked.readRecord S nested' f tag)
      s := by
  have hspare' : s.target.Spare k s.reader.unread :=
    Nat.le_trans (Nat.add_le_add_right (Nat.le_succ k) _) hspare
  refine .bind hr (guarded_target hspare') fun slot t ht _ _ => ?_
  cases ht
  split
  · refine .bind hr (guarded_read lasting_slot hr hspare' (guarded_repeatedLength hr tag))
      fun count t ht _ _ => ?_
    obtain ⟨r, hcount, rfl⟩ := Merge.read_eq_ok.1 ht
    -- Looking ahead came back, and counted no more records than there are bytes.
    cases repeatedLength_ok hcount
    have hle : count ≤ s.target.room := by
      have hcount := repeatedLength_le_bytesLeft htype hcount
      have hunread := hr.bytesLeft_le_unread
      unfold Slot.Spare at hspare
      omega
    obtain ⟨slot, hreserve, hroom, hfits'⟩ := hfits.exists_reserve hrep hle s.reader
    have hspared : ∀ {k}, s.target.Spare k s.reader.unread → slot.Spare k s.reader.unread :=
      fun h => by rwa [Slot.Spare, hroom]
    refine .bind hr (guarded_of_ok hreserve (hspared hspare')) fun _ t ht _ _ => ?_
    cases hreserve.symm.trans ht
    exact f.guarded_readElement hS hnested hr hleft hfits' hcap (hspared hspare)
  · exact f.guarded_readElement hS hnested hr hleft hfits hcap hspare

end Slots

/-! ### Packed runs -/

section Runs

variable (hpack : f.element.category.isPackable = true) (hrep : f.isRepeated = true)
  {s : Merging (Slot Message)} (hr : s.reader.Bounded)

include hpack hrep

theorem Field.Holds.exists_scalars (h : f.Holds slot) :
    ∃ (kind : Scalar) (c : Repeated kind.Value), slot = .scalars kind c ∧
      f.element.emptySlot = .scalars kind .empty ∧ c.Sound kind.storageSize (fun _ => True) ∧
      ∀ d : Repeated kind.Value, d.Sound kind.storageSize (fun _ => True) →
        f.Holds (.scalars kind d) := by
  have hcollects := h.collects hrep
  cases f
  cases hcollects with
  | scalar sound => exact ⟨_, _, rfl, rfl, sound, fun _ h => Field.holds_of_collects hrep (.scalar h)⟩
  | enum sound =>
    exact ⟨.int32, _, rfl, rfl, sound, fun _ h => Field.holds_of_collects hrep (.enum h)⟩
  | text | blob | message | group => cases hpack

include hr in
/-- A value of a run is read where there is room for as many as there are bytes, and takes one. -/
theorem Field.guarded_readPackedElement (hholds : f.Holds s.target)
    (hspare : s.target.Spare k s.reader.unread) :
    GuardedMerge (Slot.Spare k) (f.readElement S nested) (Checked.readElement S nested' f) s ∧
      ∀ t, f.readElement S nested s = .ok () t → t.reader.bytesLeft < s.reader.bytesLeft := by
  obtain ⟨slot, r⟩ := s
  obtain ⟨kind, c, rfl, -, hc, -⟩ := hholds.exists_scalars hpack hrep
  have hread : ∀ {value r'}, readScalar kind r = .ok value r' →
      r'.unread + 1 ≤ r.unread ∧ r'.bytesLeft < r.bytesLeft := by
    intro value r' h
    have hlt := pos_lt_of_readScalar h
    have hahead : r.Ahead r' := advances_readScalar kind h
    have hpos : r'.pos ≤ r.limit := hahead.le_limit hr.pos_le
    have hlimit : r.limit ≤ r.data.length := hr.limit_le
    simp only [Reader.unread, Reader.bytesLeft, hahead.data_eq, hahead.limit_eq]
    omega
  constructor
  · refine .bind hr (guarded_target hspare) fun slot t ht _ _ => ?_
    cases ht
    refine guarded_addScalar hc hr hspare fun value r' h => ?_
    have hless := (hread h).1
    refine Nat.le_trans ?_ hspare
    simp only
    omega
  · intro t h
    obtain ⟨slot, _, ⟨⟩, h⟩ := bind_eq_ok.1 h
    obtain ⟨value, u, hu, h⟩ := bind_eq_ok.1 h
    obtain ⟨r', hr', rfl⟩ := Merge.read_eq_ok.1 hu
    obtain ⟨c', -, rfl⟩ := Merge.edit_eq_ok.1 h
    exact (hread hr').2

include hS hkeeps hr

/-- By induction on the fuel, of which each value takes one. -/
theorem Field.guarded_readToLimit (hfuel : s.reader.bytesLeft < fuel) (hfits : f.FitsIn S s.target)
    (hspare : s.target.Spare k s.reader.unread) :
    GuardedMerge (Slot.Spare k) (f.readToLimit S nested fuel)
      (Checked.readToLimit S nested' f fuel) s := by
  induction fuel generalizing s with
  | zero => exact absurd hfuel (Nat.not_lt_zero _)
  | succ fuel ih =>
    refine .bind hr (guarded_read lasting_slot hr hspare (y := get) ⟨rfl, .refl _, trivial⟩)
      fun r t ht _ _ => ?_
    cases ht
    split
    · exact .pure hspare
    · obtain ⟨helement, hless⟩ : GuardedMerge (Slot.Spare k) (f.readElement S nested)
          (Checked.readElement S nested' f) s ∧ _ :=
        f.guarded_readPackedElement hpack hrep hr hfits.holds hspare
      refine .bind hr helement fun _ t ht hfalls hspare' => ih hfalls.bounded ?_ ?_ hspare'
      · have hlt := hless t ht
        omega
      · have hkept := f.keeps_readElement hS hkeeps s hfits
        rwa [ht] at hkept

variable (nested') in
/-- The values of a run are counted first, and room is made for them. -/
theorem Field.guarded_readRun {length : Nat} (hlength : s.reader.bytesLeft = length)
    (hfits : f.FitsIn S s.target)
    (hspare : s.target.Spare k s.reader.unread) :
    GuardedMerge (Slot.Spare k)
      (do
        let r ← Merge.read get
        Watch.reserve (f.packedCount length r)
        Watch.packed (f.packedCount length r) (f.readToLimit S nested (r.bytesLeft + 1)))
      (do
        let r ← Checked.read (Checked.take get)
        Checked.lift (Slot.reserve (f.packedCount length r))
        Checked.readToLimit S nested' f (r.bytesLeft + 1)) s := by
  refine .bind hr (guarded_read lasting_slot hr hspare (guarded_take hr proceeds_get))
    fun r t ht _ _ => ?_
  cases ht
  have hcount : f.packedCount length s.reader ≤ s.target.room := by
    have hcount := f.packedCount_le s.reader
    have hunread := hr.bytesLeft_le_unread
    unfold Slot.Spare at hspare
    rw [hlength] at hcount hunread
    omega
  obtain ⟨slot, hreserve, hroom, hfits'⟩ := hfits.exists_reserve hrep hcount s.reader
  have hspare' : slot.Spare k s.reader.unread := by
    rwa [Slot.Spare, hroom]
  refine .bind hr (guarded_of_ok hreserve hspare') fun _ t ht _ _ => ?_
  cases hreserve.symm.trans ht
  exact f.guarded_readToLimit hS hkeeps hpack hrep (s := ⟨slot, s.reader⟩) hr
    (Nat.lt_succ_self _) hfits' hspare'

/-- A packed run is read where there is room for as many values as there are bytes. -/
theorem Field.guarded_readPacked (hfits : f.FitsIn S s.target)
    (hspare : s.target.Spare k s.reader.unread) :
    GuardedMerge (Slot.Spare k) (f.readPacked S nested) (Checked.readPacked S nested' f) s := by
  refine .bind hr (guarded_read lasting_slot hr hspare (guarded_take hr proceeds_readLength))
    fun length t ht hfalls hspare => ?_
  obtain ⟨r, hlength, rfl⟩ := Merge.read_eq_ok.1 ht
  have hread := guarded_narrower (s := ⟨s.target, r⟩) hfalls.bounded hspare fun hle => by
    have hbounded : Reader.Bounded { r with limit := r.pos + length } :=
      ⟨Nat.le_add_right _ _, Nat.le_trans hle hfalls.bounded.limit_le⟩
    exact f.guarded_readRun hS nested' hkeeps hpack hrep hbounded (Nat.add_sub_cancel_left _ _)
      hfits hspare
  simpa only [bind_assoc] using hread

end Runs

/-! ### Records -/

/-- A tag takes one of the unread bytes at least. -/
theorem unread_readTag (hr : r.Bounded) (h : readTag r = .ok tag r') (htag : tag ≠ 0) :
    r'.unread + 1 ≤ r.unread := by
  have hlt := bytesLeft_readTag h htag
  have hahead : r.Ahead r' := advances_readTag h
  have hpos : r'.pos ≤ r.limit := hahead.le_limit hr.pos_le
  have hlimit := hr.limit_le
  simp only [Reader.bytesLeft, Reader.unread, hahead.data_eq, hahead.limit_eq] at hlt ⊢
  omega

section Records

variable {s : Merging Message} (hr : s.reader.Bounded) (hm : s.target.Fits S type)
  (hcap : k + s.reader.unread ≤ leastCapacity)
  (hspare : Message.Spare S type k s.reader.unread s.target)

include hr in
theorem guarded_atSlot {α : Type} {i : Nat} {I : Nat → Slot Message → Prop}
    {J : Nat → Message → Prop} (hslot : s.target.slots[i]? = some slot) {x : Merge (Slot Message) α}
    {y : CheckedMerge (Slot Message) α} (hx : GuardedMerge I x y ⟨slot, s.reader⟩)
    (hstore : ∀ t : Merging (Slot Message), s.reader.Falls t.reader → I t.reader.unread t.target →
      J t.reader.unread (s.target.setSlot i t.target)) :
    GuardedMerge J (atSlot i x) (Checked.atSlot i y) s := by
  have hwithin : GuardedMerge J (Merge.within slot (fun slot m => m.setSlot i slot) x)
      (Merge.within slot (fun slot m => m.setSlot i slot) y) s := .within hr hx hstore
  have hchecked : Checked.atSlot i y s =
      Merge.within slot (fun slot m => m.setSlot i slot) y s := by
    unfold Checked.atSlot
    rw [bind_of_ok (show Checked.lift Merge.target s = .ok s.target s from rfl), hslot]
  unfold GuardedMerge Guarded at hwithin ⊢
  rwa [atSlot_apply hslot, hchecked]

include hr hm hspare in
theorem guarded_atSlot_repeated {i : Nat} (hf : (S.layout type).fields[i]? = some f)
    (hrep : f.isRepeated = true) (hslot : s.target.slots[i]? = some slot)
    {x : Merge (Slot Message) Unit} {y : CheckedMerge (Slot Message) Unit}
    (hx : GuardedMerge (Slot.Spare k) x y ⟨slot, s.reader⟩) (hkept : KeepsTarget (f.FitsIn S) x) :
    GuardedMerge (Message.Spare S type k) (do atSlot i x; return true)
      (do Checked.atSlot i y; return true) s := by
  refine .bind hr (guarded_atSlot hr hslot (hx.keeping hkept (hm.atSlot hf hslot))
    fun t hfalls ht => ?_) fun _ t _ _ ht => .pure ht
  refine Message.Roomy.setSlot (lasting_message hfalls.unread_le hspare) hf
    ⟨ht.2.holds, fun _ => ht.1, fun t' m ht' hm => ?_⟩
  have hcollects := ht.2.holds.collects hrep
  rw [hm] at hcollects
  generalize f.element = element at hcollects
  cases hcollects

include hS hnested hkeeps hr hm hcap hspare

/-- A value is read in place, in a message that was prepared for it. -/
theorem PlacedField.guarded_storeSingular {p : PlacedField}
    (hp : (S.layout type).fields[p.2]? = some p.1) (hleft : s.reader.bytesLeft < n) :
    GuardedMerge (Message.Spare S type k)
      (do
        Merge.update (Message.prepare S (S.layout type) p.1)
        atSlot p.2 (p.1.readSingular S nested)
        Merge.update (Message.markPresent p.1))
      (do
        Checked.lift (Merge.update (Message.prepare S (S.layout type) p.1))
        Checked.atSlot p.2 (Checked.readSingular S nested' p.1)
        Checked.lift (Merge.update (Message.markPresent p.1))) s := by
  have hspare := Message.Spare.prepare hm hcap hspare p.1
  have hm := hm.prepare hS p.1
  refine .bind hr (guarded_update hspare) fun _ t ht _ _ => ?_
  cases ht
  obtain ⟨slot, hslot⟩ := hm.exists_slot hp
  have hread := p.1.guarded_readSingular hS hnested hkeeps (s := ⟨slot, s.reader⟩) hr hleft
    (hm.atSlot hp hslot) hcap (Message.Roomy.atSlot hspare hp hslot)
  refine .bind hr (guarded_atSlot (s := ⟨s.target.prepare S (S.layout type) p.1, s.reader⟩)
    hr hslot hread fun t hfalls ht => ?_) fun _ t _ _ ht => guarded_update ht.markPresent
  exact Message.Roomy.setSlot (lasting_message hfalls.unread_le hspare) hp ht

theorem PlacedField.guarded_decodeSingular {p : PlacedField}
    (hp : (S.layout type).fields[p.2]? = some p.1) (hrep : p.1.isRepeated = false)
    (hleft : s.reader.bytesLeft < n) :
    GuardedMerge (Message.Spare S type k) (p.decodeSingular S nested (S.layout type))
      (Checked.decodeSingular S nested' (S.layout type) p) s := by
  have hstored := p.guarded_storeSingular hS hnested hkeeps hr hm hcap hspare hp hleft
  unfold PlacedField.decodeSingular Checked.decodeSingular
  cases helement : p.1.element with
  | scalar | text | blob | message | group => exact hstored
  | enum declared default =>
    cases default with
    | some value => exact hstored
    | none =>
      -- The value is looked up before anything is stored.
      have hproceeds : Proceeds readInt32 := proceeds_readVarint32.map _
      refine .bind hr (guarded_read lasting_message hr hspare (guarded_take hr hproceeds))
        fun value t ht hfalls hspare' => ?_
      obtain ⟨r, -, rfl⟩ := Merge.read_eq_ok.1 ht
      split
      · have hprepared := Message.Spare.prepare hm hcap hspare p.1
        have hholds : p.1.Holds (.scalar .int32 value) :=
          Field.holds_of_stores hrep (helement ▸ .enum)
        refine guarded_update (Message.Spare.markPresent (Message.Roomy.setSlot
          (lasting_message hfalls.unread_le hprepared) hp ⟨hholds, fun h => ?_, nofun⟩))
        exact nomatch hrep.symm.trans h
      · exact .pure hspare'

/-- The tag took a byte, which leaves room for the value behind it. -/
theorem guarded_mergePayload (htag : tag ≠ 0 → s.reader.bytesLeft < n ∧
      Message.Spare S type (k + 1) s.reader.unread s.target) :
    GuardedMerge (Message.Spare S type k) (mergePayload S nested (S.layout type) tag)
      (Checked.mergePayload S nested' (S.layout type) tag) s := by
  unfold mergePayload Checked.mergePayload
  cases hroute : (S.layout type).route tag with
  | none =>
    simp only
    split
    · exact .pure hspare
    · exact guarded_read lasting_message hr hspare (guarded_skipField hr tag)
  | some target =>
    obtain ⟨p, form⟩ := target
    obtain ⟨hleft, hspare'⟩ := htag ((hS type).routed.ne_zero_of_route hroute)
    have hp := (Layout.route_eq_some hroute).1
    have hrep := Layout.isRepeated_of_route hroute
    obtain ⟨slot, hslot⟩ := hm.exists_slot hp
    have hfits := hm.atSlot hp hslot
    cases form with
    | value =>
      exact .bind hr (p.guarded_decodeSingular hS hnested hkeeps hr hm hcap hspare hp hrep hleft)
        fun _ t _ _ ht => .pure ht
    | element =>
      have hread := p.1.guarded_readRecord hS hnested (s := ⟨slot, s.reader⟩) hr hleft hfits hrep
        (Nat.le_trans (Nat.le_add_left _ k) hcap)
        ((Message.Roomy.atSlot hspare' hp hslot).room hrep)
        (Layout.wireType_ne_of_route hroute)
      exact guarded_atSlot_repeated hr hm hspare hp hrep hslot hread
        (p.1.keeps_readRecord hS hkeeps tag)
    | run =>
      have hpack := (hS type).isPackable_of_route hroute
      have hread : GuardedMerge (Slot.Spare k) (p.1.readPacked S nested)
          (Checked.readPacked S nested' p.1) ⟨slot, s.reader⟩ :=
        p.1.guarded_readPacked hS hkeeps hpack hrep hr hfits
          ((Message.Roomy.atSlot hspare hp hslot).room hrep)
      exact guarded_atSlot_repeated hr hm hspare hp hrep hslot hread
        (p.1.keeps_readPacked hS hkeeps)

theorem guarded_mergeRecords (hfuel : Outlasts fuel tag s.reader)
    (htag : tag ≠ 0 → s.reader.bytesLeft < n ∧
      Message.Spare S type (k + 1) s.reader.unread s.target) :
    GuardedMerge (Message.Spare S type k) (mergeRecords S nested (S.layout type) fuel tag)
      (Checked.mergeRecords S nested' (S.layout type) fuel tag) s := by
  induction fuel generalizing s tag with
  | zero => exact absurd hfuel.1 (Nat.lt_irrefl 0)
  | succ fuel ih =>
    refine .bind hr (guarded_mergePayload hS hnested hkeeps hr hm hcap hspare htag)
      fun more t ht hfalls hspare => ?_
    cases more with
    | false => exact .pure hspare
    | true =>
      have hm : t.target.Fits S type := by
        have hkept := keeps_mergePayload hS hkeeps tag s hm
        rwa [ht] at hkept
      refine .bind hfalls.bounded (guarded_read lasting_message hfalls.bounded hspare
        (guarded_take hfalls.bounded proceeds_readTag)) fun next u hu hfalls' hspare' => ?_
      obtain ⟨r, hnext, rfl⟩ := Merge.read_eq_ok.1 hu
      have hne : tag ≠ 0 := by
        rintro rfl
        cases ht.symm.trans (mergePayload_zero (hS type).routed s)
      -- What the payload left is no more than what its tag left, and the next tag takes from that.
      have hleft := (htag hne).1
      have hleft' := hfalls.bytesLeft_le
      have hunread := hfalls.unread_le
      have hunread' := hfalls'.unread_le
      refine ih hfalls'.bounded hm (by omega) hspare' (hfuel.next hne fun h => ?_) fun h => ⟨?_, ?_⟩
      · exact Nat.lt_of_lt_of_le (bytesLeft_readTag hnext h) hleft'
      · have hlt := bytesLeft_readTag hnext h
        simp only
        omega
      · have hless := unread_readTag hfalls.bounded hnext h
        refine Message.Roomy.mono hspare ?_
        simp only
        omega

end Records

/-! ### Messages -/

section Messages

variable (order : FieldOrder)

include hS

/-- By induction on the fuel: what is nested has less bytes. -/
theorem guarded_mergeWithin (fuel : Nat) :
    GuardedNested S fuel (mergeWithin S order fuel) (Checked.mergeWithin S fuel) := by
  induction fuel with
  | zero => exact fun k type s _ hleft => absurd hleft (Nat.not_lt_zero _)
  | succ fuel ih =>
    intro k type s hr hleft hm hcap hspare
    rw [mergeWithin, mergeFields_eq (composed_mergeWithin (fun t => (hS t).routed) order fuel)
      (hS type).routed, Checked.mergeWithin, Checked.mergeFields]
    refine .bind hr (guarded_read lasting_message hr hspare (guarded_take hr proceeds_readTag))
      fun tag t ht hfalls hspare' => ?_
    obtain ⟨r, htag, rfl⟩ := Merge.read_eq_ok.1 ht
    have hunread := hfalls.unread_le
    refine guarded_mergeRecords hS ih (keeps_mergeWithin hS order fuel) hfalls.bounded hm
      (by simp only at hunread ⊢; omega) hspare' ⟨by omega, by omega⟩ fun hne => ⟨?_, ?_⟩
    · have hlt := bytesLeft_readTag htag hne
      simp only
      omega
    · have hless := unread_readTag hr htag hne
      refine Message.Roomy.mono hspare ?_
      simp only
      omega

/-- Merging is guarded, into a message with room for as many values as there are bytes. -/
theorem guarded_mergeMessage (n : Nat) :
    GuardedNested S n (mergeMessage S order) (Checked.mergeMessage S) := by
  intro k type s hr _ hm hcap hspare
  refine .bind hr (guarded_read lasting_message hr hspare (y := get) ⟨rfl, .refl _, trivial⟩)
    fun r t ht _ _ => ?_
  cases ht
  exact guarded_mergeWithin hS order _ k type s hr (Nat.lt_succ_self _) hm hcap hspare

end Messages

end ProtoWire
