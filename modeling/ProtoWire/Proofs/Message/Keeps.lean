import ProtoWire.Proofs.Message.FieldOrder
import ProtoWire.Proofs.Message.Fits

/-!
# Merging keeps a message fitting

A message fits after merging as it did before, whatever the outcome.
-/

namespace ProtoWire

variable {α : Type} {f : Field} {type : TypeId} {P E : Message → Prop}

/-! ### Targets -/

/-- From a target with `P` the action leaves one with `Q`, whatever its outcome. -/
def Leaves {σ α : Type} (P : σ → Prop) (x : Merge σ α) (Q : σ → Prop) : Prop :=
  Ensures (fun s : Merging σ => P s.target) x (fun _ s => Q s.target) (fun s => Q s.target)

/-- From a target with `P` the action ends with one with `P`, or fails with one with `E`. -/
abbrev KeepsOr {σ α : Type} (P E : σ → Prop) (x : Merge σ α) : Prop :=
  Ensures (fun s : Merging σ => P s.target) x (fun _ s => P s.target) (fun s => E s.target)

/-- An action on a target keeps a property of it. -/
abbrev KeepsTarget {σ α : Type} (P : σ → Prop) (x : Merge σ α) : Prop :=
  Leaves P x P

section Targets

variable {σ τ β : Type} {P Q : σ → Prop} {R T : τ → Prop}

theorem Leaves.bind {x : Merge σ α} {f : α → Merge σ β} (hx : Leaves P x Q)
    (hf : ∀ a, KeepsTarget Q (f a)) : Leaves P (x >>= f) Q :=
  Ensures.bind hx hf

theorem Leaves.seq {Q' : σ → Prop} {x : Merge σ α} {f : α → Merge σ β} (hx : Leaves P x Q')
    (hf : ∀ a, Leaves Q' (f a) Q) (hQ : ∀ m, Q' m → Q m) : Leaves P (x >>= f) Q :=
  Ensures.bind (hx.failing fun s => hQ s.target) hf

theorem Leaves.pure {a : α} (h : ∀ m, P m → Q m) : Leaves P (Pure.pure a : Merge σ α) Q :=
  fun s => h s.target

theorem Leaves.throw {e : Fault} (h : ∀ m, P m → Q m) :
    Leaves P (MonadExcept.throw e : Merge σ α) Q :=
  fun s => h s.target

theorem keeps_read (x : Read α) : KeepsTarget P (Merge.read x : Merge σ α) := by
  intro s hs
  unfold Merge.read
  cases x s.reader with
  | ok a r | error e r => exact hs

/-- A read leaves the target alone. -/
theorem KeepsOr.read {E : σ → Prop} (x : Read α) (h : ∀ m, P m → E m) :
    KeepsOr P E (Merge.read x : Merge σ α) :=
  (keeps_read (P := P) x).failing fun s => h s.target

theorem Leaves.target {f : σ → Merge σ α}
    (h : ∀ m, P m → ∃ P' : σ → Prop, P' m ∧ Leaves P' (f m) Q) :
    Leaves P (Merge.target >>= f) Q := by
  intro s hs
  obtain ⟨P', hP', hf⟩ := h s.target hs
  exact hf s hP'

theorem Leaves.update {f : σ → σ} (h : ∀ m, P m → Q (f m)) : Leaves P (Merge.update f) Q :=
  fun s hs => h s.target hs

theorem Leaves.within {x : Merge τ α} {part : τ} {store : τ → σ → σ} (hx : Leaves R x T)
    (hpart : R part) (hstore : ∀ t m, P m → T t → Q (store t m)) :
    Leaves P (Merge.within part store x) Q := by
  intro s hs
  have h := hx { target := part, reader := s.reader } hpart
  unfold Merge.within
  cases hout : x { target := part, reader := s.reader } with
  | ok a t | error e t =>
    rw [hout] at h
    exact hstore t.target s.target hs h

theorem Leaves.edit {K : Repeated τ → Prop} {x : Repeated.Edit τ α} {c : Repeated τ}
    {store : Repeated τ → σ → σ} (hx : Keeps K x) (hc : K c)
    (hstore : ∀ c m, P m → K c → Q (store c m)) : Leaves P (Merge.edit c store x) Q := by
  intro s hs
  have h := hx c hc
  unfold Merge.edit
  cases hout : x c with
  | ok a c' | error e c' =>
    rw [hout] at h
    exact hstore c' s.target hs h

variable {contents : Merge σ Unit}

theorem keeps_readMessage (h : KeepsTarget P contents) : KeepsTarget P (readMessage contents) :=
  (keeps_read _).bind fun _ => (keeps_read _).bind fun _ => (keeps_read _).bind fun _ =>
    h.bind fun _ => (keeps_read _).bind fun _ => (keeps_read _).bind fun _ => keeps_read _

theorem keeps_readGroup (h : KeepsTarget P contents) (number : UInt32) :
    KeepsTarget P (readGroup number contents) :=
  (keeps_read _).bind fun _ => h.bind fun _ => (keeps_read _).bind fun _ => keeps_read _

theorem keeps_true (x : Merge σ α) : KeepsTarget (fun _ => True) x := by
  intro s _
  cases x s <;> exact trivial

end Targets

/-! ### Slots -/

section Slots

variable {element : Element} {S : Schema} {nested : Nested} {inner : TypeId → Message → Prop}
  (hS : S.Valid) (hnested : ∀ type, KeepsTarget (Message.Fits S type) (nested type))

/-- An action on a container keeps a slot fitting, if it keeps what the slot asks of containers. -/
theorem leaves_store {β : Type} {K : Repeated α → Prop} {store : Repeated α → Slot Message}
    (hstore : ∀ c, K c → f.Fits inner (store c)) {x : Repeated.Edit α β} {c : Repeated α}
    (hx : Keeps K x) (hc : K c) :
    KeepsTarget (f.Fits inner) (Merge.edit c (fun c _ => store c) x) :=
  Leaves.edit hx hc fun c _ _ => hstore c

theorem keeps_reserve (n : Nat) : KeepsTarget (f.Fits inner) (Slot.reserve n) := by
  refine Leaves.target fun slot hslot => ?_
  cases hslot.shape with
  | scalars _ hc store | texts _ hc store | blobs _ hc store | subs _ _ hc store =>
    exact ⟨_, hslot, leaves_store store (Repeated.keeps_reserve n) hc⟩
  | scalar | text | blob | sub => exact ⟨_, hslot, fun _ h => h⟩

include hnested in
theorem Field.keeps_readNested (htype : f.element.type? = some type) :
    KeepsTarget (Message.Fits S type) (f.readNested nested) := by
  obtain ⟨_, _, element, _⟩ := f
  unfold Field.readNested
  cases element with
  | message t =>
    cases htype
    exact keeps_readMessage (hnested type)
  | group t =>
    cases htype
    exact keeps_readGroup (hnested type) _
  | scalar | enum | text | blob => cases htype

theorem Element.blank_eq (h : element.type? = some type) : element.blank S = S.blank type := by
  cases element <;> cases h <;> rfl

theorem Element.clearMessage_eq (h : element.type? = some type) (m : Message) :
    element.clearMessage S m = m.clear S (S.layout type) := by
  cases element <;> cases h <;> rfl

include hS in
theorem Element.fits_blank (h : element.type? = some type) : (element.blank S).Fits S type :=
  Element.blank_eq h ▸ .blank (hS type)

include hS in
theorem Element.fits_clearMessage (h : element.type? = some type) {m : Message}
    (hm : m.Fits S type) : (element.clearMessage S m).Fits S type :=
  Element.clearMessage_eq h m ▸ hm.clear hS

include hS in
theorem Element.fits_getD (h : element.type? = some type) {value : Option Message}
    (hvalue : ∀ m ∈ value, m.Fits S type) : (value.getD (element.blank S)).Fits S type := by
  cases value with
  | none => exact Element.fits_blank hS h
  | some m => exact hvalue m rfl

/-- Appending an element and changing it in place keeps a slot fitting. -/
theorem leaves_push {size : Nat} {P : α → Prop} {store : Repeated α → Slot Message}
    (hstore : ∀ c, c.Sound size P → f.Fits inner (store c)) {default : α} {reset : α → α}
    (hdefault : P default) (hreset : ∀ a, P a → P (reset a)) {x : Merge α Unit}
    (hx : KeepsTarget P x) {c : Repeated α} (hc : c.Sound size P)
    {k : Slot Message → Merge (Slot Message) Unit}
    (hk : ∀ c, k (store c) = Slot.atLast default store c x) :
    KeepsTarget (f.Fits inner) (do
      Merge.edit c (fun c _ => store c) (Repeated.pushRecycled size default reset)
      k (← Merge.target)) := by
  have hpush : Leaves (f.Fits inner)
      (Merge.edit c (fun c _ => store c) (Repeated.pushRecycled size default reset))
      (fun slot => ∃ c : Repeated α, c.Sound size P ∧ slot = store c) :=
    Leaves.edit (Repeated.keeps_pushRecycled hdefault hreset) hc fun c _ _ hc => ⟨c, hc, rfl⟩
  refine hpush.seq (fun _ => ?_) ?_
  · refine Leaves.target ?_
    rintro _ ⟨c, hc, rfl⟩
    rw [hk]
    exact ⟨_, hstore c hc, Leaves.within hx (hc.getLast hdefault) fun a _ _ ha =>
      hstore _ (hc.modifyLast ha)⟩
  · rintro _ ⟨c, hc, rfl⟩
    exact hstore c hc

include hS hnested in
/-- Reading one more value keeps a slot fitting. -/
theorem Field.keeps_readElement : KeepsTarget (f.FitsIn S) (f.readElement S nested) := by
  refine Leaves.target fun slot hslot => ⟨_, hslot, ?_⟩
  cases hslot.shape with
  | scalars _ hc store =>
    exact (keeps_read _).bind fun value => leaves_store store (Repeated.keeps_add trivial) hc
  | texts _ hc store =>
    exact leaves_push store trivial (fun _ h => h) (keeps_true readTextInto) hc fun _ => rfl
  | blobs _ hc store =>
    exact leaves_push store trivial (fun _ h => h) (keeps_true readBlobInto) hc fun _ => rfl
  | @subs type c _ htype hc store =>
    exact leaves_push store (Element.fits_blank hS htype)
      (fun _ => Element.fits_clearMessage hS htype) (f.keeps_readNested hnested htype) hc
      fun _ => rfl
  | scalar | text | blob | sub => exact fun _ h => h

include hS hnested in
theorem Field.keeps_readRecord (tag : UInt32) :
    KeepsTarget (f.FitsIn S) (f.readRecord S nested tag) := by
  have helement := f.keeps_readElement hS hnested
  have htarget : KeepsTarget (f.FitsIn S) (Merge.target : Merge (Slot Message) _) :=
    fun _ hs => hs
  refine htarget.bind fun slot => ?_
  split
  · exact (keeps_read _).bind fun count => (keeps_reserve count).bind fun _ => helement
  · exact helement

include hS hnested in
theorem Field.keeps_readToLimit (fuel : Nat) :
    KeepsTarget (f.FitsIn S) (f.readToLimit S nested fuel) := by
  induction fuel with
  | zero => exact .throw fun _ h => h
  | succ fuel ih =>
    refine (keeps_read _).bind fun r => ?_
    split
    · exact .pure fun _ h => h
    · exact (f.keeps_readElement hS hnested).bind fun _ => ih

include hS hnested in
theorem Field.keeps_readPacked : KeepsTarget (f.FitsIn S) (f.readPacked S nested) :=
  (keeps_read _).bind fun _ => (keeps_read _).bind fun _ => (keeps_read _).bind fun _ =>
    (keeps_reserve _).bind fun _ =>
      (f.keeps_readToLimit hS hnested _).bind fun _ => keeps_read _

include hS hnested in
/-- A singular value that is read leaves something stored, also if reading it fails. -/
theorem Field.leaves_readSingular :
    Leaves (f.FitsIn S) (f.readSingular S nested)
      (fun slot => f.FitsIn S slot ∧ slot.isStored = true) := by
  refine Leaves.target fun slot hslot => ?_
  let Stored (slot : Slot Message) := f.FitsIn S slot ∧ slot.isStored = true
  cases hslot.shape with
  | scalar _ store =>
    exact ⟨Stored, ⟨hslot, rfl⟩,
      (keeps_read _).bind fun value => .update fun _ _ => ⟨store value, rfl⟩⟩
  | text _ store | blob _ store =>
    exact ⟨_, hslot, Leaves.within (keeps_true _) trivial fun value _ _ _ => ⟨store value, rfl⟩⟩
  | sub _ htype hvalue store =>
    refine ⟨_, hslot, Leaves.within (f.keeps_readNested hnested htype)
      (Element.fits_getD hS htype hvalue) fun m _ _ hm => ⟨store (some m) ?_, rfl⟩⟩
    rintro _ ⟨⟩
    exact hm
  | scalars | texts | blobs | subs => exact ⟨Stored, ⟨hslot, rfl⟩, fun _ h => h⟩

end Slots

/-! ### Records -/

section Records

variable {S : Schema} (hS : S.Valid) {nested : Nested}
  (hnested : ∀ type, KeepsTarget (Message.Fits S type) (nested type))

theorem leaves_atSlot {i : Nat} (hf : (S.layout type).fields[i]? = some f)
    {x : Merge (Slot Message) α} (hx : Leaves (f.FitsIn S) x
      (fun slot => f.FitsIn S slot ∧ slot.isStored = true)) :
    Leaves (Message.Fits S type) (atSlot i x)
      (fun m => m.Fits S type ∧ ∃ slot, m.slots[i]? = some slot ∧ slot.isStored = true) := by
  rintro ⟨m, r⟩ hm
  obtain ⟨slot, hslot⟩ := hm.exists_slot hf
  rw [atSlot_apply hslot]
  have hread : Leaves (fun m : Message => m.Fits S type ∧ ∃ slot, m.slots[i]? = some slot)
      (Merge.within slot (fun slot m => m.setSlot i slot) x)
      (fun m => m.Fits S type ∧ ∃ slot, m.slots[i]? = some slot ∧ slot.isStored = true) := by
    refine Leaves.within hx (hm.atSlot hf hslot) fun slot m hm hfits => ?_
    obtain ⟨hm, slot', hslot'⟩ := hm
    exact ⟨hm.setSlot hf hfits.1 fun _ => hfits.2, slot, getElem?_setSlot hslot' slot, hfits.2⟩
  exact hread ⟨m, r⟩ ⟨hm, slot, hslot⟩

theorem keeps_atSlot {i : Nat} (hf : (S.layout type).fields[i]? = some f)
    (hrep : f.isRepeated = true) {x : Merge (Slot Message) α} (hx : KeepsTarget (f.FitsIn S) x) :
    KeepsTarget (Message.Fits S type) (atSlot i x) := by
  have hstored : Leaves (f.FitsIn S) x
      (fun slot => f.FitsIn S slot ∧ slot.isStored = true) :=
    hx.mono (fun _ h => h)
      (fun _ s h => ⟨h, isStored_of_collects (h.holds.collects hrep)⟩)
      (fun s h => ⟨h, isStored_of_collects (h.holds.collects hrep)⟩)
  exact (leaves_atSlot hf hstored).mono (fun _ h => h) (fun _ _ h => h.1) fun _ h => h.1

include hS hnested in
theorem PlacedField.keeps_decodeSingular {p : PlacedField}
    (hp : (S.layout type).fields[p.2]? = some p.1) (hrep : p.1.isRepeated = false) :
    KeepsTarget (Message.Fits S type) (p.decodeSingular S nested (S.layout type)) := by
  unfold PlacedField.decodeSingular
  split
  · rename_i declared helement
    refine (keeps_read _).bind fun value => ?_
    split
    · refine Leaves.update fun m hm => ?_
      have hfits : p.1.FitsIn S (.scalar .int32 value) :=
        .of_leaf (Field.holds_of_stores hrep (helement ▸ .enum)) rfl
      have hprepared := hm.prepare hS p.1
      obtain ⟨slot, hslot⟩ := hprepared.exists_slot hp
      exact (hprepared.setSlot hp hfits fun _ => rfl).markPresent hS hp
        (getElem?_setSlot hslot _) rfl
    · exact .pure fun _ h => h
  · refine Leaves.bind (.update fun m hm => hm.prepare hS p.1) fun _ => ?_
    refine Leaves.seq (leaves_atSlot hp
      (p.1.leaves_readSingular hS hnested)) (fun _ => ?_) fun _ h => h.1
    refine Leaves.update fun m hm => ?_
    obtain ⟨hm, slot, hslot, hstored⟩ := hm
    exact hm.markPresent hS hp hslot hstored

include hS hnested in
theorem keeps_mergePayload (tag : UInt32) :
    KeepsTarget (Message.Fits S type) (mergePayload S nested (S.layout type) tag) := by
  unfold mergePayload
  split
  · rename_i p hroute
    exact (p.keeps_decodeSingular hS hnested (Layout.route_eq_some hroute).1
      (Layout.isRepeated_of_route hroute)).bind fun _ => .pure fun _ h => h
  · rename_i p hroute
    have hrep := Layout.isRepeated_of_route hroute
    exact (keeps_atSlot (Layout.route_eq_some hroute).1 hrep
      (p.1.keeps_readRecord hS hnested tag)).bind fun _ => .pure fun _ h => h
  · rename_i p hroute
    have hrep := Layout.isRepeated_of_route hroute
    exact (keeps_atSlot (Layout.route_eq_some hroute).1 hrep
      (p.1.keeps_readPacked hS hnested)).bind fun _ => .pure fun _ h => h
  · split
    · exact .pure fun _ h => h
    · exact keeps_read _

/-- By induction on the records: they keep what each of them does. -/
theorem keepsOr_mergeRecords {L : Layout} (hPE : ∀ m, P m → E m)
    (hpayload : ∀ tag, KeepsOr P E (mergePayload S nested L tag)) (fuel : Nat) (tag : UInt32) :
    KeepsOr P E (mergeRecords S nested L fuel tag) := by
  induction fuel generalizing tag with
  | zero => exact .throw fun s => hPE s.target
  | succ fuel ih =>
    refine (hpayload tag).bind fun more => ?_
    split
    · exact (KeepsOr.read _ hPE).bind fun next => ih next
    · exact fun _ h => h

end Records

/-! ### Messages -/

section Messages

variable {S : Schema} (hS : S.Valid) (order : FieldOrder)

include hS

/-- By induction on the fuel: what is nested has less of it. -/
theorem keeps_mergeWithin (fuel : Nat) (type : TypeId) :
    KeepsTarget (Message.Fits S type) (mergeWithin S order fuel type) := by
  induction fuel generalizing type with
  | zero => exact .throw fun _ h => h
  | succ fuel ih =>
    rw [mergeWithin, mergeFields_eq (composed_mergeWithin (fun t => (hS t).routed) order fuel)
      (hS type).routed]
    refine (keeps_read _).bind fun tag s hs => ?_
    exact keepsOr_mergeRecords (fun _ h => h) (keeps_mergePayload hS ih) _ tag s hs

/-- A message fits after merging as it did before, whatever the outcome. -/
theorem keeps_mergeMessage (type : TypeId) :
    KeepsTarget (Message.Fits S type) (mergeMessage S order type) :=
  (keeps_read _).bind fun _ => keeps_mergeWithin hS order _ type

omit hS in
variable {order} in
theorem Ensures.mergeBytes {m : Message} {limit : UInt32} {data : Bytes}
    (h : Ensures (· = ⟨m, { Reader.ofBytes data with recursionLimit := limit }⟩)
      (mergeMessage S order type) (fun _ s => P s.target) fun s => E s.target)
    (hPE : ∀ m, P m → E m) :
    ((m.mergeBytes S order type limit data).1 = .ok () →
        P (m.mergeBytes S order type limit data).2) ∧
      E (m.mergeBytes S order type limit data).2 := by
  have hout := h.bind (fun _ => KeepsOr.read (checkLastTag 0) hPE) _ rfl
  unfold Message.mergeBytes
  dsimp only
  split
  · rename_i heq
    rw [heq] at hout
    exact ⟨fun _ => hout, hPE _ hout⟩
  · rename_i heq
    rw [heq] at hout
    exact ⟨nofun, hout⟩

theorem Message.Fits.mergeBytes {m : Message} (h : m.Fits S type) (limit : UInt32) (data : Bytes) :
    (m.mergeBytes S order type limit data).2.Fits S type := by
  refine (Ensures.mergeBytes (P := Message.Fits S type) ?_ fun _ h => h).2
  rintro s rfl
  exact keeps_mergeMessage hS order type _ h

end Messages

end ProtoWire
