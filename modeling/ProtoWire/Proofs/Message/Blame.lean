import ProtoWire.Proofs.Message.Merging

/-!
# What a failed merge is blamed on

A merge fails for what it reads, or for lack of room. Here are the errors of the first kind.
-/

namespace ProtoWire

variable {r : Reader}

/-- If the action fails for what it reads, the error is one with `E`. -/
def Blames {σ α : Type} (E : DecodeError → Prop) (x : EStateM Fault σ α) (s : σ) : Prop :=
  ∀ e t, x s = .error (.decode e) t → E e

section Actions

variable {σ τ α β : Type} {x : EStateM Fault σ α} {s : σ} {E : DecodeError → Prop}

theorem Blames.of_ok {t : σ} {a : α} (h : x s = .ok a t) : Blames E x s := by
  intro e u he
  cases h.symm.trans he

theorem Blames.bind {f : α → EStateM Fault σ β} (hx : Blames E x s)
    (hf : ∀ a t, x s = .ok a t → Blames E (f a) t) : Blames E (x >>= f) s := by
  intro e u h
  cases hout : x s with
  | ok a t =>
    rw [bind_of_ok hout] at h
    exact hf a t hout e u h
  | error fault t =>
    rw [bind_of_error hout] at h
    cases h
    exact hx e u hout

theorem Blames.bind_of_ok {f : α → EStateM Fault σ β} {t : σ} {a : α} (hx : x s = .ok a t)
    (hf : Blames E (f a) t) : Blames E (x >>= f) s := by
  intro e u h
  rw [ProtoWire.bind_of_ok hx] at h
  exact hf e u h

theorem Blames.mono {E' : DecodeError → Prop} (h : Blames E x s) (hE : ∀ e, E e → E' e) :
    Blames E' x s := fun e t he =>
  hE e (h e t he)

theorem blames_read {x : Read α} {s : Merging σ} (h : ∀ e t, x s.reader = .error e t → E e) :
    Blames E (Merge.read x) s := by
  intro e u he
  cases hout : x s.reader with
  | ok a t => cases he.symm.trans (Merge.read_of_ok hout)
  | error e' t =>
    cases he.symm.trans (Merge.read_of_error hout)
    exact h e t hout

/-- A read that fails is to blame, whatever would follow. -/
theorem blames_read_error {x : Read α} {t : Reader} {e : DecodeError} (h : x r = .error e t) (a : σ)
    (f : α → Merge σ β) : Blames (· = e) (Merge.read x >>= f) ⟨a, r⟩ := by
  intro e' u he
  rw [bind_of_error (Merge.read_of_error h)] at he
  cases he
  rfl

theorem Blames.within {x : Merge τ α} {part : τ} {s : Merging σ} (h : Blames E x ⟨part, s.reader⟩)
    (store : τ → σ → σ) : Blames E (Merge.within part store x) s := by
  intro e u he
  unfold Merge.within at he
  cases hout : x ⟨part, s.reader⟩ with
  | ok a t =>
    rw [hout] at he
    cases he
  | error fault t =>
    rw [hout] at he
    cases he
    exact h e t hout

theorem Blames.edit {x : Repeated.Edit τ α} {c : Repeated τ} (h : Blames E x c)
    (store : Repeated τ → σ → σ) (s : Merging σ) : Blames E (Merge.edit c store x) s := by
  intro e u he
  unfold Merge.edit at he
  cases hout : x c with
  | ok a c' =>
    rw [hout] at he
    cases he
  | error fault c' =>
    rw [hout] at he
    cases he
    exact h e c' hout

/-! ### Containers -/

/-- A container fails for lack of room alone. -/
theorem Repeated.blames_reserve (size n : Nat) (c : Repeated α) :
    Blames E (Repeated.reserve size n) c := by
  intro e u h
  rw [Repeated.reserve_apply] at h
  split at h
  · split at h
    · cases h
    · cases h
  · cases h

theorem Repeated.blames_add (size : Nat) (value : α) (c : Repeated α) :
    Blames E (Repeated.add size value) c := by
  intro e u h
  rw [Repeated.add_apply] at h
  cases hretained : c.retained with
  | cons element rest =>
    rw [hretained] at h
    cases h
  | nil =>
    simp only [hretained] at h
    split at h
    · cases hreserve : Repeated.reserve size 1 c with
      | ok _ c' =>
        rw [hreserve] at h
        cases h
      | error fault c' =>
        rw [hreserve] at h
        cases h
        exact Repeated.blames_reserve size 1 c e u hreserve
    · cases h

theorem Repeated.blames_pushRecycled (size : Nat) (default : α) (reset : α → α) (c : Repeated α) :
    Blames E (Repeated.pushRecycled size default reset) c := by
  intro e u h
  rw [Repeated.pushRecycled_apply] at h
  cases hretained : c.retained with
  | cons element rest =>
    rw [hretained] at h
    cases h
  | nil =>
    rw [hretained] at h
    exact Repeated.blames_add size default c e u h

theorem blames_slotReserve (n : Nat) (slot : Slot Message) (r : Reader) :
    Blames E (Slot.reserve n) ⟨slot, r⟩ := by
  unfold Slot.reserve
  refine .bind_of_ok rfl ?_
  cases slot with
  | scalars | texts | blobs | subs => exact (Repeated.blames_reserve _ n _).edit _ _
  | scalar | text | blob | sub => exact .of_ok rfl

theorem blames_push {size : Nat} {P : α → Prop} {store : Repeated α → Slot Message} {default : α}
    {reset : α → α} (hdefault : P default) (hreset : ∀ a, P a → P (reset a)) {x : Merge α Unit}
    (hx : ∀ a, P a → Blames E x ⟨a, r⟩) {c : Repeated α} (hc : c.Sound size P)
    {k : Slot Message → Merge (Slot Message) Unit}
    (hk : ∀ c, k (store c) = Slot.atLast default store c x) (slot : Slot Message) :
    Blames E (do
      Merge.edit c (fun c _ => store c) (Repeated.pushRecycled size default reset)
      k (← Merge.target)) ⟨slot, r⟩ := by
  refine ((Repeated.blames_pushRecycled size default reset c).edit _ _).bind fun _ s hs => ?_
  obtain ⟨c', hpush, rfl⟩ := Merge.edit_eq_ok.1 hs
  have hc' : c'.Sound size P := by
    have hkeeps := Repeated.keeps_pushRecycled hdefault hreset c hc
    rwa [hpush] at hkeeps
  refine .bind_of_ok rfl ?_
  rw [hk]
  exact (hx _ (hc'.getLast hdefault)).within _

end Actions

/-! ### Values -/

section Values

variable {S : Schema} (hS : S.Valid) {nested : Nested} {E : DecodeError → Prop} {f : Field}
  {slot : Slot Message}

/-- If a value of the field cannot be read, the error is one with `E`. -/
def Field.BlamesValue (S : Schema) (nested : Nested) (E : DecodeError → Prop) (f : Field)
    (r : Reader) : Prop :=
  match f.element with
  | .scalar kind _ => ∀ e t, readScalar kind r = .error e t → E e
  | .enum _ _ => ∀ e t, readScalar .int32 r = .error e t → E e
  | .text _ => ∀ old, Blames E readTextInto ⟨old, r⟩
  | .blob _ => ∀ old, Blames E readBlobInto ⟨old, r⟩
  | .message type | .group type => ∀ m, m.Fits S type → Blames E (f.readNested nested) ⟨m, r⟩

namespace Field.BlamesValue

include hS

theorem readSingular (h : f.BlamesValue S nested E r) (hslot : f.FitsIn S slot)
    (hrep : f.isRepeated = false) : Blames E (f.readSingular S nested) ⟨slot, r⟩ := by
  have hstores := hslot.holds.stores hrep
  have hinner := hslot.inner
  unfold Field.readSingular
  refine .bind_of_ok rfl ?_
  cases f
  cases hstores with
  | scalar | enum =>
    refine Blames.bind (blames_read ?_) fun _ _ _ => .of_ok rfl
    exact h
  | text | blob => exact (h _).within _
  | @message type value | @group type value =>
    exact (h _ (Element.fits_getD hS rfl fun m hm =>
      hinner type rfl m (Option.mem_toList.2 hm))).within _

theorem readElement (h : f.BlamesValue S nested E r) (hslot : f.FitsIn S slot)
    (hrep : f.isRepeated = true) : Blames E (f.readElement S nested) ⟨slot, r⟩ := by
  have hcollects := hslot.holds.collects hrep
  have hinner := hslot.inner
  unfold Field.readElement
  refine .bind_of_ok rfl ?_
  cases f
  cases hcollects with
  | scalar | enum =>
    refine Blames.bind (blames_read ?_) fun value _ _ => (Repeated.blames_add _ value _).edit _ _
    exact h
  | text sound | blob sound =>
    refine blames_push trivial (fun _ _ => trivial) (fun old _ => h old) sound ?_ _
    exact fun _ => rfl
  | @message type c sound | @group type c sound =>
    refine blames_push (.blank (hS type)) (fun _ hm => hm.clear hS) h
      (sound.of_all (hinner type rfl)) ?_ _
    exact fun _ => rfl

theorem readRecord (h : f.BlamesValue S nested E r) (hslot : f.FitsIn S slot)
    (hrep : f.isRepeated = true) {tag : UInt32}
    (hahead : ∀ e t, repeatedLength tag r = .error e t → E e) :
    Blames E (f.readRecord S nested tag) ⟨slot, r⟩ := by
  unfold Field.readRecord
  refine .bind_of_ok rfl ?_
  split
  · refine (blames_read hahead).bind fun count s hs => ?_
    obtain ⟨r', hcount, rfl⟩ := Merge.read_eq_ok.1 hs
    cases repeatedLength_ok hcount
    refine (blames_slotReserve count slot r).bind fun _ s hs => ?_
    obtain ⟨slot', hslot', -, hfits⟩ | ⟨-, hnot⟩ := reserve_slot hslot hrep count r
    · cases hs.symm.trans hslot'
      exact h.readElement hS hfits hrep
    · exact absurd hs (hnot s)
  · exact h.readElement hS hslot hrep

end Field.BlamesValue

end Values

/-! ### Records -/

section Records

variable {S : Schema} (hS : S.Valid) {nested : Nested} {E : DecodeError → Prop} {type : TypeId}
  {m : Message} (hm : m.Fits S type)

include hm in
theorem blames_atSlot {α : Type} {i : Nat} {f : Field} (hf : (S.layout type).fields[i]? = some f)
    {x : Merge (Slot Message) α}
    (hx : ∀ slot, f.FitsIn S slot → Blames E x ⟨slot, r⟩) :
    Blames E (atSlot i x) ⟨m, r⟩ := by
  obtain ⟨slot, hslot⟩ := hm.exists_slot hf
  intro e t h
  rw [atSlot_apply hslot] at h
  exact (hx slot (hm.atSlot hf hslot)).within _ e t h

include hS hm in
theorem PlacedField.blames_decodeSingular {p : PlacedField}
    (hp : (S.layout type).fields[p.2]? = some p.1) (hrep : p.1.isRepeated = false)
    (h : p.1.BlamesValue S nested E r) :
    Blames E (p.decodeSingular S nested (S.layout type)) ⟨m, r⟩ := by
  unfold PlacedField.decodeSingular
  split
  · rename_i declared helement
    unfold Field.BlamesValue at h
    rw [helement] at h
    refine (blames_read h).bind fun value s _ => ?_
    split <;> exact .of_ok rfl
  · refine .bind_of_ok rfl ?_
    refine Blames.bind ?_ fun _ _ _ => .of_ok rfl
    obtain ⟨slot, hslot⟩ := hm.exists_slot hp
    have hprepared : (m.prepare S (S.layout type) p.1).slots[p.2]? = some slot :=
      (Message.Fits.getElem?_slots_prepare hp).trans hslot
    intro e t he
    rw [atSlot_apply hprepared] at he
    exact (h.readSingular hS (hm.atSlot hp hslot) hrep).within _ e t he

include hS hm in
/-- A record fails for its value, for a run, for what lies ahead or for what is skipped. -/
theorem blames_mergePayload {tag : UInt32}
    (hvalue : ∀ p form, (S.layout type).route tag = some (p, form) → form ≠ .run →
      p.1.BlamesValue S nested E r)
    (hrun : ∀ p, (S.layout type).route tag = some (p, .run) →
      ∀ slot, p.1.FitsIn S slot → Blames E (p.1.readPacked S nested) ⟨slot, r⟩)
    (hahead : ∀ p, (S.layout type).route tag = some (p, .element) →
      ∀ e t, repeatedLength tag r = .error e t → E e)
    (hskip : ∀ e t, skipField tag r = .error e t → E e) :
    Blames E (mergePayload S nested (S.layout type) tag) ⟨m, r⟩ := by
  unfold mergePayload
  cases hroute : (S.layout type).route tag with
  | none =>
    simp only
    split
    · exact .of_ok rfl
    · exact blames_read hskip
  | some target =>
    obtain ⟨p, form⟩ := target
    have hp := (Layout.route_eq_some hroute).1
    have hrep := Layout.isRepeated_of_route hroute
    cases form with
    | value =>
      exact (p.blames_decodeSingular hS hm hp hrep (hvalue p _ hroute nofun)).bind
        fun _ _ _ => .of_ok rfl
    | element =>
      refine (blames_atSlot hm hp fun slot hslot => ?_).bind fun _ _ _ => .of_ok rfl
      exact (hvalue p _ hroute nofun).readRecord hS hslot hrep (hahead p hroute)
    | run => exact (blames_atSlot hm hp (hrun p hroute)).bind fun _ _ _ => .of_ok rfl

end Records

end ProtoWire
