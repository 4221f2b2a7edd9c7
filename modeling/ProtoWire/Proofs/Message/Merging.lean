import ProtoWire.Proofs.Message.Skip

/-!
# Merging applies updates

Merging succeeds exactly where the contents can be read and applied, and leaves what applying them
makes of the view.
-/

namespace ProtoWire

section Records

variable {slot : Slot Message} {tag : UInt32} {r r' : Reader} {S : Schema} (hS : S.Valid)
  {nested : Nested} {read : Reading} {type : TypeId} {m : Message}
  (hnested : ∀ (type : TypeId) (m : Message), m.Fits S type →
    Follows (Message.view S (S.layout type)) (nested type) (read type) (applyAll S type) m)
  (hm : m.Fits S type) {p : PlacedField} (hp : (S.layout type).fields[p.2]? = some p.1)

/-! ### Singular fields -/

include hS hm hp in
theorem follows_store (hslot : m.slots[p.2]? = some slot) {x : Merge _ Unit}
    (hx : Follows (viewSlot S p.1) x (p.readUpdate read) (fun u => u.change S p.1) slot) :
    Follows (Message.view S (S.layout type))
      (Merge.within slot (fun slot m =>
        ((m.prepare S (S.layout type) p.1).setSlot p.2 slot).markPresent p.1) x)
      ((fun u => [u]) <$> p.readUpdate read) (applyAll S type) m := by
  have hstored : Follows (Message.view S (S.layout type))
      (Merge.within slot (fun slot m =>
        ((m.prepare S (S.layout type) p.1).setSlot p.2 slot).markPresent p.1) x)
      (p.readUpdate read) (fun u v => v.amend (S.layout type) p.2 (u.change S)) m := by
    refine Follows.within (fun slot =>
      (((m.view S (S.layout type)).vacate (S.layout type) p.1).setSlot p.2 slot).markPresent p.1)
      hx (hm.view_store hS hp) fun u => ?_
    simp only [Message.amend, hp, Message.getElem?_view hp, hslot, Option.map_some]
  refine (hstored.congr_apply fun r u r' hu => ?_).map _ fun _ => rfl
  rw [applyAll_singleton, p.index_readUpdate hu]

include hS hm hp in
/-- A number that an enum without default does not declare is read and dropped. -/
theorem follows_decodeEnum (hrep : p.1.isRepeated = false) {declared : List (String × Int32)}
    (helement : p.1.element = .enum declared none) :
    Follows (Message.view S (S.layout type))
      (do
        let value ← Merge.read readInt32
        if declared.any (·.2 == value) then
          Merge.update fun m =>
            ((m.prepare S (S.layout type) p.1).setSlot p.2 (.scalar .int32 value)).markPresent p.1)
      ((fun u => if p.1.element.admits u then [u] else []) <$> p.readUpdate read)
      (applyAll S type) m := by
  obtain ⟨slot, hslot⟩ := hm.exists_slot hp
  have hstores := (hm.atSlot hp hslot).holds.stores hrep
  rw [helement] at hstores
  obtain ⟨old, rfl⟩ : ∃ old, slot = .scalar .int32 old := by
    cases hstores
    exact ⟨_, rfl⟩
  have hupdate : p.readUpdate read = Update.scalar p.2 .int32 <$> readScalar .int32 := by
    unfold PlacedField.readUpdate
    rw [helement]
  have hread : Follows (Message.view S (S.layout type))
      (do
        let value ← Merge.read readInt32
        Merge.update fun m =>
          if declared.any (·.2 == value) then
            ((m.prepare S (S.layout type) p.1).setSlot p.2 (.scalar .int32 value)).markPresent p.1
          else m) readInt32
      (fun value => applyAll S type
        (if p.1.element.admits (.scalar p.2 .int32 value) then [.scalar p.2 .int32 value] else []))
      m := by
    refine Follows.of_read _ _ fun value => ?_
    have hadmits : p.1.element.admits (.scalar p.2 .int32 value) =
        declared.any (·.2 == value) := by
      rw [helement]
      rfl
    rw [hadmits]
    cases declared.any (·.2 == value) with
    | true =>
      simp only [if_true]
      rw [applyAll_singleton]
      refine hm.amend_view hS hp hslot ?_
      simp only [viewSlot, Update.change, if_true]
    | false => rfl
  rw [hupdate]
  refine ((hread.congr fun r => ?_).map (Update.scalar p.2 .int32) fun _ => rfl).map _ fun _ => rfl
  refine bind_congr_ok fun value t _ => ?_
  split <;> rfl

include hS hnested hm hp in
/-- Reading the value of a singular field. -/
theorem PlacedField.follows_decodeSingular (hrep : p.1.isRepeated = false) :
    Follows (Message.view S (S.layout type)) (p.decodeSingular S nested (S.layout type))
      ((fun u => if p.1.element.admits u then [u] else []) <$> p.readUpdate read)
      (applyAll S type) m := by
  obtain ⟨slot, hslot⟩ := hm.exists_slot hp
  have hfits := hm.atSlot hp hslot
  have hstore := follows_store hS hm hp hslot (p.follows_readSingular hS hnested hfits hrep)
  unfold PlacedField.decodeSingular
  split
  · rename_i declared helement
    exact follows_decodeEnum hS hm hp hrep helement
  · rename_i helement
    have hadmits : ∀ u, p.1.element.admits u = true := by
      intro u
      unfold Element.admits
      split
      · exact absurd ‹_› (helement _)
      · rfl
    simp only [hadmits, if_true]
    refine hstore.congr_ok fun r t => ?_
    have hprepared : (m.prepare S (S.layout type) p.1).slots[p.2]? = some slot :=
      (Message.Fits.getElem?_slots_prepare hp).trans hslot
    rw [bind_of_ok (show Merge.update (Message.prepare S (S.layout type) p.1) ⟨m, r⟩ =
      .ok () ⟨m.prepare S (S.layout type) p.1, r⟩ from rfl), Merge.within_eq_ok, bind_eq_ok]
    constructor
    · rintro ⟨_, s, hs, ⟨⟩⟩
      rw [atSlot_apply hprepared] at hs
      obtain ⟨⟨slot', r'⟩, hx, rfl⟩ := Merge.within_eq_ok.1 hs
      exact ⟨⟨slot', r'⟩, hx, rfl⟩
    · rintro ⟨⟨slot', r'⟩, hx, rfl⟩
      refine ⟨(), ⟨(m.prepare S (S.layout type) p.1).setSlot p.2 slot', r'⟩, ?_, rfl⟩
      rw [atSlot_apply hprepared]
      exact Merge.within_eq_ok.2 ⟨⟨slot', r'⟩, hx, rfl⟩

/-! ### Repeated fields -/

include hm hp in
theorem follows_atSlot (hrep : p.1.isRepeated = true) (hslot : m.slots[p.2]? = some slot)
    {x : Merge (Slot Message) Unit} {y : Read (List Update)}
    (hx : Follows (viewSlot S p.1) x y (changeAll S p.1) slot)
    (hy : ∀ r us r', y r = .ok us r' → ∀ u ∈ us, u.index = p.2) :
    Follows (Message.view S (S.layout type)) (atSlot p.2 x) y (applyAll S type) m := by
  have hstored : Follows (Message.view S (S.layout type))
      (Merge.within slot (fun slot m => m.setSlot p.2 slot) x) y
      (fun us v => (changeAll S p.1 us (viewSlot S p.1 slot)).map (v.setSlot p.2)) m :=
    Follows.within ((m.view S (S.layout type)).setSlot p.2) hx
      (fun slot' => Message.view_setSlot hp slot' hm.length) fun _ => rfl
  refine (hstored.congr_apply fun r us r' hus => ?_).congr fun r => ?_
  · exact applyAll_eq_changeAll hp hrep (Message.slot_view hp hslot) (hy r us r' hus)
  · exact atSlot_apply hslot x

variable (hkeeps : ∀ type, KeepsTarget (Message.Fits S type) (nested type))

include hS hnested hm hp hkeeps in
theorem PlacedField.follows_decodePacked (hrep : p.1.isRepeated = true)
    (hpack : p.1.element.category.isPackable = true) :
    Follows (Message.view S (S.layout type)) (atSlot p.2 (p.1.readPacked S nested))
      (p.readPackedUpdates read) (applyAll S type) m := by
  obtain ⟨slot, hslot⟩ := hm.exists_slot hp
  have hfits := hm.atSlot hp hslot
  exact follows_atSlot hm hp hrep hslot
    (p.follows_readPacked hS hnested hkeeps hfits hrep hpack)
    fun _ _ _ => p.index_readPackedUpdates

include hS hnested in
theorem PlacedField.readRecord_sound (hrep : p.1.isRepeated = true) {slot' : Slot Message}
    (hfits : p.1.FitsIn S slot) (h : p.1.readRecord S nested tag ⟨slot, r⟩ = .ok () ⟨slot', r'⟩) :
    ∃ u, p.readUpdate read r = .ok u r' ∧
      u.change S p.1 (viewSlot S p.1 slot) = some (viewSlot S p.1 slot') := by
  unfold Field.readRecord at h
  rw [bind_of_ok (Merge.target_apply slot r)] at h
  split at h
  · obtain ⟨n, r₁, hcount, h⟩ := Merge.read_bind_eq_ok.1 h
    cases repeatedLength_ok hcount
    obtain ⟨_, s, hs, h⟩ := bind_eq_ok.1 h
    obtain ⟨slot₁, hslot₁, hview, hfits⟩ | ⟨-, hnot⟩ := reserve_slot hfits hrep n r
    · cases hs.symm.trans hslot₁
      rw [← hview]
      exact (p.follows_readElement hS hnested hfits hrep r r' _).1 ⟨slot', h, rfl⟩
    · exact absurd hs (hnot s)
  · exact (p.follows_readElement hS hnested hfits hrep r r' _).1 ⟨slot', h, rfl⟩

include hS hnested in
/-- Room can be made if there is some for what looking ahead counts. -/
theorem PlacedField.readRecord_complete (hrep : p.1.isRepeated = true) {v : Slot Message}
    (hfits : p.1.FitsIn S slot) {u : Update} (hu : p.readUpdate read r = .ok u r')
    (hv : u.change S p.1 (viewSlot S p.1 slot) = some v) {n : Nat}
    (hcount : repeatedLength tag r = .ok n r) (hroom : n ≤ slot.room) :
    ∃ slot', p.1.readRecord S nested tag ⟨slot, r⟩ = .ok () ⟨slot', r'⟩ ∧
      viewSlot S p.1 slot' = v := by
  unfold Field.readRecord
  rw [bind_of_ok (Merge.target_apply slot r)]
  split
  · obtain ⟨slot₁, hslot₁, hview, hfits⟩ | ⟨hlt, -⟩ := reserve_slot hfits hrep n r
    · rw [← hview] at hv
      rw [bind_of_ok (Merge.read_of_ok hcount), bind_of_ok (x := Watch.reserve n) hslot₁]
      exact (p.follows_readElement hS hnested hfits hrep r r' v).2 ⟨u, hu, hv⟩
    · omega
  · exact (p.follows_readElement hS hnested hfits hrep r r' v).2 ⟨u, hu, hv⟩

include hp in
theorem applyAll_element (hrep : p.1.isRepeated = true) (hslot : m.slots[p.2]? = some slot)
    {u : Update} (hindex : u.index = p.2) :
    applyAll S type [u] (m.view S (S.layout type)) =
      (u.change S p.1 (viewSlot S p.1 slot)).map ((m.view S (S.layout type)).setSlot p.2) := by
  rw [applyAll_eq_changeAll hp hrep (Message.slot_view hp hslot) (by simpa using hindex),
    changeAll_singleton]

/-! ### Payloads -/

theorem Layout.Valid.isPackable_of_route {L : Layout} (hL : L.Valid)
    (h : L.route tag = some (p, .run)) : p.1.element.category.isPackable = true := by
  obtain ⟨hp, ⟨-, hform⟩ | ⟨htag, -⟩⟩ := L.route_eq_some h
  · refine hL.packed p.1 (List.mem_of_getElem? hp) ?_
    unfold Field.primaryForm at hform
    split at hform
    · rename_i hplacement
      rw [hplacement]
      rfl
    all_goals cases hform
  · obtain ⟨packed, -, hpack, -⟩ := Field.alternateTag?_eq_some htag
    exact hpack

include hS hnested hm hkeeps

/-- A payload that is merged can be read and applied. -/
theorem mergePayload_sound {more : Bool} {m' : Message}
    (h : mergePayload S nested (S.layout type) tag ⟨m, r⟩ = .ok more ⟨m', r'⟩) :
    ∃ us, readPayload read (S.layout type) tag r = .ok (us, more) r' ∧
      applyAll S type us (m.view S (S.layout type)) = some (m'.view S (S.layout type)) := by
  unfold mergePayload at h
  unfold readPayload
  cases hroute : (S.layout type).route tag with
  | none =>
    simp only [hroute] at h ⊢
    by_cases htag : tag = 0
    · simp only [htag, if_true] at h ⊢
      cases h
      exact ⟨[], rfl, by rw [applyAll]⟩
    · simp only [htag, if_false] at h ⊢
      obtain ⟨r₁, hskip, heq⟩ := Merge.read_eq_ok.1 h
      cases heq
      exact ⟨[], by rw [bind_of_ok hskip]; rfl, by rw [applyAll]⟩
  | some target =>
    obtain ⟨p, form⟩ := target
    have hp := (Layout.route_eq_some hroute).1
    have hrep := Layout.isRepeated_of_route hroute
    cases form with
    | value =>
      simp only [hroute] at h ⊢
      obtain ⟨_, ⟨m₁, r₁⟩, hdecode, h⟩ := bind_eq_ok.1 h
      cases h
      obtain ⟨us, hus, happly⟩ :=
        (p.follows_decodeSingular hS hnested hm hp hrep r r' _).1 ⟨m', hdecode, rfl⟩
      obtain ⟨u, hu, rfl⟩ := map_eq_ok.1 hus
      exact ⟨_, by rw [bind_of_ok hu]; rfl, happly⟩
    | run =>
      simp only [hroute] at h ⊢
      obtain ⟨_, ⟨m₁, r₁⟩, hdecode, h⟩ := bind_eq_ok.1 h
      cases h
      obtain ⟨us, hus, happly⟩ := (p.follows_decodePacked hS hnested hm hp hkeeps hrep
        ((hS type).isPackable_of_route hroute) r r' _).1 ⟨m', hdecode, rfl⟩
      exact ⟨us, by rw [bind_of_ok hus]; rfl, happly⟩
    | element =>
      simp only [hroute] at h ⊢
      obtain ⟨_, ⟨m₁, r₁⟩, hdecode, h⟩ := bind_eq_ok.1 h
      cases h
      obtain ⟨slot, hslot⟩ := hm.exists_slot hp
      rw [atSlot_apply hslot] at hdecode
      obtain ⟨⟨slot', r₂⟩, hrecord, heq⟩ := Merge.within_eq_ok.1 hdecode
      cases heq
      obtain ⟨u, hu, hchange⟩ :=
        p.readRecord_sound hS hnested hrep (hm.atSlot hp hslot) hrecord
      refine ⟨[u], by rw [bind_of_ok hu]; rfl, ?_⟩
      rw [applyAll_element hp hrep hslot (p.index_readUpdate hu), hchange, Option.map_some,
        Message.view_setSlot hp slot' hm.length]

/-- A payload that can be read and applied is merged, if there is room for what looking ahead
counts. -/
theorem mergePayload_complete {us : List Update} {more : Bool} {v : Message}
    (hread : readPayload read (S.layout type) tag r = .ok (us, more) r')
    (hv : applyAll S type us (m.view S (S.layout type)) = some v)
    (hahead : ∀ (p : PlacedField) (slot : Slot Message),
      (S.layout type).route tag = some (p, .element) → m.slots[p.2]? = some slot →
        ∃ n, repeatedLength tag r = .ok n r ∧ n ≤ slot.room) :
    ∃ m', mergePayload S nested (S.layout type) tag ⟨m, r⟩ = .ok more ⟨m', r'⟩ ∧
      m'.view S (S.layout type) = v := by
  unfold readPayload at hread
  unfold mergePayload
  cases hroute : (S.layout type).route tag with
  | none =>
    simp only [hroute] at hread ⊢
    by_cases htag : tag = 0
    · simp only [htag, if_true] at hread ⊢
      cases hread
      rw [applyAll, Option.some.injEq] at hv
      exact ⟨m, rfl, hv⟩
    · simp only [htag, if_false] at hread ⊢
      obtain ⟨more', r₁, hskip, hread⟩ := bind_eq_ok.1 hread
      cases hread
      rw [applyAll, Option.some.injEq] at hv
      exact ⟨m, Merge.read_of_ok hskip, hv⟩
  | some target =>
    obtain ⟨p, form⟩ := target
    have hp := (Layout.route_eq_some hroute).1
    have hrep := Layout.isRepeated_of_route hroute
    cases form with
    | value =>
      simp only [hroute] at hread ⊢
      obtain ⟨u, r₁, hu, hread⟩ := bind_eq_ok.1 hread
      cases hread
      obtain ⟨m', hdecode, hview⟩ := (p.follows_decodeSingular hS hnested hm hp hrep r r' v).2
        ⟨_, map_eq_ok.2 ⟨u, hu, rfl⟩, hv⟩
      exact ⟨m', by rw [bind_of_ok hdecode]; rfl, hview⟩
    | run =>
      simp only [hroute] at hread ⊢
      obtain ⟨us', r₁, hus, hread⟩ := bind_eq_ok.1 hread
      cases hread
      obtain ⟨m', hdecode, hview⟩ := (p.follows_decodePacked hS hnested hm hp hkeeps hrep
        ((hS type).isPackable_of_route hroute) r r' v).2 ⟨us, hus, hv⟩
      exact ⟨m', by rw [bind_of_ok hdecode]; rfl, hview⟩
    | element =>
      simp only [hroute] at hread ⊢
      obtain ⟨u, r₁, hu, hread⟩ := bind_eq_ok.1 hread
      cases hread
      obtain ⟨slot, hslot⟩ := hm.exists_slot hp
      obtain ⟨n, hcount, hroom⟩ := hahead p slot hroute hslot
      rw [applyAll_element hp hrep hslot (p.index_readUpdate hu), Option.map_eq_some_iff] at hv
      obtain ⟨w, hw, rfl⟩ := hv
      obtain ⟨slot', hrecord, rfl⟩ := p.readRecord_complete hS hnested hrep (hm.atSlot hp hslot) hu
        hw hcount hroom
      refine ⟨m.setSlot p.2 slot', ?_, Message.view_setSlot hp slot' hm.length⟩
      have hstored : atSlot p.2 (p.1.readRecord S nested tag) ⟨m, r⟩ =
          .ok () ⟨m.setSlot p.2 slot', r'⟩ := by
        rw [atSlot_apply hslot]
        exact Merge.within_eq_ok.2 ⟨⟨slot', r'⟩, hrecord, rfl⟩
      rw [bind_of_ok hstored]
      rfl

/-- Merging records applies what they say. -/
theorem follows_mergeRecords (hread : Skippable read) (fuel : Nat) (tag : UInt32) :
    Follows (Message.view S (S.layout type)) (mergeRecords S nested (S.layout type) fuel tag)
      (readRecords read (S.layout type) fuel tag) (applyAll S type) m := by
  induction fuel generalizing m tag with
  | zero =>
    intro r r' v
    constructor
    · rintro ⟨_, ⟨⟩, -⟩
    · rintro ⟨_, ⟨⟩, -⟩
  | succ fuel ih =>
    have hkeep : KeepsTarget (Message.Fits S type) (mergePayload S nested (S.layout type) tag) :=
      keeps_mergePayload hS hkeeps tag
    intro r r' v
    constructor
    · rintro ⟨m', h, hv⟩
      obtain ⟨more, ⟨m₁, r₁⟩, hpayload, h⟩ := bind_eq_ok.1 h
      obtain ⟨us, hus, happly⟩ := mergePayload_sound hS hnested hm hkeeps hpayload
      have hm₁ : m₁.Fits S type := by simpa only [hpayload] using hkeep ⟨m, r⟩ hm
      unfold readRecords
      rw [bind_of_ok hus]
      cases more with
      | false =>
        cases h
        exact ⟨us, rfl, hv ▸ happly⟩
      | true =>
        obtain ⟨next, r₂, hnext, h⟩ := Merge.read_bind_eq_ok.1 h
        obtain ⟨us', hus', happly'⟩ := (ih hm₁ next r₂ r' v).1 ⟨m', h, hv⟩
        refine ⟨us ++ us', ?_, ?_⟩
        · simp only [if_true]
          rw [bind_of_ok hnext, bind_of_ok hus']
          rfl
        · rw [applyAll_append, happly, Option.bind_some, happly']
    · rintro ⟨us, hus, hv⟩
      -- Looking ahead sees no more records than are to be applied, hence there is room.
      have hahead : ∀ (p : PlacedField) (slot : Slot Message),
          (S.layout type).route tag = some (p, .element) → m.slots[p.2]? = some slot →
            ∃ n, repeatedLength tag r = .ok n r ∧ n ≤ slot.room := by
        intro p slot hroute hslot
        obtain ⟨n, hcount, hle⟩ := exists_repeatedLength hread (hS type) hroute hus
        have hp := (Layout.route_eq_some hroute).1
        have hrep : p.1.isRepeated = true := Layout.isRepeated_of_route hroute
        have hfits := hm.atSlot hp hslot
        have hroom := countP_le_room hp hrep (Message.slot_view hp hslot)
          (isContainer_viewSlot hfits hrep) hv
        rw [room_viewSlot hfits] at hroom
        exact ⟨n, hcount, Nat.le_trans hle hroom⟩
      obtain ⟨⟨us₁, more⟩, r₁, hpayload, hus⟩ := bind_eq_ok.1 hus
      cases more with
      | false =>
        cases hus
        obtain ⟨m', hmerge, hview⟩ := mergePayload_complete hS hnested hm hkeeps hpayload hv hahead
        refine ⟨m', ?_, hview⟩
        unfold mergeRecords
        rw [bind_of_ok hmerge]
        rfl
      | true =>
        obtain ⟨next, r₂, hnext, hus⟩ := bind_eq_ok.1 hus
        obtain ⟨us₂, r₃, hrest, hus⟩ := bind_eq_ok.1 hus
        cases hus
        rw [applyAll_append, Option.bind_eq_some_iff] at hv
        obtain ⟨w, hw, hv⟩ := hv
        obtain ⟨m₁, hmerge, rfl⟩ := mergePayload_complete hS hnested hm hkeeps hpayload hw hahead
        have hm₁ : m₁.Fits S type := by simpa only [hmerge] using hkeep ⟨m, r⟩ hm
        obtain ⟨m', hmerge', hview⟩ := (ih hm₁ next r₂ _ v).2 ⟨us₂, hrest, hv⟩
        refine ⟨m', ?_, hview⟩
        unfold mergeRecords
        rw [bind_of_ok hmerge]
        simp only [if_true]
        rw [bind_of_ok (Merge.read_of_ok hnext), hmerge']

end Records

/-! ### Messages -/

section Messages

variable {S : Schema} (hS : S.Valid) (order : FieldOrder)

include hS

/-- By induction on the fuel: what is nested has less of it. -/
theorem follows_mergeWithin (fuel : Nat) (type : TypeId) (m : Message) (hm : m.Fits S type) :
    Follows (Message.view S (S.layout type)) (mergeWithin S order fuel type)
      (readWithin S fuel type) (applyAll S type) m := by
  induction fuel generalizing type m with
  | zero =>
    intro r r' v
    constructor
    · rintro ⟨_, ⟨⟩, -⟩
    · rintro ⟨_, ⟨⟩, -⟩
  | succ fuel ih =>
    have hrecords := fun fuel' tag => follows_mergeRecords hS ih hm
      (keeps_mergeWithin hS order fuel) (skippable_readWithin hS fuel) fuel' tag
    have hnested := composed_mergeWithin (fun t => (hS t).routed) order fuel
    intro r r' v
    rw [mergeWithin, mergeFields_eq hnested (hS type).routed, readWithin]
    cases htag : readTag r with
    | error e t => simp [bind_of_error (Merge.read_of_error htag), bind_of_error htag]
    | ok tag t =>
      rw [bind_of_ok (Merge.read_of_ok htag), bind_of_ok htag]
      exact hrecords _ tag t r' v

theorem follows_mergeMessage (type : TypeId) {m : Message} (hm : m.Fits S type) :
    Follows (Message.view S (S.layout type)) (mergeMessage S order type) (readContents S type)
      (applyAll S type) m := by
  intro r r' v
  unfold mergeMessage readContents
  rw [bind_of_ok (Merge.read_of_ok get_apply)]
  exact follows_mergeWithin hS order _ type m hm r r' v

end Messages

end ProtoWire
