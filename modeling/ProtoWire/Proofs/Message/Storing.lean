import ProtoWire.Proofs.Message.Contents
import ProtoWire.Proofs.Message.Keeps
import ProtoWire.Proofs.Wire.Lookahead

/-!
# Storing values in a slot

Reading values into the slot of a field stores what reads as updates, as far as the view tells.
-/

namespace ProtoWire

section Slots

variable {type : TypeId} {f : Field} {α : Type} {x : Merge α Unit}
  {k : Slot Message → Merge (Slot Message) Unit} {S : Schema} (hS : S.Valid) {nested : Nested}
  {read : Reading} (hnested : ∀ (type : TypeId) (m : Message), m.Fits S type →
    Follows (Message.view S (S.layout type)) (nested type) (read type) (applyAll S type) m)
  {p : PlacedField} {slot : Slot Message}

/-! ### Singular values -/

/-- A message that was never touched looks like a blank one. -/
theorem getD_bind_trim {value : Option Message} (hvalue : ∀ m ∈ value, m.Fits S type) :
    (value.bind fun m => S.trim type (m.view S (S.layout type))).getD (S.blank type) =
      (value.getD (S.blank type)).view S (S.layout type) := by
  cases value with
  | none => exact Message.view_blank.symm
  | some m => exact (hvalue m rfl).getD_trim

theorem follows_leaf {value : α} {y : Read α} {store : α → Slot Message}
    (h : Follows id x y (fun a _ => some a) value) (update : α → Update)
    (hview : ∀ a, viewSlot S f (store a) = store a)
    (hchange : ∀ a, (update a).change S f (store value) = some (store a)) :
    Follows (viewSlot S f) (Merge.within value (fun a _ => store a) x) (update <$> y)
      (fun u => u.change S f) (store value) := by
  have hread : Follows (viewSlot S f) (Merge.within value (fun a _ => store a) x) y
      (fun a slot => (update a).change S f slot) (store value) := by
    refine Follows.within store h hview fun a => ?_
    rw [hview, hchange, Option.map_some]
  exact hread.map update fun _ => rfl

include hS hnested in
theorem Field.follows_readSub (htype : f.element.type? = some type) {value : Option Message}
    (hvalue : ∀ m ∈ value, m.Fits S type) (i : Nat) :
    Follows (viewSlot S f)
      (Merge.within (value.getD (f.element.blank S)) (fun m _ => .sub (some m))
        (f.readNested nested))
      (Update.message i <$> f.readContents read) (fun u => u.change S f) (.sub value) := by
  have hfits : (value.getD (f.element.blank S)).Fits S type :=
    Element.fits_getD hS htype hvalue
  have hread : Follows (viewSlot S f)
      (Merge.within (value.getD (f.element.blank S)) (fun m _ => .sub (some m))
        (f.readNested nested)) (f.readContents read)
      (fun us slot => (Update.message i us).change S f slot) (.sub value) := by
    refine Follows.within (fun m => .sub (S.trim type m))
      (f.follows_readNested htype (hnested type _ hfits)) (fun m => ?_) fun us => ?_
    · rw [viewSlot_sub htype, Option.bind_some]
    · rw [viewSlot_sub htype, Update.change, htype, Element.blank_eq htype]
      simp only
      rw [getD_bind_trim hvalue]
  exact hread.map (Update.message i) fun _ => rfl

include hS hnested in
theorem PlacedField.follows_readSingular (hslot : p.1.FitsIn S slot)
    (hrep : p.1.isRepeated = false) :
    Follows (viewSlot S p.1) (p.1.readSingular S nested) (p.readUpdate read)
      (fun u => u.change S p.1) slot := by
  have hstores := hslot.holds.stores hrep
  have hinner := hslot.inner
  have hscalar : ∀ (kind : Scalar) (value : kind.Value), slot = .scalar kind value →
      Follows (viewSlot S p.1) (p.1.readSingular S nested)
        (Update.scalar p.2 kind <$> readScalar kind) (fun u => u.change S p.1) slot := by
    rintro kind value rfl
    have hread : Follows (viewSlot S p.1)
        (do
          let value ← Merge.read (readScalar kind)
          Merge.update fun _ => .scalar kind value) (readScalar kind)
        (fun value slot => (Update.scalar p.2 kind value).change S p.1 slot)
        (.scalar kind value) := by
      refine Follows.of_read _ (fun value _ => Slot.scalar kind value) fun value => ?_
      simp only [viewSlot, Update.change, if_true]
    exact (hread.map (Update.scalar p.2 kind) fun _ => rfl).congr fun _ => rfl
  obtain ⟨⟨⟩, i⟩ := p
  cases hstores with
  | @scalar kind _ value => exact hscalar kind value rfl
  | @enum _ _ value => exact hscalar .int32 value rfl
  | @text _ value =>
    exact (follows_leaf (follows_readTextInto value) (Update.text i) (fun _ => rfl)
      fun _ => rfl).congr fun _ => rfl
  | @blob _ value =>
    exact (follows_leaf (follows_readBlobInto value) (Update.blob i) (fun _ => rfl)
      fun _ => rfl).congr fun _ => rfl
  | @message type value | @group type value =>
    exact (Field.follows_readSub hS hnested rfl
      (fun m hm => hinner type rfl m (Option.mem_toList.2 hm)) i).congr fun _ => rfl

/-! ### Repeated values -/

/-- Appending an element and reading it in place. It starts as the default, or as a retained one
after resetting it, which look the same. -/
theorem follows_push {β τ : Type} (view : α → τ) (apply : β → τ → Option τ) (v₀ : τ) {size : Nat}
    {P : α → Prop} {store : Repeated α → Slot Message} (shown : List τ → Slot Message)
    (hview : ∀ c, viewSlot S f (store c) = shown (c.values.map view)) {default : α} {reset : α → α}
    {y : Read β} {c : Repeated α} (hc : c.Sound size P)
    (hx : ∀ a, (a = default ∨ ∃ element ∈ c.retained, a = reset element) →
      view a = v₀ ∧ Follows view x y apply a) {update : β → Update}
    (hchange : ∀ b, (update b).change S f (shown (c.values.map view)) =
      (apply b v₀).bind fun v =>
        if c.values.length < Repeated.maxCapacity size then some (shown (c.values.map view ++ [v]))
        else none) (hk : ∀ c, k (store c) = Slot.atLast default store c x) :
    Follows (viewSlot S f)
      (do
        Merge.edit c (fun c _ => store c) (Repeated.pushRecycled size default reset)
        k (← Merge.target)) (update <$> y) (fun u => u.change S f) (store c) := by
  -- What reading in place makes of the container, once the element is there.
  have hplace : ∀ (c' : Repeated α) (a : α) (r r' : Reader) (slot : Slot Message),
      c'.values = c.values ++ [a] →
      ((k (store c')) ⟨store c', r⟩ = .ok () ⟨slot, r'⟩ ↔
        ∃ a', x ⟨a, r⟩ = .ok () ⟨a', r'⟩ ∧ slot = store (c'.modifyLast fun _ => a')) := by
    intro c' a r r' slot hvalues
    rw [hk, Slot.atLast, Merge.within_eq_ok, hvalues, List.getLast?_concat, Option.getD_some]
    constructor
    · rintro ⟨⟨a', _⟩, hx, ⟨⟩⟩
      exact ⟨a', hx, rfl⟩
    · rintro ⟨a', hx, rfl⟩
      exact ⟨⟨a', r'⟩, hx, rfl⟩
  have hshown : ∀ (c' : Repeated α) (a a' : α), c'.values = c.values ++ [a] →
      viewSlot S f (store (c'.modifyLast fun _ => a')) = shown (c.values.map view ++ [view a']) := by
    intro c' a a' hvalues
    rw [hview, Repeated.modifyLast_values hvalues, List.map_append, List.map_singleton]
  have hstored : ∀ b, (update b).change S f (viewSlot S f (store c)) = _ := fun b =>
    (congrArg _ (hview c)).trans (hchange b)
  intro r r' v
  constructor
  · rintro ⟨t, ht, rfl⟩
    obtain ⟨_, s, hs, ht⟩ := bind_eq_ok.1 ht
    obtain ⟨c', hpush, rfl⟩ := Merge.edit_eq_ok.1 hs
    obtain ⟨a, hvalues, hfresh⟩ := Repeated.pushRecycled_values hpush
    obtain ⟨hv₀, hfollows⟩ := hx a hfresh
    have hroom := (Repeated.pushRecycled_ok hc).1 ⟨c', hpush⟩
    rw [bind_of_ok (Merge.target_apply _ r)] at ht
    obtain ⟨a', hread, rfl⟩ := (hplace c' a r r' t hvalues).1 ht
    obtain ⟨b, hb, happly⟩ := (hfollows r r' (view a')).1 ⟨a', hread, rfl⟩
    refine ⟨update b, map_eq_ok.2 ⟨b, hb, rfl⟩, (hstored b).trans ?_⟩
    rw [← hv₀, happly, Option.bind_some, if_pos hroom, hshown c' a a' hvalues]
  · rintro ⟨u, hu, hv⟩
    obtain ⟨b, hb, rfl⟩ := map_eq_ok.1 hu
    obtain ⟨w, happly, hv⟩ := Option.bind_eq_some_iff.1 ((hstored b).symm.trans hv)
    obtain ⟨hroom, hv⟩ := Option.ite_none_right_eq_some.1 hv
    obtain ⟨c', hpush⟩ : ∃ c', Repeated.pushRecycled size default reset c = .ok () c' :=
      (Repeated.pushRecycled_ok hc).2 hroom
    obtain ⟨a, hvalues, hfresh⟩ := Repeated.pushRecycled_values hpush
    obtain ⟨hv₀, hfollows⟩ := hx a hfresh
    obtain ⟨a', hread, rfl⟩ := (hfollows r r' w).2 ⟨b, hb, hv₀ ▸ happly⟩
    refine ⟨store (c'.modifyLast fun _ => a'), ?_, ?_⟩
    · rw [bind_of_ok (Merge.edit_eq_ok.2 ⟨c', hpush, rfl⟩)]
      exact (hplace c' a r r' _ hvalues).2 ⟨a', hread, rfl⟩
    · rw [hshown c' a a' hvalues, ← Option.some.inj hv]

theorem follows_add {kind : Scalar} {c : Repeated kind.Value} {P : kind.Value → Prop}
    (hc : c.Sound kind.storageSize P) (i : Nat) :
    Follows (viewSlot S f)
      (do
        let value ← Merge.read (readScalar kind)
        Merge.edit c (fun c _ => .scalars kind c) (Repeated.add kind.storageSize value))
      (Update.scalar i kind <$> readScalar kind) (fun u => u.change S f) (.scalars kind c) := by
  have hchange : ∀ value, (Update.scalar i kind value).change S f (viewSlot S f (.scalars kind c)) =
      if c.values.length < Repeated.maxCapacity kind.storageSize then
        some (.scalars kind (.ofList (c.values ++ [value])))
      else none := by
    intro value
    simp only [viewSlot, Update.change, dif_pos, Repeated.push, Repeated.ofList]
    split <;> rfl
  intro r r' v
  constructor
  · rintro ⟨t, ht, rfl⟩
    obtain ⟨value, r₁, hread, ht⟩ := Merge.read_bind_eq_ok.1 ht
    obtain ⟨c', hadd, heq⟩ := Merge.edit_eq_ok.1 ht
    cases heq
    have hroom := (Repeated.add_ok hc).1 ⟨c', hadd⟩
    refine ⟨.scalar i kind value, map_eq_ok.2 ⟨value, hread, rfl⟩, (hchange value).trans ?_⟩
    rw [if_pos hroom, viewSlot, Repeated.add_values hadd]
  · rintro ⟨u, hu, hv⟩
    obtain ⟨value, hread, rfl⟩ := map_eq_ok.1 hu
    obtain ⟨hroom, hv⟩ := Option.ite_none_right_eq_some.1 ((hchange value).symm.trans hv)
    obtain ⟨c', hadd⟩ : ∃ c', Repeated.add kind.storageSize value c = .ok () c' :=
      (Repeated.add_ok hc).2 hroom
    refine ⟨.scalars kind c', Merge.read_bind_eq_ok.2 ⟨value, r', hread, ?_⟩, ?_⟩
    · exact Merge.edit_eq_ok.2 ⟨c', hadd, rfl⟩
    · rw [viewSlot, Repeated.add_values hadd, ← Option.some.inj hv]

include hS hnested in
theorem Field.follows_readSubs (htype : f.element.type? = some type) {c : Repeated Message}
    (hc : c.Sound messageSize (Message.Fits S type)) (i : Nat)
    (hk : ∀ c, k (.subs c) = Slot.atLast (f.element.blank S) .subs c (f.readNested nested)) :
    Follows (viewSlot S f)
      (do
        Merge.edit c (fun c _ => .subs c)
          (Repeated.pushRecycled messageSize (f.element.blank S) (f.element.clearMessage S))
        k (← Merge.target))
      (Update.message i <$> f.readContents read) (fun u => u.change S f) (.subs c) := by
  have hfresh : ∀ m : Message,
      (m = f.element.blank S ∨ ∃ m' ∈ c.retained, m = f.element.clearMessage S m') →
        m.view S (S.layout type) = S.blank type ∧ m.Fits S type := by
    rintro m (rfl | ⟨m', hm', rfl⟩)
    · rw [Element.blank_eq htype]
      exact ⟨Message.view_blank, .blank (hS type)⟩
    · rw [Element.clearMessage_eq htype]
      exact ⟨Message.view_clear hS (hc.retained m' hm'), (hc.retained m' hm').clear hS⟩
  refine follows_push (Message.view S (S.layout type)) (applyAll S type) (S.blank type)
    (fun ms => .subs (.ofList ms)) (viewSlot_subs htype) hc (fun m hm => ?_) (fun us => ?_) hk
  · obtain ⟨hview, hfits⟩ := hfresh m hm
    exact ⟨hview, f.follows_readNested htype (hnested type m hfits)⟩
  · rw [Update.change, htype]
    simp only [Repeated.push, Repeated.ofList, List.length_map]
    refine congrArg _ (funext fun m => ?_)
    split <;> rfl

theorem follows_pushLeaf {size : Nat} {store : Repeated α → Slot Message} {empty : α} {y : Read α}
    (hx : Follows id x y (fun a _ => some a) empty) {c : Repeated α}
    (hc : c.Sound size fun _ => True) (update : α → Update)
    (hview : ∀ c, viewSlot S f (store c) = store (.ofList c.values))
    (hchange : ∀ a c, (update a).change S f (store c) = (c.push size a).map store)
    (hk : ∀ c, k (store c) = Slot.atLast empty store c x) :
    Follows (viewSlot S f)
      (do
        Merge.edit c (fun c _ => store c) (Repeated.pushRecycled size empty fun _ => empty)
        k (← Merge.target)) (update <$> y) (fun u => u.change S f) (store c) := by
  refine follows_push id (fun a _ => some a) empty (fun values => store (.ofList values))
    (fun c => ?_) hc ?_ (fun a => ?_) hk
  · rw [hview, List.map_id]
  · rintro a (rfl | ⟨_, -, rfl⟩)
    · exact ⟨rfl, hx⟩
    · exact ⟨rfl, hx⟩
  · rw [hchange, Option.bind_some, List.map_id, Repeated.push, Repeated.ofList]
    split <;> rfl

include hS hnested in
/-- Reading one more value of a repeated field. -/
theorem PlacedField.follows_readElement (hslot : p.1.FitsIn S slot)
    (hrep : p.1.isRepeated = true) :
    Follows (viewSlot S p.1) (p.1.readElement S nested) (p.readUpdate read)
      (fun u => u.change S p.1) slot := by
  have hcollects := hslot.holds.collects hrep
  have hinner := hslot.inner
  obtain ⟨⟨⟩, i⟩ := p
  cases hcollects with
  | scalar sound | enum sound => exact (follows_add sound i).congr fun _ => rfl
  | text sound =>
    refine (follows_pushLeaf (follows_readTextInto "") sound (Update.text i) (fun _ => rfl)
      (fun _ _ => rfl) ?_).congr fun _ => rfl
    exact fun _ => rfl
  | blob sound =>
    refine (follows_pushLeaf (follows_readBlobInto []) sound (Update.blob i) (fun _ => rfl)
      (fun _ _ => rfl) ?_).congr fun _ => rfl
    exact fun _ => rfl
  | @message type c sound | @group type c sound =>
    refine (Field.follows_readSubs hS hnested rfl (sound.of_all (hinner type rfl)) i ?_).congr
      fun _ => rfl
    exact fun _ => rfl

/-! ### Room -/

theorem room_viewSlot (hslot : f.FitsIn S slot) : (viewSlot S f slot).room = slot.room := by
  cases hslot.shape with
  | subs _ htype => simp [viewSlot_subs htype, Slot.room, Repeated.ofList]
  | sub _ htype => rw [viewSlot_sub htype]; rfl
  | scalar | text | blob | scalars | texts | blobs => rfl

theorem isContainer_viewSlot (hslot : f.FitsIn S slot) (hrep : f.isRepeated = true) :
    (viewSlot S f slot).isContainer = true := by
  cases hslot.shape with
  | subs _ htype => rw [viewSlot_subs htype]; rfl
  | scalars | texts | blobs => rfl
  | scalar hone | text hone | blob hone | sub hone => simp [hrep] at hone

/-- Room for values is made where memory can hold them, and is not seen. -/
theorem reserve_slot (hslot : f.FitsIn S slot) (hrep : f.isRepeated = true) (n : Nat) (r : Reader) :
    (∃ slot', Slot.reserve n ⟨slot, r⟩ = .ok () ⟨slot', r⟩ ∧
        viewSlot S f slot' = viewSlot S f slot ∧ f.FitsIn S slot') ∨
      (slot.room < n ∧ ∀ s, Slot.reserve n ⟨slot, r⟩ ≠ .ok () s) := by
  have hkeeps := keeps_reserve n ⟨slot, r⟩ hslot
  -- All four kinds of containers make room in the same way.
  have hreserve : ∀ {α : Type} {size : Nat} {P : α → Prop} {c : Repeated α}
      {store : Repeated α → Slot Message}, c.Sound size P → slot = store c →
      Slot.reserve n ⟨slot, r⟩ = Merge.edit c (fun c _ => store c) (Repeated.reserve size n)
        ⟨slot, r⟩ →
      slot.room = Repeated.maxCapacity size - c.values.length →
      (∀ c', c'.values = c.values → viewSlot S f (store c') = viewSlot S f slot) →
      (∃ slot', Slot.reserve n ⟨slot, r⟩ = .ok () ⟨slot', r⟩ ∧
        viewSlot S f slot' = viewSlot S f slot ∧ f.FitsIn S slot') ∨
      (slot.room < n ∧ ∀ s, Slot.reserve n ⟨slot, r⟩ ≠ .ok () s) := by
    intro α size P c store hc hstore hedit hroom hview
    cases hout : Repeated.reserve size n c with
    | ok _ c' =>
      have hok : Slot.reserve n ⟨slot, r⟩ = .ok () ⟨store c', r⟩ :=
        hedit.trans (Merge.edit_eq_ok.2 ⟨c', hout, rfl⟩)
      rw [hok] at hkeeps
      exact .inl ⟨store c', hok, hview c' (Repeated.reserve_spec hout).1, hkeeps⟩
    | error e c' =>
      have hnot : ¬ ∃ c', Repeated.reserve size n c = .ok () c' := by simp [hout]
      rw [Repeated.reserve_ok] at hnot
      have := hc.length_le
      refine .inr ⟨by omega, fun s hs => ?_⟩
      obtain ⟨c'', hc'', -⟩ := Merge.edit_eq_ok.1 (hedit.symm.trans hs)
      rw [hout] at hc''
      cases hc''
  cases hslot.shape with
  | scalars _ hc | texts _ hc | blobs _ hc =>
    exact hreserve hc rfl rfl rfl fun c' h => by simp only [viewSlot, h]
  | subs _ htype hc =>
    exact hreserve hc rfl rfl rfl fun c' h => by rw [viewSlot_subs htype, viewSlot_subs htype, h]
  | scalar hone | text hone | blob hone | sub hone => simp [hrep] at hone

/-! ### Packed runs -/

section Packed

variable {r r' : Reader} (hkeeps : ∀ type, KeepsTarget (Message.Fits S type) (nested type))

include hS hnested hkeeps in
theorem PlacedField.follows_readToLimit (fuel : Nat)
    (hslot : p.1.FitsIn S slot) (hrep : p.1.isRepeated = true) :
    Follows (viewSlot S p.1) (p.1.readToLimit S nested fuel) (p.readUpdates read fuel)
      (changeAll S p.1) slot := by
  induction fuel generalizing slot with
  | zero =>
    intro r r' v
    constructor
    · rintro ⟨_, ⟨⟩, -⟩
    · rintro ⟨_, ⟨⟩, -⟩
  | succ fuel ih =>
    have hkeep := p.1.keeps_readElement hS hkeeps
    have hseq : Follows (viewSlot S p.1)
        (do
          p.1.readElement S nested
          p.1.readToLimit S nested fuel)
        (do
          let u ← p.readUpdate read
          let us ← p.readUpdates read fuel
          return u :: us) (changeAll S p.1) slot :=
      (p.follows_readElement hS hnested hslot hrep).seq List.cons
        (fun r r' t ht => ih (by simpa only [ht] using hkeep ⟨slot, r⟩ hslot)) fun _ _ => rfl
    intro r r' v
    cases hend : r.atEnd with
    | true =>
      have hmerge : p.1.readToLimit S nested (fuel + 1) ⟨slot, r⟩ = .ok () ⟨slot, r⟩ := by
        rw [Field.readToLimit, bind_of_ok (Merge.read_of_ok get_apply), if_pos hend]
        rfl
      have hread : p.readUpdates read (fuel + 1) r = .ok [] r := by
        rw [PlacedField.readUpdates, bind_of_ok get_apply, if_pos hend]
        rfl
      constructor
      · rintro ⟨t, ht, rfl⟩
        cases hmerge.symm.trans ht
        exact ⟨[], hread, rfl⟩
      · rintro ⟨us, hus, hv⟩
        cases hread.symm.trans hus
        exact ⟨slot, hmerge, Option.some.inj hv⟩
    | false =>
      rw [Field.readToLimit, bind_of_ok (Merge.read_of_ok get_apply), if_neg (by simp [hend]),
        PlacedField.readUpdates, bind_of_ok get_apply, if_neg (by simp [hend])]
      exact hseq r r' v

theorem Field.packedCount_readScalar {kind : Scalar} {value : kind.Value}
    (hempty : f.element.emptySlot = .scalars kind .empty) (h : readScalar kind r = .ok value r') :
    f.packedCount r.bytesLeft r = f.packedCount r'.bytesLeft r' + 1 := by
  obtain ⟨_, _, element, _⟩ := f
  cases element with
  | scalar =>
    cases hempty
    unfold Field.packedCount
    cases hkind : kind.fixedSize with
    | some n =>
      obtain ⟨hle, rfl⟩ := readScalar_fixed hkind h
      have hleft := r.length_remaining_le
      have hpos : 0 < n := by cases kind <;> cases hkind <;> decide
      simp only [hkind, Reader.bytesLeft_advance]
      rw [← Nat.add_div_right _ hpos]
      congr 1
      omega
    | none =>
      obtain ⟨full, n, hn, rfl⟩ := readScalar_varint hkind h
      simp only [hkind]
      exact Reader.countPackedVarints_advance hn
  | enum =>
    cases hempty
    obtain ⟨full, n, hn, rfl⟩ := readScalar_varint rfl h
    exact Reader.countPackedVarints_advance hn
  | text | blob | message | group => cases hempty

theorem PlacedField.packedCount_readUpdate (hpack : p.1.element.category.isPackable = true)
    {u : Update} (h : p.readUpdate read r = .ok u r') :
    p.1.packedCount r.bytesLeft r = p.1.packedCount r'.bytesLeft r' + 1 := by
  obtain ⟨⟨_, _, element, _⟩, _⟩ := p
  cases element with
  | scalar | enum =>
    obtain ⟨value, hread, -⟩ := map_eq_ok.1 h
    exact Field.packedCount_readScalar rfl hread
  | text | blob | message | group => cases hpack

theorem Field.packedCount_of_atEnd (hend : r.atEnd = true) : f.packedCount r.bytesLeft r = 0 := by
  have hleft : r.bytesLeft = 0 := by
    simp only [Reader.atEnd, beq_iff_eq] at hend
    simp [Reader.bytesLeft, hend]
  have hcount : r.countPackedVarints = 0 := by
    rw [Reader.countPackedVarints, Reader.remaining]
    rw [Reader.bytesLeft] at hleft
    simp [hleft]
  unfold Field.packedCount
  split
  · split
    · rw [hleft, Nat.zero_div]
    · exact hcount
  · exact hcount

/-- Values are read one after the other, up to the limit. -/
inductive PlacedField.ReadsRun (read : Reading) (p : PlacedField) :
    Reader → List Update → Reader → Prop where
  | done {r : Reader} (hend : r.atEnd = true) : ReadsRun read p r [] r
  | more {r r₁ r' : Reader} {u : Update} {us : List Update} (hu : p.readUpdate read r = .ok u r₁)
    (hus : ReadsRun read p r₁ us r') : ReadsRun read p r (u :: us) r'

theorem PlacedField.readsRun {fuel : Nat} {us : List Update}
    (h : p.readUpdates read fuel r = .ok us r') : p.ReadsRun read r us r' := by
  induction fuel generalizing r us with
  | zero => cases h
  | succ fuel ih =>
    rw [PlacedField.readUpdates, bind_of_ok get_apply] at h
    cases hend : r.atEnd with
    | true =>
      rw [if_pos hend] at h
      cases h
      exact .done hend
    | false =>
      rw [if_neg (by simp [hend])] at h
      obtain ⟨u, r₁, hu, h⟩ := bind_eq_ok.1 h
      obtain ⟨us', r₂, hus, h⟩ := bind_eq_ok.1 h
      cases h
      exact .more hu (ih hus)

theorem PlacedField.ReadsRun.packedCount (hpack : p.1.element.category.isPackable = true)
    {us : List Update} (h : p.ReadsRun read r us r') :
    p.1.packedCount r.bytesLeft r = us.length := by
  induction h with
  | done hend => exact Field.packedCount_of_atEnd hend
  | more hu _ ih => rw [p.packedCount_readUpdate hpack hu, ih, List.length_cons]

theorem openRun_eq_ok {limit length : Nat} :
    openRun r = .ok (limit, length) r' ↔
      ∃ t, readLength r = .ok length t ∧ pushLimit length t = .ok limit r' := by
  unfold openRun
  rw [bind_eq_ok]
  constructor
  · rintro ⟨n, t, hn, h⟩
    obtain ⟨l, u, hl, h⟩ := bind_eq_ok.1 h
    cases h
    exact ⟨t, hn, hl⟩
  · rintro ⟨t, hlength, hlimit⟩
    exact ⟨length, t, hlength, bind_eq_ok.2 ⟨limit, r', hlimit, rfl⟩⟩

theorem PlacedField.readPackedUpdates_eq_ok {us : List Update}
    (h : p.readPackedUpdates read r = .ok us r') :
    ∃ n t t', readLength r = .ok n t ∧ t.pos + n ≤ t.limit ∧
      p.ReadsRun read { t with limit := t.pos + n } us t' ∧
      r' = { t' with limit := t.limit } := by
  obtain ⟨⟨limit, n⟩, r₁, hopen, h⟩ := bind_eq_ok.1 h
  obtain ⟨us', r₂, hus, h⟩ := bind_eq_ok.1 h
  cases h
  obtain ⟨t, hlength, hlimit⟩ := openRun_eq_ok.1 hopen
  obtain ⟨hroom, rfl, rfl⟩ := pushLimit_eq_ok.1 hlimit
  exact ⟨n, t, r₂, hlength, hroom, p.readsRun hus, rfl⟩

theorem bytesLeft_openRun {limit length : Nat} (h : openRun r = .ok (limit, length) r') :
    r'.bytesLeft = length := by
  obtain ⟨t, -, hlimit⟩ := openRun_eq_ok.1 h
  obtain ⟨-, -, rfl⟩ := pushLimit_eq_ok.1 hlimit
  exact Nat.add_sub_cancel_left ..

include hS hnested hkeeps in
/-- Reading a packed run. Room is made for the values that are there. -/
theorem PlacedField.follows_readPacked (hslot : p.1.FitsIn S slot)
    (hrep : p.1.isRepeated = true) (hpack : p.1.element.category.isPackable = true) :
    Follows (viewSlot S p.1) (p.1.readPacked S nested) (p.readPackedUpdates read)
      (changeAll S p.1) slot := by
  have hpacked : p.1.readPacked S nested = (do
      let run ← Merge.read openRun
      let r ← Merge.read get
      Slot.reserve (p.1.packedCount run.2 r)
      p.1.readToLimit S nested (r.bytesLeft + 1)
      Merge.read (popLimit run.1)) := by
    unfold Field.readPacked openRun
    simp only [Merge.read_bind, bind_assoc]
    rfl
  intro r r' v
  rw [hpacked]
  constructor
  · rintro ⟨t, ht, hv⟩
    obtain ⟨⟨limit, length⟩, r₁, hopen, ht⟩ := Merge.read_bind_eq_ok.1 ht
    have hlength := bytesLeft_openRun hopen
    simp only at ht
    rw [bind_of_ok (Merge.read_of_ok get_apply)] at ht
    obtain ⟨_, s, hs, ht⟩ := bind_eq_ok.1 ht
    obtain ⟨slot', hslot', hview, hfits⟩ | ⟨-, hnot⟩ :=
      reserve_slot hslot hrep (p.1.packedCount length r₁) r₁
    · rw [hs] at hslot'
      cases hslot'
      obtain ⟨_, ⟨slot₂, r₂⟩, hlimit, ht⟩ := bind_eq_ok.1 ht
      obtain ⟨us, hus, hchange⟩ := (p.follows_readToLimit hS hnested hkeeps _ hfits hrep r₁ r₂
        (viewSlot S p.1 slot₂)).1 ⟨slot₂, hlimit, rfl⟩
      cases ht
      refine ⟨us, ?_, ?_⟩
      · unfold PlacedField.readPackedUpdates
        rw [hlength] at hus
        rw [bind_of_ok hopen]
        simp only
        rw [bind_of_ok hus]
        rfl
      · rw [← hview, hchange, hv]
    · exact absurd hs (hnot s)
  · rintro ⟨us, hus, hv⟩
    unfold PlacedField.readPackedUpdates at hus
    obtain ⟨⟨limit, length⟩, r₁, hopen, hus⟩ := bind_eq_ok.1 hus
    have hlength := bytesLeft_openRun hopen
    obtain ⟨us', r₂, hread, hus⟩ := bind_eq_ok.1 hus
    cases hus
    have hcount := (p.readsRun hread).packedCount hpack
    have hroom := length_le_room (isContainer_viewSlot hslot hrep) hv
    rw [room_viewSlot hslot, ← hcount, hlength] at hroom
    obtain ⟨slot', hreserve, hview, hfits⟩ | ⟨hlt, -⟩ :=
      reserve_slot hslot hrep (p.1.packedCount length r₁) r₁
    · rw [← hview] at hv
      obtain ⟨slot₂, hlimit, hv⟩ := (p.follows_readToLimit hS hnested hkeeps _ hfits hrep r₁ r₂
        v).2 ⟨us, hread, hv⟩
      refine ⟨slot₂, Merge.read_bind_eq_ok.2 ⟨(limit, length), r₁, hopen, ?_⟩, hv⟩
      simp only
      rw [bind_of_ok (Merge.read_of_ok get_apply), bind_of_ok hreserve, hlength, bind_of_ok hlimit]
      rfl
    · omega

end Packed

end Slots

end ProtoWire
