import ProtoWire.Proofs.Field.Order
import ProtoWire.Proofs.Message.Record

/-!
# The order of fields does not matter for merging

The loop that looks for the field of each tag and the loop that expects fields in order, as
declared or by number, both merge record by record.
-/

namespace ProtoWire

variable {s : Merging Message} {σ : Type}

theorem Layout.placed_perm (L : Layout) (order : FieldOrder) :
    (L.placed order).Perm L.fields.zipIdx :=
  order.arrange_perm _ _

/-! ### Slots -/

section Slots

variable {α β : Type} {index : Nat} {slot : Slot Message}

theorem atSlot_apply (h : s.target.slots[index]? = some slot) (x : Merge (Slot Message) α) :
    atSlot index x s = Merge.within slot (fun slot m => m.setSlot index slot) x s := by
  unfold atSlot
  rw [bind_of_ok (show Merge.target s = .ok s.target s from rfl), h]

theorem getElem?_setSlot {m : Message} (h : m.slots[index]? = some slot) (slot' : Slot Message) :
    (m.setSlot index slot').slots[index]? = some slot' := by
  obtain ⟨hlt, -⟩ := List.getElem?_eq_some_iff.1 h
  exact List.getElem?_set_self hlt

theorem setSlot_setSlot (m : Message) (slot slot' : Slot Message) :
    (m.setSlot index slot).setSlot index slot' = m.setSlot index slot' := by
  simp [Message.setSlot]

theorem setSlot_self {m : Message} (h : m.slots[index]? = some slot) :
    m.setSlot index slot = m := by
  cases m
  obtain ⟨hlt, rfl⟩ := List.getElem?_eq_some_iff.1 h
  simp [Message.setSlot]

theorem atSlot_ok {x : Merge (Slot Message) α} {a : α} {t : Merging Message}
    (h : atSlot index x s = .ok a t) : ∃ slot, t.target.slots[index]? = some slot := by
  obtain ⟨m, _, ⟨⟩, h⟩ := bind_eq_ok.1 h
  cases hslot : s.target.slots[index]? with
  | none =>
    simp only [hslot] at h
    cases h
  | some slot =>
    simp only [hslot] at h
    obtain ⟨u, -, rfl⟩ := Merge.within_eq_ok.1 h
    exact ⟨u.target, getElem?_setSlot hslot u.target⟩

theorem atSlot_bind (index : Nat) (x : Merge (Slot Message) α)
    (f : α → Merge (Slot Message) β) :
    atSlot index (x >>= f) = atSlot index x >>= fun a => atSlot index (f a) := by
  funext s
  cases hslot : s.target.slots[index]? with
  | none => simp [atSlot, bind, EStateM.bind, Merge.target, hslot]
  | some slot =>
    rw [atSlot_apply hslot]
    cases hx : x { target := slot, reader := s.reader } with
    | error e t =>
      have hfirst : atSlot index x s =
          .error e ⟨s.target.setSlot index t.target, t.reader⟩ := by
        rw [atSlot_apply hslot]
        unfold Merge.within
        rw [hx]
      rw [bind_of_error hfirst]
      unfold Merge.within
      rw [bind_of_error hx]
    | ok a t =>
      have hfirst : atSlot index x s = .ok a ⟨s.target.setSlot index t.target, t.reader⟩ := by
        rw [atSlot_apply hslot]
        unfold Merge.within
        rw [hx]
      rw [bind_of_ok hfirst, atSlot_apply (getElem?_setSlot hslot t.target)]
      unfold Merge.within
      rw [bind_of_ok hx]
      simp only [setSlot_setSlot]

theorem atSlot_read (h : s.target.slots[index]? = some slot) (x : Read α) :
    atSlot index (Merge.read x) s = Merge.read x s := by
  rw [atSlot_apply h]
  unfold Merge.within Merge.read
  cases x s.reader <;> simp [setSlot_self h]

theorem atSlot_pure (h : s.target.slots[index]? = some slot) (a : α) :
    atSlot index (pure a) s = .ok a s := by
  rw [atSlot_apply h]
  unfold Merge.within
  simp only [pure_apply, setSlot_self h]

end Slots

/-! ### Tags that follow -/

/-- An action that answers a tag has read it, or has reached the limit. -/
def AnswersTag {σ : Type} (x : Merge σ UInt32) : Prop :=
  ∀ ⦃s next t⦄, x s = .ok next t →
    t.reader.bytesLeft ≤ s.reader.bytesLeft ∧
      (next ≠ 0 → t.reader.bytesLeft < s.reader.bytesLeft)

theorem answersTag_readTag : AnswersTag (Merge.read readTag : Merge σ UInt32) := by
  intro s next t h
  obtain ⟨r, hr, rfl⟩ := Merge.read_eq_ok.1 h
  exact ⟨(advances_readTag hr).bytesLeft_le, bytesLeft_readTag hr⟩

theorem AnswersTag.after {α : Type} {x : Merge σ α} {f : α → Merge σ UInt32} (hx : ComposedMerge x)
    (hf : ∀ a, AnswersTag (f a)) : AnswersTag (x >>= f) := by
  intro s next t h
  obtain ⟨a, u, hu, h⟩ := bind_eq_ok.1 h
  have hle := (hx.advances hu).bytesLeft_le
  exact ⟨Nat.le_trans (hf a h).1 hle, fun hnext => Nat.lt_of_lt_of_le ((hf a h).2 hnext) hle⟩

/-- One tag after another: the first must be worth following up. -/
theorem AnswersTag.andThen {x : Merge σ UInt32} {f : UInt32 → Merge σ UInt32} (hx : AnswersTag x)
    (hf : ∀ a, AnswersTag (f a) ∨ f a = pure a) : AnswersTag (x >>= f) := by
  intro s next t h
  obtain ⟨a, u, hu, h⟩ := bind_eq_ok.1 h
  have hle := (hx hu).1
  rcases hf a with hfa | hfa
  · exact ⟨Nat.le_trans (hfa h).1 hle, fun hnext => Nat.lt_of_lt_of_le ((hfa h).2 hnext) hle⟩
  · rw [hfa] at h
    cases h
    exact hx hu

theorem AnswersTag.atSlot {x : Merge (Slot Message) UInt32} (hx : AnswersTag x) (index : Nat) :
    AnswersTag (atSlot index x) := by
  refine AnswersTag.after .target fun m => ?_
  cases m.slots[index]? with
  | none =>
    intro s next t h
    cases h
  | some slot =>
    intro s next t h
    obtain ⟨u, hu, rfl⟩ := Merge.within_eq_ok.1 h
    exact hx hu

section Loops

variable [Watch] {p : PlacedField} {tag : UInt32} {fuel : Nat} {fields : List PlacedField}
  {S : Schema} {nested : Nested} (hnested : ∀ type, ComposedMerge (nested type)) {L : Layout} (hL : L.Routed)

theorem Field.readRun_succ (f : Field) (tag : UInt32) (fuel : Nat) :
    f.readRun S nested tag (fuel + 1) = do
      f.readRecord S nested tag
      let next ← Merge.read readTag
      if next = tag then f.readRun S nested tag fuel else return next := by
  simp only [readRun, readRecord, bind_assoc]
  congr 1
  funext slot
  split
  · simp only [bind_assoc]
  · rfl

variable [LawfulWatch]

include hnested

theorem answersTag_readRun (f : Field) (tag : UInt32) (fuel : Nat) :
    AnswersTag (f.readRun S nested tag fuel) := by
  induction fuel with
  | zero =>
    intro s next t h
    cases h
  | succ fuel ih =>
    rw [Field.readRun_succ]
    refine AnswersTag.after (f.composed_readRecord hnested tag) fun _ => ?_
    refine AnswersTag.andThen answersTag_readTag fun next => ?_
    split
    · exact .inl ih
    · exact .inr rfl

theorem answersTag_decodeRun (p : PlacedField) (tag : UInt32) :
    AnswersTag (p.decodeRun S nested tag) := by
  intro s next t h
  exact (answersTag_readRun hnested p.1 tag _).atSlot p.2 h

theorem answersTag_decodePacked (p : PlacedField) : AnswersTag (p.decodePacked S nested) :=
  AnswersTag.after ((p.1.composed_readPacked hnested).atSlot p.2) fun _ => answersTag_readTag

theorem answersTag_decodePrimary (p : PlacedField) : AnswersTag (p.decodePrimary S nested L) := by
  unfold PlacedField.decodePrimary
  split
  · exact answersTag_decodePacked hnested p
  · exact answersTag_decodeRun hnested p _
  · exact AnswersTag.after (p.composed_decodeSingular hnested L) fun _ => answersTag_readTag
  · exact AnswersTag.after (p.composed_decodeSingular hnested L) fun _ => answersTag_readTag

theorem answersTag_decodeAlternate (p : PlacedField) (tag : UInt32) :
    AnswersTag (p.decodeAlternate S nested tag) := by
  unfold PlacedField.decodeAlternate
  split
  · exact answersTag_decodeRun hnested p tag
  · exact answersTag_decodePacked hnested p
  · exact answersTag_decodePacked hnested p
  · exact answersTag_decodePacked hnested p

theorem answersTag_decodeChain (p : PlacedField) (rest : List PlacedField) :
    AnswersTag (decodeChain S nested L p rest) := by
  induction rest generalizing p with
  | nil => exact answersTag_decodePrimary hnested p
  | cons expected rest ih =>
    unfold decodeChain
    refine AnswersTag.andThen (answersTag_decodePrimary hnested p) fun next => ?_
    split
    · exact .inl (ih expected)
    · exact .inr rfl

include hL

/-! ### Records in a row -/

/-- Reading records in a row and going on is going on record by record. -/
theorem readRun_bind (hroute : L.route tag = some (p, .element))
    (hfuel : s.reader.bytesLeft < fuel) :
    (atSlot p.2 (p.1.readRun S nested tag fuel) >>= mergeFrom S nested L) s =
      mergeFrom S nested L tag s := by
  induction fuel generalizing s with
  | zero => omega
  | succ fuel ih =>
    have hpayload : mergePayload S nested L tag =
        (do atSlot p.2 (p.1.readRecord S nested tag); return true) := by
      rw [mergePayload, hroute]
    rw [mergeFrom_apply hnested hL, Field.readRun_succ, atSlot_bind, hpayload, bind_assoc,
      bind_assoc]
    refine bind_congr_ok fun _ t ht => ?_
    obtain ⟨slot, hslot⟩ := atSlot_ok ht
    have hle := (((p.1.composed_readRecord hnested tag).atSlot p.2).advances ht).bytesLeft_le
    rw [atSlot_bind, bind_assoc, bind_of_ok (show (pure true : Merge Message Bool) t = .ok true t from rfl)]
    rw [bind_congr_left (atSlot_read hslot readTag)]
    refine bind_congr_ok fun next u hu => ?_
    obtain ⟨r, hr, rfl⟩ := Merge.read_eq_ok.1 hu
    split
    · rename_i heq
      subst heq
      have hlt := bytesLeft_readTag hr (hL.ne_zero_of_route hroute)
      exact ih (by simp only; omega)
    · exact bind_of_ok (atSlot_pure (s := ⟨t.target, r⟩) hslot next)

theorem decodeRun_bind (hroute : L.route tag = some (p, .element)) (s : Merging Message) :
    (p.decodeRun S nested tag >>= mergeFrom S nested L) s = mergeFrom S nested L tag s := by
  unfold PlacedField.decodeRun
  rw [bind_assoc, bind_of_ok (show Merge.read get s = .ok s.reader s from rfl)]
  exact readRun_bind hnested hL hroute (Nat.lt_succ_self _)

theorem decodePacked_bind (hroute : L.route tag = some (p, .run)) (s : Merging Message) :
    (p.decodePacked S nested >>= mergeFrom S nested L) s = mergeFrom S nested L tag s := by
  rw [mergeFrom_apply hnested hL, mergePayload, hroute, PlacedField.decodePacked, bind_assoc]
  simp only [bind_assoc, pure_bind, if_true]

theorem decodeSingular_bind (hroute : L.route tag = some (p, .value)) (s : Merging Message) :
    ((do p.decodeSingular S nested L; Merge.read readTag) >>= mergeFrom S nested L) s =
      mergeFrom S nested L tag s := by
  rw [mergeFrom_apply hnested hL, mergePayload, hroute]
  simp only [bind_assoc, pure_bind, if_true]

/-- Reading from a primary tag on is going on record by record. -/
theorem decodePrimary_bind (hp : p ∈ L.fields.zipIdx) (s : Merging Message) :
    (p.decodePrimary S nested L >>= mergeFrom S nested L) s =
      mergeFrom S nested L p.1.primaryTag s := by
  have hroute := hL.route_primaryTag hp
  unfold Field.primaryForm at hroute
  unfold PlacedField.decodePrimary
  cases hplace : p.1.placement with
  | singular bit | member oneof bit =>
    exact decodeSingular_bind hnested hL (by rw [hroute, hplace]) s
  | repeated packed =>
    cases packed with
    | true => exact decodePacked_bind hnested hL (by rw [hroute, hplace]) s
    | false => exact decodeRun_bind hnested hL (by rw [hroute, hplace]) s

/-- Reading from an alternate tag on is going on record by record. -/
theorem decodeAlternate_bind (hp : p ∈ L.fields.zipIdx) (htag : p.1.alternateTag? = some tag)
    (s : Merging Message) :
    (p.decodeAlternate S nested tag >>= mergeFrom S nested L) s = mergeFrom S nested L tag s := by
  have hroute := hL.route_alternateTag hp htag
  unfold Field.alternateForm at hroute
  unfold PlacedField.decodeAlternate
  cases hplace : p.1.placement with
  | singular bit | member oneof bit => exact decodePacked_bind hnested hL (by rw [hroute, hplace]) s
  | repeated packed =>
    cases packed with
    | true => exact decodeRun_bind hnested hL (by rw [hroute, hplace]) s
    | false => exact decodePacked_bind hnested hL (by rw [hroute, hplace]) s

/-- Reading from a tag on that is not primary is going on record by record. -/
theorem mergeOther_bind (hperm : fields.Perm L.fields.zipIdx)
    (hnone : fields.find? (fun p => p.1.primaryTag == tag) = none) (s : Merging Message) :
    (do if let some next ← mergeOther S nested fields tag then mergeFrom S nested L next) s =
      mergeFrom S nested L tag s := by
  unfold mergeOther
  cases hfind : fields.find? (fun p => p.1.alternateTag? == some tag) with
  | some p =>
    have hp := hperm.mem_iff.1 (List.mem_of_find?_eq_some hfind)
    have htag := List.find?_some hfind
    rw [← decodeAlternate_bind hnested hL hp (by simpa using htag)]
    simp only [map_eq_pure_bind, bind_assoc, pure_bind]
  | none =>
    have hroute : L.route tag = none := by
      rw [List.find?_eq_none] at hnone hfind
      have hprimary : L.fields.zipIdx.find? (fun p => p.1.primaryTag == tag) = none :=
        List.find?_eq_none.2 fun p hp => hnone p (hperm.mem_iff.2 hp)
      have halternate : L.fields.zipIdx.find? (fun p => p.1.alternateTag? == some tag) = none :=
        List.find?_eq_none.2 fun p hp => hfind p (hperm.mem_iff.2 hp)
      rw [Layout.route, hprimary]
      simp only [halternate, Option.map_none]
    rw [mergeFrom_apply hnested hL, mergePayload, hroute]
    by_cases hzero : tag = 0
    · simp [hzero]
    · simp only [hzero, if_false, bind_assoc]
      refine bind_congr_ok fun more t ht => ?_
      cases more with
      | true => simp only [if_true, map_eq_pure_bind, bind_assoc, pure_bind]
      | false => rfl

/-! ### Loops -/

theorem outlasts_mergeOther (hperm : fields.Perm L.fields.zipIdx) {next : UInt32}
    {t : Merging Message} (h : mergeOther S nested fields tag s = .ok (some next) t)
    (hfuel : Outlasts (fuel + 1) tag s.reader) : Outlasts fuel next t.reader := by
  unfold mergeOther at h
  cases hfind : fields.find? (fun p => p.1.alternateTag? == some tag) with
  | some p =>
    have hp := hperm.mem_iff.1 (List.mem_of_find?_eq_some hfind)
    have htag := List.find?_some hfind
    simp only [hfind] at h
    obtain ⟨_, h, ⟨⟩⟩ := map_eq_ok.1 h
    exact hfuel.next (hL.ne_zero_of_route (hL.route_alternateTag hp (by simpa using htag)))
      (answersTag_decodeAlternate hnested p tag h).2
  | none =>
    simp only [hfind] at h
    split at h
    · cases h
    · rename_i hzero
      obtain ⟨more, u, hu, h⟩ := bind_eq_ok.1 h
      cases more with
      | false => cases h
      | true =>
        obtain ⟨_, h, ⟨⟩⟩ := map_eq_ok.1 h
        refine hfuel.next hzero fun hnext => ?_
        exact Nat.lt_of_lt_of_le ((answersTag_readTag h).2 hnext)
          ((advances_skipField tag).read hu).bytesLeft_le

/-- The loop that looks for the field of each tag merges record by record. -/
theorem mergeDispatch_eq (hperm : fields.Perm L.fields.zipIdx)
    (hfuel : Outlasts fuel tag s.reader) :
    mergeDispatch S nested L fields fuel tag s = mergeFrom S nested L tag s := by
  induction fuel generalizing tag s with
  | zero => exact absurd hfuel.1 (Nat.lt_irrefl 0)
  | succ fuel ih =>
    unfold mergeDispatch
    cases hfind : fields.find? (fun p => p.1.primaryTag == tag) with
    | some p =>
      have hp := hperm.mem_iff.1 (List.mem_of_find?_eq_some hfind)
      have htag : p.1.primaryTag = tag := by simpa using List.find?_some hfind
      subst htag
      rw [← decodePrimary_bind hnested hL hp]
      refine bind_congr_ok fun next t ht => ih ?_
      exact hfuel.next (hL.ne_zero_of_route (hL.route_primaryTag hp))
        (answersTag_decodePrimary hnested p ht).2
    | none =>
      rw [← mergeOther_bind hnested hL hperm hfind]
      refine bind_congr_ok fun next t ht => ?_
      cases next with
      | none => rfl
      | some next => exact ih (outlasts_mergeOther hnested hL hperm ht hfuel)

/-- Reading a field and those that follow it is going on record by record. -/
theorem decodeChain_bind {rest : List PlacedField} (hp : ∀ q ∈ p :: rest, q ∈ L.fields.zipIdx)
    (s : Merging Message) :
    (decodeChain S nested L p rest >>= mergeFrom S nested L) s =
      mergeFrom S nested L p.1.primaryTag s := by
  induction rest generalizing p s with
  | nil => exact decodePrimary_bind hnested hL (hp p (by simp)) s
  | cons expected rest ih =>
    unfold decodeChain
    rw [bind_assoc, ← decodePrimary_bind hnested hL (hp p (by simp))]
    refine bind_congr_ok fun next t ht => ?_
    split
    · rename_i heq
      subst heq
      exact ih (fun q hq => hp q (List.mem_cons_of_mem _ hq)) t
    · rfl

/-- The loop that expects fields in order merges record by record. -/
theorem mergeChain_eq (hperm : fields.Perm L.fields.zipIdx) (hfuel : Outlasts fuel tag s.reader) :
    mergeChain S nested L fields fuel tag s = mergeFrom S nested L tag s := by
  induction fuel generalizing tag s with
  | zero => exact absurd hfuel.1 (Nat.lt_irrefl 0)
  | succ fuel ih =>
    unfold mergeChain
    cases hdrop : fields.dropWhile (fun p => p.1.primaryTag != tag) with
    | cons p rest =>
      have hsuffix : p :: rest <:+ fields := hdrop ▸ List.dropWhile_suffix _
      have hmem : ∀ q ∈ p :: rest, q ∈ L.fields.zipIdx := fun q hq =>
        hperm.mem_iff.1 (hsuffix.subset hq)
      have htag : p.1.primaryTag = tag := by
        have := List.head?_dropWhile_not (fun p : PlacedField => p.1.primaryTag != tag) fields
        simpa [hdrop] using this
      subst htag
      have hp := hmem p (by simp)
      rw [← decodeChain_bind hnested hL hmem]
      refine bind_congr_ok fun next t ht => ih ?_
      exact hfuel.next (hL.ne_zero_of_route (hL.route_primaryTag hp))
        (answersTag_decodeChain hnested p rest ht).2
    | nil =>
      have hfind : fields.find? (fun p => p.1.primaryTag == tag) = none := by
        have hall := List.all_takeWhile (p := fun p : PlacedField => p.1.primaryTag != tag)
          (l := fields)
        have htake := List.takeWhile_append_dropWhile
          (p := fun p : PlacedField => p.1.primaryTag != tag) (l := fields)
        rw [hdrop, List.append_nil] at htake
        rw [htake] at hall
        simpa [List.find?_eq_none] using hall
      rw [← mergeOther_bind hnested hL hperm hfind]
      refine bind_congr_ok fun next t ht => ?_
      cases next with
      | none => rfl
      | some next => exact ih (outlasts_mergeOther hnested hL hperm ht hfuel)

/-- Merging the fields of a message goes record by record, whatever the order. -/
theorem mergeFields_eq (order : FieldOrder) :
    mergeFields S order nested L = Merge.read readTag >>= mergeFrom S nested L := by
  funext s
  unfold mergeFields
  rw [bind_of_ok (show Merge.read get s = .ok s.reader s from rfl)]
  refine bind_congr_ok fun tag t ht => ?_
  have hle := (advances_readTag.read ht).bytesLeft_le
  have hfuel : Outlasts (s.reader.bytesLeft + 2) tag t.reader := ⟨by omega, by omega⟩
  cases order with
  | unordered => exact mergeDispatch_eq hnested hL (L.placed_perm _) hfuel
  | declaration | ascending => exact mergeChain_eq hnested hL (L.placed_perm _) hfuel

end Loops

/-! ### Messages inside each other -/

section Nesting

variable [Watch] [LawfulWatch] {S : Schema} (hS : ∀ type, (S.layout type).Routed)

include hS

theorem composed_mergeWithin (order : FieldOrder) (fuel : Nat) (type : TypeId) :
    ComposedMerge (mergeWithin S order fuel type) := by
  induction fuel generalizing type with
  | zero => exact .throw _
  | succ fuel ih =>
    unfold mergeWithin
    rw [mergeFields_eq ih (hS type)]
    exact .bind (.read .readTag) fun tag => composed_mergeFrom ih _ tag

theorem composed_mergeMessage (order : FieldOrder) (type : TypeId) :
    ComposedMerge (mergeMessage S order type) := by
  have hmerge : mergeMessage S order type =
      fun s => mergeWithin S order (s.reader.bytesLeft + 1) type s := by
    funext s
    rw [mergeMessage, bind_of_ok (show Merge.read get s = .ok s.reader s from rfl)]
  rw [hmerge]
  exact .look fun _ left _ => composed_mergeWithin hS order (left + 1) type

/-- Merging goes record by record. -/
theorem mergeMessage_apply {order : FieldOrder} {type : TypeId} (s : Merging Message) :
    mergeMessage S order type s =
      (Merge.read readTag >>= mergeFrom S (mergeWithin S order s.reader.bytesLeft)
        (S.layout type)) s := by
  unfold mergeMessage
  rw [bind_of_ok (show Merge.read get s = .ok s.reader s from rfl), mergeWithin,
    mergeFields_eq (composed_mergeWithin hS order _) (hS type)]

/-- A merge fails if its first record does. -/
theorem mergeMessage_of_error {order : FieldOrder} {type : TypeId} {tag : UInt32} {r : Reader}
    {e : Fault} {s s' : Merging Message} (htag : readTag s.reader = .ok tag r)
    (h : mergePayload S (mergeWithin S order s.reader.bytesLeft) (S.layout type) tag
      ⟨s.target, r⟩ = .error e s') : mergeMessage S order type s = .error e s' := by
  rw [mergeMessage_apply hS, bind_of_ok (Merge.read_eq_ok.2 ⟨r, htag, rfl⟩)]
  unfold mergeFrom mergeRecords
  exact bind_of_error h

theorem mergeWithin_order_eq (order order' : FieldOrder) (fuel : Nat) :
    mergeWithin S order fuel = mergeWithin S order' fuel := by
  induction fuel with
  | zero => rfl
  | succ fuel ih =>
    funext type
    unfold mergeWithin
    rw [mergeFields_eq (composed_mergeWithin hS order fuel) (hS type),
      mergeFields_eq (composed_mergeWithin hS order' fuel) (hS type), ih]

end Nesting

/-- Every variant merges every input into every message from every reader alike: with the same
outcome, the same message left behind and the same reader. -/
theorem mergeMessage_order_irrelevant (V W : Conformance.Variant) (type : TypeId)
    (s : Merging Message) :
    mergeMessage Conformance.schema V.order type s =
      mergeMessage Conformance.schema W.order type s := by
  refine bind_congr_ok fun r t _ => ?_
  rw [mergeWithin_order_eq Conformance.routed V.order W.order]

end ProtoWire
