import ProtoWire.Proofs.Message.Curb
import ProtoWire.Proofs.Message.Room

/-!
# How deep messages nest

* `Message.nesting`: the length of the longest chain of messages that are present, each inside the
  one before.
* `recursion_bound_exact`: an encoded tree is merged below every recursion limit that its nesting
  does not exceed, and below no other.
-/

namespace ProtoWire

variable {type t : TypeId} {m v : Message} {S : Schema} {slot : Slot Message} {f : Field}
  {levels i : Nat}

/-! ### Parts -/

/-- How many levels deep the messages that are present go. -/
def Message.nesting (S : Schema) (type : TypeId) (m : Message) : Nat :=
  (m.parts S type 0).foldr (fun part n => max part.depth n) 0

theorem Message.nesting_le {n : Nat} :
    m.nesting S type ≤ n ↔ ∀ part ∈ m.parts S type 0, part.depth ≤ n := by
  unfold Message.nesting
  generalize m.parts S type 0 = parts
  induction parts with
  | nil => simp
  | cons part parts ih => rw [List.foldr_cons, Nat.max_le, ih, List.forall_mem_cons]

section Parts

variable {depth : Nat} {part : Part}

theorem exists_of_mem_partsOfMessages {ms : List Message}
    (h : part ∈ partsOfMessages S type depth ms) : ∃ m ∈ ms, part ∈ m.parts S type depth := by
  induction ms with
  | nil => cases h
  | cons m ms ih =>
    rw [partsOfMessages] at h
    rcases List.mem_append.1 h with h | h
    · exact ⟨m, List.mem_cons_self, h⟩
    · obtain ⟨m', hm', h⟩ := ih h
      exact ⟨m', List.mem_cons_of_mem _ hm', h⟩

theorem exists_of_mem_partsOfSlot (h : part ∈ partsOfSlot S depth f slot) :
    ∃ t m, f.element.type? = some t ∧ m ∈ slot.valueMessages ∧ part ∈ m.parts S t (depth + 1) := by
  cases slot with
  | sub value =>
    cases value with
    | none => cases h
    | some m =>
      cases ht : f.element.type? with
      | none => simp [partsOfSlot, ht] at h
      | some t =>
        simp only [partsOfSlot, ht] at h
        exact ⟨t, m, rfl, List.mem_singleton_self m, h⟩
  | subs c =>
    cases ht : f.element.type? with
    | none => simp [partsOfSlot, ht] at h
    | some t =>
      simp only [partsOfSlot, ht] at h
      obtain ⟨m, hm, h⟩ := exists_of_mem_partsOfMessages h
      exact ⟨t, m, rfl, hm, h⟩
  | scalar | text | blob | scalars | texts | blobs => cases h

theorem exists_of_mem_partsOfSlots {presence : Presence} {cases : List UInt32}
    {fields : List Field} {slots : List (Slot Message)}
    (h : part ∈ partsOfSlots S presence cases depth fields slots) :
    ∃ (i : Nat) (f : Field) (slot : Slot Message), fields[i]? = some f ∧ slots[i]? = some slot ∧
      f.isPresent presence cases slot = true ∧ part ∈ partsOfSlot S depth f slot := by
  induction fields generalizing slots with
  | nil => cases slots <;> cases h
  | cons f fields ih =>
    cases slots with
    | nil => cases h
    | cons slot slots =>
      rw [partsOfSlots] at h
      rcases List.mem_append.1 h with h | h
      · split at h
        · rename_i hpresent
          exact ⟨0, f, slot, rfl, rfl, hpresent, h⟩
        · cases h
      · obtain ⟨i, g, slot', hg, hslot', h⟩ := ih h
        exact ⟨i + 1, g, slot', hg, hslot', h⟩

/-- A part of a message is the message itself, or a part of one that is present in it. -/
theorem Message.exists_of_mem_parts (h : part ∈ m.parts S type depth) :
    part = ⟨depth, type, m⟩ ∨
      ∃ (i : Nat) (f : Field) (slot : Slot Message) (t : TypeId) (m' : Message),
        (S.layout type).fields[i]? = some f ∧ m.slots[i]? = some slot ∧
        f.isPresent m.presence m.cases slot = true ∧ f.element.type? = some t ∧
        m' ∈ slot.valueMessages ∧ part ∈ m'.parts S t (depth + 1) := by
  cases m
  rw [Message.parts] at h
  rcases List.mem_cons.1 h with rfl | h
  · exact .inl rfl
  · obtain ⟨i, f, slot, hf, hslot, hpresent, h⟩ := exists_of_mem_partsOfSlots h
    obtain ⟨t, m', ht, hm', h⟩ := exists_of_mem_partsOfSlot h
    exact .inr ⟨i, f, slot, t, m', hf, hslot, hpresent, ht, hm', h⟩

end Parts

/-! ### Views that can be read -/

/-- A view that can be read at so many levels: nothing in it nests deeper, and enums without default
hold declared numbers. A message that is left out counts, if its field is marked. -/
inductive Message.Legible (S : Schema) : (levels : Nat) → TypeId → Message → Prop where
  | intro {levels : Nat} {type : TypeId} {v : Message} (coherent : v.Coherent (S.layout type))
    (marked : ∀ f ∈ (S.layout type).fields, f.element.type? ≠ none →
      f.isMarked v.presence v.cases = true → 0 < levels)
    (declares : ∀ (i : Nat) (f : Field) (slot : Slot Message),
      (S.layout type).fields[i]? = some f → v.slots[i]? = some slot →
        f.isMarked v.presence v.cases = true → f.element.declares slot = true)
    (stored : ∀ (i : Nat) (f : Field) (slot : Slot Message) (t : TypeId) (m : Message),
      (S.layout type).fields[i]? = some f → v.slots[i]? = some slot →
        f.element.type? = some t → m ∈ slot.valueMessages → 0 < levels)
    (inner : ∀ (i : Nat) (f : Field) (slot : Slot Message) (t : TypeId) (m : Message),
      (S.layout type).fields[i]? = some f → v.slots[i]? = some slot →
        f.element.type? = some t → m ∈ slot.valueMessages → Legible S (levels - 1) t m) :
    Legible S levels type v

/-- The messages in a slot are a level deeper. -/
def Field.Legible (S : Schema) (levels : Nat) (f : Field) (slot : Slot Message) : Prop :=
  ∀ t ∈ f.element.type?, ∀ m ∈ slot.valueMessages, 0 < levels ∧ m.Legible S (levels - 1) t

theorem Field.valueMessages_blankSlot (f : Field) : f.blankSlot.valueMessages = [] := by
  have hsubset := f.blankSlot.valueMessages_subset
  rw [f.messages_blankSlot] at hsubset
  exact List.subset_nil.1 hsubset

theorem Field.legible_blankSlot (S : Schema) (levels : Nat) (f : Field) :
    f.Legible S levels f.blankSlot := by
  intro t _ m hm
  rw [f.valueMessages_blankSlot] at hm
  cases hm

namespace Message.Legible

theorem coherent (h : v.Legible S levels type) : v.Coherent (S.layout type) := by
  cases h with
  | intro coherent => exact coherent

theorem marked (h : v.Legible S levels type) (hf : f ∈ (S.layout type).fields)
    (htype : f.element.type? ≠ none) (hmarked : f.isMarked v.presence v.cases = true) :
    0 < levels := by
  cases h with
  | intro _ marked => exact marked f hf htype hmarked

theorem declares (h : v.Legible S levels type) (hf : (S.layout type).fields[i]? = some f)
    (hslot : v.slots[i]? = some slot) (hmarked : f.isMarked v.presence v.cases = true) :
    f.element.declares slot = true := by
  cases h with
  | intro _ _ declares => exact declares i f slot hf hslot hmarked

theorem atSlot (h : v.Legible S levels type) (hf : (S.layout type).fields[i]? = some f)
    (hslot : v.slots[i]? = some slot) : f.Legible S levels slot := by
  cases h with
  | intro _ _ _ stored inner =>
    exact fun t ht m hm => ⟨stored i f slot t m hf hslot ht hm, inner i f slot t m hf hslot ht hm⟩

theorem of_slots (coherent : v.Coherent (S.layout type))
    (marked : ∀ f ∈ (S.layout type).fields, f.element.type? ≠ none →
      f.isMarked v.presence v.cases = true → 0 < levels)
    (declares : ∀ (i : Nat) (f : Field) (slot : Slot Message),
      (S.layout type).fields[i]? = some f → v.slots[i]? = some slot →
        f.isMarked v.presence v.cases = true → f.element.declares slot = true)
    (hslots : ∀ (i : Nat) (f : Field) (slot : Slot Message),
      (S.layout type).fields[i]? = some f → v.slots[i]? = some slot → f.Legible S levels slot) :
    v.Legible S levels type :=
  .intro coherent marked declares
    (fun i f slot t m hf hslot ht hm => (hslots i f slot hf hslot t ht m hm).1)
    (fun i f slot t m hf hslot ht hm => (hslots i f slot hf hslot t ht m hm).2)

theorem blank (hS : (S.layout type).Valid) : (S.blank type).Legible S levels type := by
  have hunmarked : ∀ f ∈ (S.layout type).fields,
      f.isMarked (S.blank type).presence (S.blank type).cases ≠ true := by
    intro f hf
    rw [Schema.blank, (S.layout type).unset_blank.isMarked (hS.number_pos f hf)]
    exact Bool.false_ne_true
  refine .of_slots (.blank hS) (fun f hf _ hmarked => absurd hmarked (hunmarked f hf))
    (fun i f slot hf _ hmarked => absurd hmarked (hunmarked f (List.mem_of_getElem? hf)))
    fun i f slot hf hslot => ?_
  obtain rfl : f.blankSlot = slot := by
    simpa [Schema.blank, Layout.blank, hf] using hslot
  exact f.legible_blankSlot S levels

/-- A slot is stored in a place, and the member that gives way is at its default again. -/
theorem store (hS : (S.layout type).Valid) (h : v.Legible S levels type)
    (hf : (S.layout type).fields[i]? = some f) (hlevels : f.element.type? ≠ none → 0 < levels)
    (hdeclares : f.isRepeated = false → f.element.declares slot = true)
    (hslot : f.Legible S levels slot) :
    (v.store (S.layout type) f i slot).Legible S levels type := by
  have hmem := List.mem_of_getElem? hf
  have hvacate : ((v.vacate (S.layout type) f).setSlot i slot).Coherent (S.layout type) :=
    h.coherent.congr (Message.Fits.presence_vacate _) (Message.Fits.cases_vacate _)
  have hother : ∀ g ∈ (S.layout type).fields, f.number ≠ g.number →
      g.isMarked (v.store (S.layout type) f i slot).presence
        (v.store (S.layout type) f i slot).cases = true →
      (f.oneof? = none ∨ f.oneof? ≠ g.oneof?) ∧ g.isMarked v.presence v.cases = true := by
    intro g hg hnumber hmarked
    rw [Message.store, hvacate.isMarked_markPresent hS hmem hg hnumber, Bool.and_eq_true,
      decide_eq_true_eq] at hmarked
    rwa [← Message.Fits.presence_vacate (S.layout type), ← Message.Fits.cases_vacate (S.layout type)]
  refine .of_slots (hvacate.markPresent hS hmem) (fun g hg htype hmarked => ?_)
    (fun j g slot' hg hslot' hmarked => ?_) fun j g slot' hg hslot' => ?_
  · by_cases hnumber : f.number = g.number
    · obtain rfl := hS.field_eq hmem hg hnumber
      exact hlevels htype
    · exact h.marked hg htype (hother g hg hnumber hmarked).2
  · rcases Message.getElem?_store hg hslot' with ⟨rfl, rfl⟩ | ⟨hij, hslot'⟩
    · obtain rfl := Option.some.inj (hf.symm.trans hg)
      refine hdeclares (Bool.eq_false_iff.2 fun hrep => ?_)
      rw [Field.isMarked_repeated (Field.bit?_of_repeated hrep)] at hmarked
      cases hmarked
    · obtain ⟨hapart, hold⟩ := hother g (List.mem_of_getElem? hg)
        (fun hnumber => hij (hS.eq_of_number_eq hf hg hnumber)) hmarked
      rcases hslot' with ⟨hsome, honeof, -⟩ | hslot'
      · exact absurd (hapart.resolve_left hsome) (not_not_intro honeof.symm)
      · exact h.declares hg hslot' hold
  · rcases Message.getElem?_store hg hslot' with ⟨rfl, rfl⟩ | ⟨-, ⟨-, -, rfl⟩ | hold⟩
    · exact Option.some.inj (hf.symm.trans hg) ▸ hslot
    · exact g.legible_blankSlot S levels
    · exact h.atSlot hg hold

end Message.Legible

/-! ### Declared numbers -/

theorem Element.declares_of_type? {element : Element} (ht : element.type? = some t)
    (slot : Slot Message) : element.declares slot = true := by
  cases element <;> cases ht <;> rfl

theorem Element.Collects.declares {element : Element} (h : element.Collects slot) :
    element.declares slot = true := by
  cases h with
  | @enum declared default => cases default <;> rfl
  | scalar | text | blob | message | group => rfl

theorem Field.declares_viewSlot (h : f.element.Stores slot) :
    f.element.declares (viewSlot S f slot) = f.element.declares slot := by
  cases f
  cases h with
  | scalar | enum | text | blob => rfl
  | message | group => rw [Element.declares_of_type? rfl, Element.declares_of_type? rfl]

theorem Element.Admits.declares {u : Update} {slot' : Slot Message} (h : f.element.Admits u)
    (hkept : f.element.admits u = true) (hchange : u.change S f slot = some slot') :
    f.element.declares slot' = true := by
  generalize f.element = element at h hkept
  cases h with
  | scalar | text | blob => rfl
  | @enum declared default value i =>
    cases default with
    | some => rfl
    | none =>
      cases slot with
      | scalar kind old =>
        rw [Update.change] at hchange
        split at hchange
        · cases hchange
          exact hkept
        · cases hchange
      | scalars kind c =>
        rw [Update.change] at hchange
        split at hchange
        · obtain ⟨c', -, rfl⟩ := Option.map_eq_some_iff.1 hchange
          rfl
        · cases hchange
      | text | blob | sub | texts | blobs | subs => simp [Update.change] at hchange

theorem Message.declaresEnums_of_forall {L : Layout}
    (h : ∀ (i : Nat) (f : Field) (slot : Slot Message), L.fields[i]? = some f →
      m.slots[i]? = some slot → f.isPresent m.presence m.cases slot = true →
        f.element.declares slot = true) : m.declaresEnums L = true := by
  unfold Message.declaresEnums
  refine List.all_eq_true.2 fun b hb => ?_
  obtain ⟨i, hi⟩ := List.mem_iff_getElem?.1 hb
  obtain ⟨f, slot, hf, hslot, rfl⟩ := List.getElem?_zipWith_eq_some.1 hi
  cases hpresent : f.isPresent m.presence m.cases slot with
  | false => rfl
  | true => rw [h i f slot hf hslot hpresent]; rfl

section Updates

variable (hS : S.Valid)

include hS

theorem Field.Legible.change {contents : List Update} {slot' : Slot Message}
    (ht : f.element.type? = some t)
    (hcontents : ∀ {v w : Message}, v.Legible S levels t → applyAll S t contents v = some w →
      w.Legible S levels t) (h : f.Legible S (levels + 1) slot)
    (hchange : (Update.message i contents).change S f slot = some slot') :
    f.Legible S (levels + 1) slot' := by
  have hdeeper : ∀ slot' : Slot Message, (∀ m ∈ slot'.valueMessages, m.Legible S levels t) →
      f.Legible S (levels + 1) slot' := by
    intro slot' hall t' ht' m hm
    cases ht.symm.trans ht'
    exact ⟨Nat.succ_pos levels, hall m hm⟩
  have hall : ∀ m ∈ slot.valueMessages, m.Legible S levels t := fun m hm => (h t ht m hm).2
  cases slot with
  | sub value =>
    simp only [Update.change, ht] at hchange
    obtain ⟨w, hw, rfl⟩ := Option.map_eq_some_iff.1 hchange
    have hvalue : (value.getD (S.blank t)).Legible S levels t := by
      cases value with
      | none => exact .blank (hS t)
      | some m => exact hall m (List.mem_singleton_self m)
    refine hdeeper _ fun m hm => ?_
    have htrim := Option.mem_toList.1 hm
    unfold Schema.trim at htrim
    split at htrim
    · cases htrim
    · cases htrim
      exact hcontents hvalue hw
  | subs c =>
    simp only [Update.change, ht] at hchange
    obtain ⟨w, hw, hchange⟩ := Option.bind_eq_some_iff.1 hchange
    obtain ⟨c', hpush, rfl⟩ := Option.map_eq_some_iff.1 hchange
    obtain ⟨-, rfl⟩ := Repeated.push_eq_some.1 hpush
    refine hdeeper _ fun m hm => ?_
    rcases List.mem_append.1 hm with hm | hm
    · exact hall m hm
    · obtain rfl := List.mem_singleton.1 hm
      exact hcontents (.blank (hS t)) hw
  | scalar | text | blob | scalars | texts | blobs => simp [Update.change] at hchange

/-- What updates make of a view can be read at the levels that they nest. -/
theorem Measured.legible {count : Nat} {us : List Update} {w : Message}
    (h : Measured S type levels count us) (hv : v.Legible S levels type)
    (happly : applyAll S type us v = some w) : w.Legible S levels type := by
  induction h generalizing v w with
  | nil =>
    cases happly
    exact hv
  | value field admits kept rest ih =>
    obtain ⟨v', hv', happly⟩ := Option.bind_eq_some_iff.1 happly
    obtain ⟨f, slot, slot', hf, -, hchange, rfl⟩ := Message.amend_eq_some hv'
    cases field.symm.trans hf
    have hleaf := admits.type?_eq_none
    refine ih (hv.store (hS _) hf (fun hne => absurd hleaf hne)
      (fun hrep => admits.declares (kept hrep) hchange) fun t ht => ?_) happly
    rw [Option.mem_def, hleaf] at ht
    cases ht
  | message field element inner rest ihInner ih =>
    obtain ⟨v', hv', happly⟩ := Option.bind_eq_some_iff.1 happly
    obtain ⟨f, slot, slot', hf, hslot, hchange, rfl⟩ := Message.amend_eq_some hv'
    cases field.symm.trans hf
    exact ih (hv.store (hS _) hf (fun _ => Nat.succ_pos _)
      (fun _ => Element.declares_of_type? element _) ((hv.atSlot hf hslot).change hS element ihInner hchange)) happly

end Updates

/-! ### Messages that are not deep -/

section Messages

/-- A message in a slot that is shown can be read a level deeper. It is shown itself, or left out
because nothing is in it. -/
theorem Message.Legible.of_mem (hS : S.Valid) {m' : Message} (h : v.Legible S levels type)
    (hf : (S.layout type).fields[i]? = some f) (hshown : v.slots[i]? = some (viewSlot S f slot))
    (hfits : f.FitsIn S slot)
    (hmarked : f.isRepeated = false → f.isMarked v.presence v.cases = true)
    (ht : f.element.type? = some t) (hm' : m' ∈ slot.valueMessages) :
    0 < levels ∧ (m'.view S (S.layout t)).Legible S (levels - 1) t := by
  have hlegible := h.atSlot hf hshown
  cases slot with
  | sub value =>
    obtain rfl := Option.mem_toList.1 hm'
    have hsingular : f.isRepeated = false := by
      cases hfits.shape with
      | sub singular => exact singular
    refine ⟨h.marked (List.mem_of_getElem? hf) (by simp [ht]) (hmarked hsingular), ?_⟩
    rw [viewSlot_sub ht, Option.bind_some] at hlegible
    rw [← (hfits.inner t ht m' (List.mem_singleton_self m')).getD_trim]
    cases htrim : S.trim t (m'.view S (S.layout t)) with
    | none => exact .blank (hS t)
    | some w =>
      rw [htrim] at hlegible
      exact (hlegible t ht w (List.mem_singleton_self w)).2
  | subs c =>
    rw [viewSlot_subs ht] at hlegible
    exact hlegible t ht _ (List.mem_map_of_mem hm')
  | scalar | text | blob | scalars | texts | blobs => cases hm'

/-- What is present in a message whose view can be read at so many levels is not deeper, and holds
declared numbers. -/
theorem Message.Fits.legible_parts (hS : S.Valid) (hm : m.Fits S type) (depth : Nat)
    (h : (m.view S (S.layout type)).Legible S levels type) :
    ∀ part ∈ m.parts S type depth, part.depth ≤ depth + levels ∧
      part.message.declaresEnums (S.layout part.type) = true := by
  induction hm generalizing levels depth with
  | @step type m hm ih =>
    have hmarked : ∀ {f : Field} {slot : Slot Message},
        f.isPresent m.presence m.cases slot = true → f.isRepeated = false →
        f.isMarked (m.view S (S.layout type)).presence (m.view S (S.layout type)).cases = true := by
      intro f slot hpresent hrep
      rw [Field.isPresent_of_singular hrep] at hpresent
      simpa using hpresent
    intro part hpart
    rcases Message.exists_of_mem_parts hpart with
      rfl | ⟨i, f, slot, t, m', hf, hslot, hpresent, ht, hm', hpart⟩
    · refine ⟨Nat.le_add_right depth levels,
        Message.declaresEnums_of_forall fun i f slot hf hslot hpresent => ?_⟩
      cases hrep : f.isRepeated with
      | true => exact ((hm.atSlot hf hslot).holds.collects hrep).declares
      | false =>
        rw [← Field.declares_viewSlot (S := S) ((hm.atSlot hf hslot).holds.stores hrep)]
        exact h.declares hf (Message.slot_view hf hslot) (hmarked hpresent hrep)
    · obtain ⟨hpos, hinner⟩ := h.of_mem hS hf (Message.slot_view hf hslot)
        (hm.atSlot hf hslot) (hmarked hpresent) ht hm'
      obtain ⟨hdepth, hdeclares⟩ := ih hf hslot t ht m' (slot.valueMessages_subset hm')
        (depth + 1) hinner part hpart
      exact ⟨by omega, hdeclares⟩

theorem Message.Fits.depth_le (hS : S.Valid) (hm : m.Fits S type) (depth : Nat)
    (h : (m.gist S (S.layout type)).Legible S levels type) :
    ∀ part ∈ m.parts S type depth, part.depth ≤ depth + levels := by
  induction hm generalizing levels depth with
  | @step type m hm ih =>
    intro part hpart
    rcases Message.exists_of_mem_parts hpart with
      rfl | ⟨i, f, slot, t, m', hf, hslot, hpresent, ht, hm', hpart⟩
    · exact Nat.le_add_right depth levels
    · have hshown := Message.getElem?_view_strip (S := S) hf hslot
      simp only [hpresent, Bool.not_true, Bool.and_false, Bool.false_eq_true, if_false] at hshown
      have hstrip : m'.strip S (S.layout t) ∈ (stripSlot S f slot).valueMessages := by
        cases slot with
        | sub value =>
          obtain rfl := Option.mem_toList.1 hm'
          rw [stripSlot_sub ht]
          exact List.mem_singleton_self _
        | subs c =>
          rw [stripSlot_subs ht]
          exact List.mem_map_of_mem hm'
        | scalar | text | blob | scalars | texts | blobs => cases hm'
      have hfits := hm.atSlot hf hslot
      obtain ⟨hpos, hinner⟩ := h.of_mem hS hf hshown
        (hfits.stripSlot fun t ht m' hm' => (hfits.inner t ht m' hm').strip)
        (fun hrep => by simpa [Field.isPresent_of_singular hrep] using hpresent) ht hstrip
      have hdepth := ih hf hslot t ht m' (slot.valueMessages_subset hm') (depth + 1) hinner
        part hpart
      omega

/-- A message nests no deeper than it has bytes. -/
theorem Message.Fits.depth_le_length (order : FieldOrder) (hm : m.Fits S type) (depth : Nat) :
    ∀ part ∈ m.parts S type depth,
      part.depth ≤ depth + (m.encode S order (S.layout type)).length := by
  induction hm generalizing depth with
  | @step type m hm ih =>
    intro part hpart
    rcases Message.exists_of_mem_parts hpart with
      rfl | ⟨i, f, slot, t, m', hf, hslot, hpresent, ht, hm', hpart⟩
    · exact Nat.le_add_right ..
    · have hdepth := ih hf hslot t ht m' (slot.valueMessages_subset hm') (depth + 1) part hpart
      have hlt := Message.length_encode_lt (S := S) (p := (f, i)) hm.length
        (Layout.mem_placed order hf) hslot hpresent ht hm'
      omega

theorem Message.Fits.type_of_mem_parts {P : TypeId → Prop}
    (hP : ∀ type, P type → ∀ f ∈ (S.layout type).fields, ∀ t ∈ f.element.type?, P t)
    (hm : m.Fits S type) (htype : P type) {depth : Nat} :
    ∀ part ∈ m.parts S type depth, P part.type := by
  induction hm generalizing depth with
  | @step type m hm ih =>
    intro part hpart
    rcases Message.exists_of_mem_parts hpart with
      rfl | ⟨i, f, slot, t, m', hf, hslot, -, ht, hm', hpart⟩
    · exact htype
    · exact ih hf hslot t ht m' (slot.valueMessages_subset hm')
        (hP type htype f (List.mem_of_getElem? hf) t ht) part hpart

end Messages

/-! ### Merging below a recursion limit -/

section Limits

variable (hS : S.Valid) {n : Message} {order : FieldOrder} (order' : FieldOrder)
  (hm : m.Fits S type) (hlength : (m.encode S order (S.layout type)).length < 2 ^ 31)
  {limit : UInt32}

/-- A new reader of an encoded message, below a recursion limit. -/
def Message.reader (S : Schema) (order : FieldOrder) (type : TypeId) (m : Message)
    (limit : UInt32) : Reader :=
  { Reader.ofBytes (m.encode S order (S.layout type)) with recursionLimit := limit }

theorem Message.reader_curb :
    (m.reader S order type 0xFFFFFFFF).curb limit = m.reader S order type limit := by
  have hle : limit ≤ 0xFFFFFFFF := UInt32.le_iff_toNat_le.2 (Nat.le_of_lt_succ limit.toNat_lt)
  have hmin : min limit 0xFFFFFFFF = limit := if_pos hle
  rw [Message.reader, Reader.curb, hmin]
  rfl

include hS

include hlength in
theorem exists_applyAll_of_readContents {us : List Update} {r : Reader}
    (h : readContents S type (m.reader S order type limit) = .ok us r)
    (hv : v.Roomy S (m.encode S order (S.layout type)).length type) :
    ∃ w, applyAll S type us v = some w := by
  obtain ⟨count, hmeasured, hle⟩ := measures_readContents hS type h
  have hahead := advances_skipMessage (skippable_readContents hS type h)
  have hcount : count ≤ (m.encode S order (S.layout type)).length := by
    have hend : r.pos ≤ (m.encode S order (S.layout type)).length := hahead.le_limit (Nat.zero_le _)
    omega
  have hcapacity := two_pow_le_leastCapacity
  have hroom : v.Roomy S (0 + count) type := hv.mono (by omega)
  obtain ⟨w, hw, -⟩ := hmeasured.exists_applyAll (by omega) hroom
  exact ⟨w, hw⟩

include hm hlength in
/-- Below a limit that its nesting does not exceed, an encoded message is merged where there is
room. -/
theorem Message.Fits.exists_merge_encode (hn : n.Fits S type)
    (hroom : n.Roomy S (m.encode S order (S.layout type)).length type)
    (hparts : ∀ part ∈ m.parts S type 0, part.depth ≤ limit.toNat ∧
      part.message.declaresEnums (S.layout part.type) = true) :
    ∃ us n' r', mergeMessage S order' type ⟨n, m.reader S order type limit⟩ = .ok () ⟨n', r'⟩ ∧
      applyAll S type us (n.view S (S.layout type)) = some (n'.view S (S.layout type)) ∧
      applyAll S type us (S.blank type) = some (m.gist S (S.layout type)) := by
  have hdepth : ∀ part ∈ m.parts S type 0, part.depth ≤ 0 + limit.toNat ∧
      part.message.declaresEnums (S.layout part.type) = true := by
    simpa using hparts
  obtain ⟨us, hconveys, hblank⟩ := hm.exists_conveys hS hdepth hlength
  have hread := readContents_of_conveys hS hconveys (r := m.reader S order type limit)
    (Reader.remaining_ofBytes _ _) (Nat.zero_add _) (by simp [Message.reader, Reader.ofBytes])
  obtain ⟨w, hw⟩ := exists_applyAll_of_readContents hS hlength hread hroom.view
  obtain ⟨n', hmerge, hview⟩ := (follows_mergeMessage hS order' type hn _ _ w).2 ⟨us, hread, hw⟩
  exact ⟨us, n', _, hmerge, hview ▸ hw, hblank⟩

include hm hlength in
theorem Message.Fits.exists_merge_greatest (hn : n.Fits S type)
    (hroom : n.Roomy S (m.encode S order (S.layout type)).length type)
    (hdeclares : ∀ part ∈ m.parts S type 0,
      part.message.declaresEnums (S.layout part.type) = true) :
    ∃ us n' r', mergeMessage S order' type ⟨n, m.reader S order type 0xFFFFFFFF⟩ =
        .ok () ⟨n', r'⟩ ∧
      applyAll S type us (n.view S (S.layout type)) = some (n'.view S (S.layout type)) ∧
      applyAll S type us (S.blank type) = some (m.gist S (S.layout type)) := by
  have hgreatest : 2 ^ 31 ≤ (0xFFFFFFFF : UInt32).toNat := by decide
  refine hm.exists_merge_encode hS order' hlength hn hroom fun part hpart => ?_
  have hdepth := hm.depth_le_length order 0 part hpart
  exact ⟨by omega, hdeclares part hpart⟩

/-- What is merged below the greatest limit is merged alike below a lower one, or exceeds it. -/
theorem mergeMessage_of_greatest (limit : UInt32) {s : Merging Message}
    (h : mergeMessage S order' type ⟨n, m.reader S order type 0xFFFFFFFF⟩ = .ok () s) :
    mergeMessage S order' type ⟨n, m.reader S order type limit⟩ = .ok () (s.curb limit) ∨
      ∃ u, mergeMessage S order' type ⟨n, m.reader S order type limit⟩ =
        .error (.decode .recursionLimitExceeded) u := by
  have hcurbs : CurbsMerge limit (mergeMessage S order' type) :=
    (composed_mergeMessage (fun type => (hS type).routed) order' type).curbs
  have hstart : (⟨n, m.reader S order type 0xFFFFFFFF⟩ : Merging Message).curb limit =
      ⟨n, m.reader S order type limit⟩ := by
    rw [Merging.curb, Message.reader_curb]
  exact hstart ▸ hcurbs h

include hm hlength in
theorem Message.Fits.depth_le_of_merge (hn : n.Fits S type) {s : Merging Message}
    (h : mergeMessage S order' type ⟨n, m.reader S order type limit⟩ = .ok () s)
    (hdeclares : ∀ part ∈ m.parts S type 0,
      part.message.declaresEnums (S.layout part.type) = true) :
    ∀ part ∈ m.parts S type 0, part.depth ≤ limit.toNat := by
  obtain ⟨us, hread, -⟩ := (follows_mergeMessage hS order' type hn _ s.reader _).1 ⟨s.target, h, rfl⟩
  have hblank : (S.blank type).Fits S type := .blank (hS type)
  have hroom : (S.blank type).Roomy S (m.encode S order (S.layout type)).length type :=
    .blank (Nat.le_trans (Nat.le_trans hlength.le (by decide)) two_pow_le_leastCapacity)
  -- What is read below the limit is not deep, and can be merged into a new message.
  obtain ⟨w, hw⟩ := exists_applyAll_of_readContents hS hlength hread hroom
  obtain ⟨count, hmeasured, -⟩ := measures_readContents hS type hread
  have hlegible : w.Legible S limit.toNat type := by
    have hlevels : (m.reader S order type limit).levels = limit.toNat := rfl
    exact hlevels ▸ hmeasured.legible hS (.blank (hS type)) hw
  obtain ⟨n', hmerge, rfl⟩ := (follows_mergeMessage hS order' type hblank _ _ w).2
    ⟨us, hread, by rwa [Message.view_blank]⟩
  -- Below the greatest limit the same is merged, and shows all that is present.
  obtain ⟨us', top, r', hmergeTop, happly, happly'⟩ :=
    hm.exists_merge_greatest hS order' hlength hblank hroom hdeclares
  rcases mergeMessage_of_greatest hS order' limit hmergeTop with hcurb | ⟨u, hcurb⟩
  · obtain rfl : n' = top :=
      congrArg Merging.target (EStateM.Result.ok.inj (hmerge.symm.trans hcurb)).2
    rw [Message.view_blank, happly'] at happly
    rw [← Option.some.inj happly] at hlegible
    simpa using hm.depth_le hS 0 hlegible
  · exact nomatch hmerge.symm.trans hcurb

end Limits

section Conformance

open Conformance (schema Tree)

theorem Conformance.declaresEnums_tree (hm : m.Fits schema Tree) :
    ∀ part ∈ m.parts schema Tree 0,
      part.message.declaresEnums (schema.layout part.type) = true := by
  have hinside : ∀ f ∈ (schema.layout Tree).fields, ∀ t ∈ f.element.type?, t = Tree := by decide
  have hdeclares : ∀ f ∈ (schema.layout Tree).fields, ∀ slot, f.element.declares slot = true := by
    intro f hf slot
    fin_cases hf
    · rfl
    · rfl
    · rfl
  intro part hpart
  have htype : part.type = Tree :=
    hm.type_of_mem_parts (P := (· = Tree)) (by rintro _ rfl; exact hinside) rfl part hpart
  rw [htype]
  exact Message.declaresEnums_of_forall fun i f slot hf _ _ =>
    hdeclares f (List.mem_of_getElem? hf) slot

/-- A tree that is written is merged into any other one, with room for it, if its nesting does not
exceed the recursion limit, and the reader is on the outermost level again. Otherwise merging fails
because the limit is exceeded. -/
theorem recursion_bound_exact (V W : Conformance.Variant) (limit : UInt32) {m n : Message}
    (hm : Reachable schema V.order Tree m) (hsize : m.size schema (schema.layout Tree) < 2 ^ 31)
    (hn : Reachable schema W.order Tree n)
    (hroom : n.Roomy schema (m.size schema (schema.layout Tree)) Tree) :
    let run := mergeMessage schema W.order Tree ⟨n, m.reader schema V.order Tree limit⟩
    ((∃ s, run = .ok () s) ↔ m.nesting schema Tree ≤ limit.toNat) ∧
      ((∃ s, run = .error (.decode .recursionLimitExceeded) s) ↔
        limit.toNat < m.nesting schema Tree) ∧
      ∀ s, run = .ok () s → s.reader.depth = 0 := by
  intro run
  have hS := Conformance.valid
  have hm := hm.fits hS
  have hn := hn.fits hS
  have hlength : (m.encode schema V.order (schema.layout Tree)).length < 2 ^ 31 := by
    rwa [Message.length_encode]
  rw [← Message.length_encode schema V.order] at hroom
  have hdeclares := Conformance.declaresEnums_tree hm
  have hok : m.nesting schema Tree ≤ limit.toNat → ∃ s, run = .ok () s := by
    intro hle
    obtain ⟨_, n', r', hmerge, -⟩ := hm.exists_merge_encode hS W.order hlength hn hroom
      fun part hpart => ⟨Message.nesting_le.1 hle part hpart, hdeclares part hpart⟩
    exact ⟨_, hmerge⟩
  have hle : ∀ s, run = .ok () s → m.nesting schema Tree ≤ limit.toNat := fun s h =>
    Message.nesting_le.2 (hm.depth_le_of_merge hS W.order hlength hn h hdeclares)
  have hexceeds : limit.toNat < m.nesting schema Tree →
      ∃ s, run = .error (.decode .recursionLimitExceeded) s := by
    intro hlt
    obtain ⟨_, n', r', hgreatest, -⟩ :=
      hm.exists_merge_greatest hS W.order hlength hn hroom hdeclares
    rcases mergeMessage_of_greatest hS W.order limit hgreatest with h | h
    · exact absurd (hle _ h) (Nat.not_le_of_lt hlt)
    · exact h
  refine ⟨⟨fun ⟨s, h⟩ => hle s h, hok⟩, ⟨fun ⟨s, h⟩ => ?_, hexceeds⟩, fun s h => ?_⟩
  · by_contra hlt
    obtain ⟨t, ht⟩ := hok (Nat.le_of_not_lt hlt)
    exact nomatch h.symm.trans ht
  · obtain ⟨us, hread, -⟩ :=
      (follows_mergeMessage hS W.order Tree hn _ s.reader _).1 ⟨s.target, h, rfl⟩
    exact (advances_skipMessage (skippable_readContents hS Tree hread)).depth_eq

/-- A tree with a child is merged below a limit of one level, and exceeds a limit of none. -/
theorem recursion_bound_exact_child :
    let m := ((schema.blank Tree).mergeBytes schema .ascending Tree 100 [10, 2, 16, 5, 16, 7]).2
    (∃ s, mergeMessage schema .unordered Tree
        ⟨schema.blank Tree, m.reader schema .ascending Tree 1⟩ = .ok () s) ∧
      ∃ s, mergeMessage schema .unordered Tree
        ⟨schema.blank Tree, m.reader schema .ascending Tree 0⟩ =
          .error (.decode .recursionLimitExceeded) s := by
  have hm : Reachable schema Conformance.Variant.ascending.order Tree
      ((Action.merge 100 [10, 2, 16, 5, 16, 7]).run schema .ascending Tree (schema.blank Tree)).2 :=
    .run (.blank _) (.merge 100 [10, 2, 16, 5, 16, 7])
  have hsize : ((schema.blank Tree).mergeBytes schema .ascending Tree 100
      [10, 2, 16, 5, 16, 7]).2.size schema (schema.layout Tree) = 6 := by cbv
  have hnesting : ((schema.blank Tree).mergeBytes schema .ascending Tree 100
      [10, 2, 16, 5, 16, 7]).2.nesting schema Tree = 1 := by cbv
  have hroom : (schema.blank Tree).Roomy schema 6 Tree :=
    .blank (Nat.le_trans (by decide) two_pow_le_leastCapacity)
  have hbound := fun limit => recursion_bound_exact .ascending .unordered limit hm
    (hsize ▸ by decide) (.blank _) (hsize ▸ hroom)
  exact ⟨(hbound 1).1.2 (hnesting ▸ by decide), (hbound 0).2.1.2 (hnesting ▸ by decide)⟩

end Conformance

end ProtoWire
