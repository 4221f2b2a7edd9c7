import ProtoWire.Proofs.Message.Resting

/-!
# Unset fields and their defaults

A value is stored before its field is marked. A merge that stops inside a record of a field may leave
something behind in that field, and in no other one, until the field is set or reset.

* `Settled`: a message in use, with nothing left behind in one of its fields.
* `unset_fields_read_as_default`: what getters show of fields that are not set.
-/

namespace ProtoWire

variable {slot : Slot Message} {f : Field} {m : Message} {type : TypeId}
  {rest : Nat → Field → Slot Message → Prop}

/-! ### Copies -/

section Copies

variable {S : Schema}

theorem viewSlot_copySlot {inner : TypeId → Message → Prop} (h : f.Fits inner slot)
    (hinner : ∀ type ∈ f.element.type?, ∀ m ∈ slot.messages,
      m.copy.view S (S.layout type) = m.view S (S.layout type)) :
    viewSlot S f (copySlot slot) = viewSlot S f slot := by
  cases h.shape with
  | @sub type value _ htype =>
    cases value with
    | none => rfl
    | some m =>
      rw [copySlot, viewSlot_sub htype, viewSlot_sub htype, Option.bind_some, Option.bind_some,
        hinner type htype m (List.mem_singleton_self m)]
  | @subs type c _ htype =>
    obtain ⟨values, _, _⟩ := c
    have hvalues : (values.map Message.copy).map (Message.view S (S.layout type)) =
        values.map (Message.view S (S.layout type)) := by
      rw [List.map_map]
      exact List.map_congr_left fun m hm => hinner type htype m (List.mem_append_left _ hm)
    rw [copySlot, viewSlot_subs htype, viewSlot_subs htype, copyMessages_eq_map]
    exact congrArg (fun values => Slot.subs (.ofList values)) hvalues
  | scalar | text | blob | scalars | texts | blobs => rfl

/-- A copy looks like the message it is of. -/
theorem Message.Fits.view_copy (h : m.Fits S type) :
    m.copy.view S (S.layout type) = m.view S (S.layout type) := by
  induction h with
  | @step type m hm ih =>
    cases m
    rw [Message.copy, copySlots_eq_map]
    refine Message.ext_slots (L := S.layout type) ?_ ?_ ?_ ?_ fun i f hf => ?_
    · rw [presence_view, presence_view]
    · rw [cases_view, cases_view]
    · rw [slots_view, slotWise_view.length_eq, List.length_map]
      exact hm.length
    · rw [slots_view, slotWise_view.length_eq]
      exact hm.length
    · obtain ⟨slot, hslot⟩ := Message.exists_slot hm.length hf
      have hfits := hm.atSlot hf hslot
      rw [getElem?_view hf, getElem?_view hf, List.getElem?_map, hslot]
      exact congrArg some (viewSlot_copySlot hfits (ih hf hslot))

end Copies

/-! ### Rest -/

section Rest

variable {S : Schema}

/-- A slot is seen at the default of its field. -/
def Field.ShowsDefault (S : Schema) (f : Field) (slot : Slot Message) : Prop :=
  viewSlot S f slot = f.blankSlot

/-- A slot without messages is at its default, or an empty text. -/
def Field.DefaultOrEmpty (f : Field) (slot : Slot Message) : Prop :=
  f.element.type? = none →
    slot = f.blankSlot ∨ ∃ default, f.element = .text default ∧ slot = .text ""

theorem restful_showsDefault (hS : S.Valid) (i : Nat) :
    Restful S fun j f slot => j = i → f.ShowsDefault S slot where
  blank := fun _ f _ => viewSlot_blankSlot f
  clear := fun _ _ _ h _ _ => viewSlot_clearSlot hS h fun t ht m hm =>
    Message.view_clear hS (h.inner t ht m hm)
  copy := fun _ _ _ h _ hrest hi =>
    (viewSlot_copySlot h fun t ht m hm => (h.inner t ht m hm).view_copy).trans (hrest hi)

/-- A singular field without messages stores a plain value. -/
theorem clearSlot_copySlot_leaf {inner : TypeId → Message → Prop} (h : f.Fits inner slot)
    (hrep : f.isRepeated = false) (hleaf : f.element.type? = none) :
    clearSlot S f slot = f.blankSlot ∧ copySlot slot = slot := by
  cases h.shape with
  | scalar | text | blob => exact ⟨rfl, rfl⟩
  | sub _ htype => exact nomatch htype.symm.trans hleaf
  | scalars repeated | texts repeated | blobs repeated | subs repeated =>
    exact nomatch repeated.symm.trans hrep

theorem restful_defaultOrEmpty : Restful S fun _ f slot => f.DefaultOrEmpty slot where
  blank := fun _ _ _ => .inl rfl
  clear := fun _ _ _ h hrep hleaf => .inl (clearSlot_copySlot_leaf h hrep hleaf).1
  copy := by
    intro _ f slot h hrep hrest hleaf
    rw [(clearSlot_copySlot_leaf (S := S) h hrep hleaf).2]
    exact hrest hleaf

/-- What a read that fails disturbs is empty at most, unless it is a message. -/
theorem Field.DefaultOrEmpty.of_disturbs {slot' : Slot Message} (h : f.DefaultOrEmpty slot)
    (hdisturbs : f.Disturbs slot slot') : f.DefaultOrEmpty slot' := by
  intro hleaf
  rcases hdisturbs with rfl | ⟨default, helement, rfl⟩ | hmessage
  · exact h hleaf
  · exact .inr ⟨default, helement, rfl⟩
  · exact absurd hleaf hmessage

end Rest

/-! ### Changes -/

/-- Nothing is changed, or a container. -/
def Message.Refills (m m' : Message) : Prop :=
  m' = m ∨ ∃ (i : Nat) (slot slot' : Slot Message), m.slots[i]? = some slot ∧
    slot.isContainer = true ∧ m' = m.setSlot i slot'

section Containers

variable {S : Schema} {m' : Message} {i : Nat}

theorem Message.RefillsAt.refills (h : m.RefillsAt i m') : m.Refills m' :=
  h.imp id fun hslots => ⟨i, hslots⟩

theorem Message.Rests.refill (hm : m.Fits S type) (h : m.Rests (S.layout type) rest)
    (hrefills : m.Refills m') : m'.Rests (S.layout type) rest := by
  rcases hrefills with rfl | ⟨i, slot, slot', hslot, hcontainer, rfl⟩
  · exact h
  · obtain ⟨f, hf⟩ := hm.exists_field hslot
    refine h.setSlot_repeated hf ?_
    cases (hm.atSlot hf hslot).shape with
    | scalars repeated | texts repeated | blobs repeated | subs repeated => exact repeated
    | scalar | text | blob | sub => cases hcontainer

end Containers

section Changes

variable {S : Schema} (hS : S.Valid) {order : FieldOrder} (hrest : Restful S rest)

include hS hrest

theorem Message.Rests.of_parse {n : Message} {data : Bytes}
    (hparse : Message.parse S order type data = .ok n) : n.Rests (S.layout type) rest := by
  obtain ⟨hok, rfl⟩ := Message.parse_eq_ok.1 hparse
  exact ((Message.Rests.blank hrest).mergeBytes hS order hrest (.blank (hS type)) _ data).1 hok

/-- What is asked of unset fields is kept by every change, if it is by merging. -/
theorem Legal.rests_run {action : Action} (legal : Legal S order type action) (hm : m.Fits S type)
    (h : m.Rests (S.layout type) rest)
    (hmerge : ∀ limit data, action = .merge limit data →
      (m.mergeBytes S order type limit data).2.Rests (S.layout type) rest) :
    (action.run S order type m).2.Rests (S.layout type) rest := by
  cases legal with
  | merge limit data =>
    unfold Action.run
    exact hmerge limit data rfl
  | parse data =>
    unfold Action.run
    split
    · rename_i hparse
      exact .of_parse hS hrest hparse
    · exact h
  | clear =>
    unfold Action.run
    exact .clear hrest hm
  | copy =>
    unfold Action.run
    exact h.copy hrest hm
  | clearField index =>
    unfold Action.run
    split
    · rename_i f hf
      exact h.clearField hS hrest hm hf
    · exact h
  | clearOneof oneof =>
    unfold Action.run
    exact h.clearOneof hS hrest hm oneof
  | store | extend | within =>
    exact Action.of_singular (P := (·.Rests (S.layout type) rest)) hS hm rfl h
      fun f hf slot => h.store hS hrest hm hf slot
  | append | appendDefault | atElement | scalars | texts | blobs | subs | recycle =>
    exact h.refill hm (Action.refillsAt_run rfl).refills

end Changes

/-! ### Messages in use -/

/-- A change that drops whatever is stored in the field at a place. The accessor of a member of a
oneof does not, unless the member is set. -/
def Action.Resets (S : Schema) (order : FieldOrder) (type : TypeId) (i : Nat) : Action → Prop
  | clear => True
  | clearField j => j = i ∧ ∃ f bit, (S.layout type).fields[i]? = some f ∧
      f.placement = .singular bit
  | parse data => ∃ n, Message.parse S order type data = .ok n
  | _ => False

/-- A message in use none of whose merges stopped inside the field at a place, since the field was
last set or reset. -/
inductive Settled (S : Schema) (order : FieldOrder) (type : TypeId) (i : Nat) : Message → Prop where
  | blank : Settled S order type i (S.blank type)
  | set {m : Message} {f : Field} (start : Reachable S order type m)
    (field : (S.layout type).fields[i]? = some f) (present : m.has f i = true) :
    Settled S order type i m
  | reset {m : Message} {action : Action} (start : Reachable S order type m)
    (resets : action.Resets S order type i) : Settled S order type i (action.run S order type m).2
  | run {m : Message} {action : Action} (start : Settled S order type i m)
    (legal : Legal S order type action)
    (merged : ∀ limit data, action = .merge limit data →
      (action.run S order type m).1 = .ok () ∨ ¬m.StopsAt S order type limit data i) :
    Settled S order type i (action.run S order type m).2

section InUse

variable {S : Schema} (hS : S.Valid) {order : FieldOrder} {i : Nat}

theorem Action.Resets.legal {action : Action} (h : action.Resets S order type i) :
    Legal S order type action := by
  cases action with
  | clear => exact .clear
  | clearField j => exact .clearField j
  | parse data => exact .parse data
  | _ => exact h.elim

theorem Settled.reachable (h : Settled S order type i m) : Reachable S order type m := by
  induction h with
  | blank => exact .blank type
  | set start => exact start
  | reset start resets => exact .run start resets.legal
  | run _ legal _ ih => exact .run ih legal

include hS

theorem Action.Resets.rests {action : Action} (h : action.Resets S order type i)
    (hm : m.Fits S type) : (action.run S order type m).2.Rests (S.layout type)
      fun j f slot => j = i → f.ShowsDefault S slot := by
  have hrest := restful_showsDefault hS i
  cases action with
  | clear =>
    unfold Action.run
    exact .clear hrest hm
  | clearField j =>
    obtain ⟨rfl, f, bit, hf, hplace⟩ := h
    obtain ⟨slot, hslot⟩ := hm.exists_slot hf
    simp only [Action.run, hf, Message.clearField, hplace]
    rintro k g slot' hg hslot' hrep - rfl
    cases hf.symm.trans hg
    rw [Message.resetSlot, List.getElem?_modify_eq, hslot] at hslot'
    cases hslot'
    exact hrest.clear k f slot (hm.atSlot hf hslot) hrep rfl
  | parse data =>
    obtain ⟨n, hparse⟩ := h
    simp only [Action.run, hparse]
    exact .of_parse hS hrest hparse
  | _ => exact h.elim

theorem Settled.rests (h : Settled S order type i m) :
    m.Rests (S.layout type) fun j f slot => j = i → f.ShowsDefault S slot := by
  have hrest := restful_showsDefault hS i
  induction h with
  | blank => exact .blank hrest
  | @set m f _ field present =>
    rintro j g slot hg hslot hrep hunmarked rfl
    cases field.symm.trans hg
    rw [Message.has, hslot] at present
    rw [← Field.isPresent_of_singular hrep _ _ slot] at hunmarked
    exact nomatch present.symm.trans hunmarked
  | reset start resets => exact resets.rests hS (start.fits hS)
  | @run m action start legal merged ih =>
    have hm := start.reachable.fits hS
    refine legal.rests_run hS hrest hm ih fun limit data heq => ?_
    obtain ⟨hok, hbut⟩ := ih.mergeBytes hS order hrest hm limit data
    have hmerged := merged limit data heq
    subst heq
    unfold Action.run at hmerged
    rcases hmerged with hmerged | hstops
    · exact hok hmerged
    · refine hbut.mono fun j f slot hslot hj => ?_
      subst hj
      exact (hslot.resolve_right fun h => hstops h.1) rfl

/-- Also after merges that failed, unset fields without messages are at their defaults, or empty. -/
theorem Reachable.rests (h : Reachable S order type m) :
    m.Rests (S.layout type) fun _ f slot => f.DefaultOrEmpty slot := by
  refine @Reachable.rec S order
    (fun type m _ => m.Rests (S.layout type) fun _ f slot => f.DefaultOrEmpty slot)
    (fun _ _ _ => True) ?blank ?run ?merge ?parse ?clear ?copy ?clearField ?clearOneof ?store
    ?extend ?within ?append ?appendDefault ?atElement ?scalars ?texts ?blobs ?subs ?recycle type m h
  case blank => exact fun type => .blank restful_defaultOrEmpty
  case run =>
    intro type m action start legal hrests _
    have hm := start.fits hS
    refine legal.rests_run hS restful_defaultOrEmpty hm hrests fun limit data _ => ?_
    obtain ⟨-, hbut⟩ := hrests.mergeBytes hS order restful_defaultOrEmpty hm limit data
    refine hbut.mono fun j f slot hslot => ?_
    rcases hslot with hslot | ⟨-, slot', hslot', hdisturbs⟩
    · exact hslot
    · exact hslot'.of_disturbs hdisturbs
  -- Nothing is asked of the changes themselves.
  all_goals
    intros
    trivial

omit hS in
theorem Message.Rests.get (hm : m.Fits S type) (h : m.Rests (S.layout type) rest) {p : PlacedField}
    (hp : (S.layout type).fields[p.2]? = some p.1) (hrep : p.1.isRepeated = false)
    (hunset : m.has p.1 p.2 = false) :
    ∃ slot, rest p.2 p.1 slot ∧ m.get S p = some (viewSlot S p.1 slot) := by
  obtain ⟨slot, hslot⟩ := hm.exists_slot hp
  rw [Message.has, hslot] at hunset
  refine ⟨slot, h p.2 p.1 slot hp hslot hrep ?_, by rw [Message.get, hslot, Option.map_some]⟩
  rwa [← Field.isPresent_of_singular hrep _ _ slot]

end InUse

/-! ### Getters -/

namespace Conformance

/-- What the getter of a field answers. A variant that insists on presence fails on a singular field
that is not set. -/
def Variant.get (V : Variant) (m : Message) (p : PlacedField) :
    Except Fault (Option (Slot Message)) := do
  if V.strict && !p.1.isRepeated then m.require p
  return m.get schema p

theorem Variant.get_of_strict {V : Variant} {p : PlacedField} (hstrict : V.strict = true)
    (hrep : p.1.isRepeated = false) (hunset : m.has p.1 p.2 = false) :
    V.get m p = .error (.notSet p.1.name) := by
  simp [Variant.get, hstrict, hrep, Message.require, hunset, bind, Except.bind]

theorem Variant.get_of_lenient {V : Variant} {p : PlacedField} (hstrict : V.strict = false) :
    V.get m p = .ok (m.get schema p) := by
  simp [Variant.get, hstrict, pure, Except.pure]

/-- A singular field that is not set is shown at its default, if no merge stopped inside it since it
was last set or reset, and a merge stops inside one field at most. Without messages in it, it is
shown at its default or as an empty text, whatever happened. A getter that insists on presence
fails. -/
theorem unset_fields_read_as_default (V : Variant) (type : TypeId) {m : Message}
    (hm : Reachable schema V.order type m) {p : PlacedField}
    (hp : p ∈ (schema.layout type).fields.zipIdx) (hrep : p.1.isRepeated = false)
    (hunset : m.has p.1 p.2 = false) :
    (V.strict = false →
      (Settled schema V.order type p.2 m → V.get m p = .ok (some p.1.blankSlot)) ∧
      (p.1.element.type? = none → V.get m p = .ok (some p.1.blankSlot) ∨
        ∃ default, p.1.element = .text default ∧ V.get m p = .ok (some (.text "")))) ∧
    (V.strict = true → V.get m p = .error (.notSet p.1.name)) ∧
    ∀ limit data i j, m.StopsAt schema V.order type limit data i →
      m.StopsAt schema V.order type limit data j → i = j := by
  have hfits := hm.fits valid
  have hp := List.mem_zipIdx_iff_getElem?.1 hp
  refine ⟨fun hstrict => ?_, fun hstrict => V.get_of_strict hstrict hrep hunset, ?_⟩
  · rw [V.get_of_lenient hstrict]
    refine ⟨fun hsettled => ?_, fun hleaf => ?_⟩
    · obtain ⟨slot, hslot, hget⟩ := (hsettled.rests valid).get hfits hp hrep hunset
      rw [hget, hslot rfl]
    · obtain ⟨slot, hslot, hget⟩ := (hm.rests valid).get hfits hp hrep hunset
      rw [hget]
      rcases hslot hleaf with rfl | ⟨default, helement, rfl⟩
      · rw [viewSlot_blankSlot]
        exact .inl rfl
      · exact .inr ⟨default, helement, rfl⟩
  · rintro limit data i j ⟨tag, s, hs, hi⟩ ⟨tag', s', hs', hj⟩
    cases hs.symm.trans hs'
    exact hi.unique hj

/-- A text with a default. -/
def labelField : PlacedField := (⟨"label", 2, .text "hi", .singular ⟨1⟩⟩, 1)

/-- Bytes with a default. -/
def blobField : PlacedField := (⟨"blob", 3, .blob [1, 2], .singular ⟨2⟩⟩, 2)

/-- A text that is cut off leaves bytes at their default. Once it is cleared, the text is shown at
its own default again, unless the getter insists on presence. -/
theorem unset_fields_read_as_default_cut_off :
    ∃ m m', m = ((Action.merge 100 [18, 5]).run schema .declaration Defaults
        (schema.blank Defaults)).2 ∧
      m' = ((Action.clear).run schema .declaration Defaults m).2 ∧
      Variant.declaration.get m blobField = .ok (some (.blob [1, 2])) ∧
      Variant.declaration.get m' labelField = .ok (some (.text "hi")) ∧
      Variant.insistent.get m' labelField = .error (.notSet "label") := by
  have hm : Reachable schema .declaration Defaults _ :=
    .run (.blank Defaults) (.merge 100 [18, 5])
  have hm' : Reachable schema .declaration Defaults _ := .run hm .clear
  have hsettled : Settled schema .declaration Defaults 1 _ :=
    @Settled.reset _ _ _ _ _ .clear hm trivial
  refine ⟨_, _, rfl, rfl, ?_, ?_, ?_⟩
  · obtain h | ⟨default, h, -⟩ := ((unset_fields_read_as_default .declaration Defaults hm
      (p := blobField) (List.mem_zipIdx_iff_getElem?.2 rfl) rfl (by cbv)).1 rfl).2 rfl
    · exact h
    · cases h
  · exact ((unset_fields_read_as_default .declaration Defaults hm'
      (p := labelField) (List.mem_zipIdx_iff_getElem?.2 rfl) rfl (by cbv)).1 rfl).1 hsettled
  · exact (unset_fields_read_as_default .insistent Defaults hm'
      (p := labelField) (List.mem_zipIdx_iff_getElem?.2 rfl) rfl (by cbv)).2.1 rfl

/-- A text that is cut off is empty afterwards, and a message is what was read of it, though they
are not set. -/
theorem unset_fields_disturbed_by_failed_merge :
    (∃ m, Reachable schema .declaration Defaults m ∧
      ∃ p ∈ (schema.layout Defaults).fields.zipIdx, p.1.isRepeated = false ∧
        m.has p.1 p.2 = false ∧ Variant.declaration.get m p ≠ .ok (some p.1.blankSlot)) ∧
    ∃ m, Reachable schema .declaration Choice m ∧
      ∃ p ∈ (schema.layout Choice).fields.zipIdx, p.1.isRepeated = false ∧
        m.has p.1 p.2 = false ∧ Variant.declaration.get m p ≠ .ok (some p.1.blankSlot) := by
  refine ⟨⟨_, .run (.blank _) (.merge 100 [18, 5]),
      labelField, List.mem_zipIdx_iff_getElem?.2 rfl, rfl, by cbv, fun h => ?_⟩,
    ⟨_, .run (.blank _) (.merge 100 [26, 3, 8, 5, 255]),
      (⟨"sample", 3, .message Sample, .member 0 ⟨0⟩⟩, 2), List.mem_zipIdx_iff_getElem?.2 rfl, rfl,
      by cbv, fun h => ?_⟩⟩
  · have hempty : Variant.declaration.get ((Action.merge 100 [18, 5]).run schema .declaration
        Defaults (schema.blank Defaults)).2 labelField = .ok (some (.text "")) := by cbv
    have hsame := Slot.text.inj (Option.some.inj (Except.ok.inj (hempty.symm.trans h)))
    exact absurd hsame (by decide)
  · have hread : ∃ m, Variant.declaration.get ((Action.merge 100 [26, 3, 8, 5, 255]).run schema
        .declaration Choice (schema.blank Choice)).2
          (⟨"sample", 3, .message Sample, .member 0 ⟨0⟩⟩, 2) = .ok (some (.sub (some m))) :=
      ⟨_, by cbv⟩
    obtain ⟨m, hread⟩ := hread
    cases hread.symm.trans h

end Conformance

end ProtoWire
