import ProtoWire.Proofs.Message.Local
import ProtoWire.Proofs.Message.RoundTrip

/-!
# How much an encoded message says

* `Measured`: updates that suit a type, with how deep they nest and how many they are.
* `measures_readContents`: what is read nests no deeper than the reader may go, and has no more
  updates than bytes.
-/

namespace ProtoWire

variable {u : Update} {us : List Update} {r r' : Reader}

/-! ### Definitions -/

/-- An update with a value of the kind of a field that holds no messages. -/
inductive Element.Admits : Element → Update → Prop where
  | scalar {kind : Scalar} {default value : kind.Value} {i : Nat} :
    Admits (.scalar kind default) (.scalar i kind value)
  | enum {declared : List (String × Int32)} {default : Option Int32} {value : Int32} {i : Nat} :
    Admits (.enum declared default) (.scalar i .int32 value)
  | text {default value : String} {i : Nat} : Admits (.text default) (.text i value)
  | blob {default value : Bytes} {i : Nat} : Admits (.blob default) (.blob i value)

theorem Element.Admits.type?_eq_none {element : Element} (h : element.Admits u) :
    element.type? = none := by
  cases h <;> rfl

/-- Updates for fields of a type, with values of their kinds that are kept: at most so many levels
deep, and so many altogether. -/
inductive Measured (S : Schema) : TypeId → (levels count : Nat) → List Update → Prop where
  | nil {type : TypeId} {levels : Nat} : Measured S type levels 0 []
  | value {type : TypeId} {levels count : Nat} {f : Field} {u : Update} {us : List Update}
    (field : (S.layout type).fields[u.index]? = some f) (admits : f.element.Admits u)
    (kept : f.isRepeated = false → f.element.admits u = true)
    (rest : Measured S type levels count us) : Measured S type levels (count + 1) (u :: us)
  | message {type t : TypeId} {levels inside count : Nat} {f : Field} {i : Nat}
    {contents us : List Update} (field : (S.layout type).fields[i]? = some f)
    (element : f.element.type? = some t) (inner : Measured S t levels inside contents)
    (rest : Measured S type (levels + 1) count us) :
    Measured S type (levels + 1) (inside + count + 1) (.message i contents :: us)

/-- What is read nests no deeper than the reader may go, and has no more updates than bytes. -/
def Measures (S : Schema) (read : Reading) : Prop :=
  ∀ (type : TypeId) {r r' : Reader} {us : List Update}, read type r = .ok us r' →
    ∃ count, Measured S type r.levels count us ∧ r.pos + count ≤ r'.pos

/-! ### Composition -/

section Composition

variable {S : Schema} {type : TypeId} {levels count count' : Nat} {us' : List Update}

theorem Measured.append (h : Measured S type levels count us)
    (h' : Measured S type levels count' us') :
    Measured S type levels (count + count') (us ++ us') := by
  induction h with
  | nil => simpa using h'
  | value field admits kept rest ih =>
    rw [Nat.add_right_comm]
    exact .value field admits kept (ih h')
  | @message _ _ _ inside count _ _ _ _ field element inner rest _ ih =>
    have hcount : inside + count + 1 + count' = inside + (count + count') + 1 := by omega
    rw [hcount]
    exact .message field element inner (ih h')

theorem Reader.Ahead.levels_eq (h : r.Ahead r') : r'.levels = r.levels := by
  rw [Reader.levels, Reader.levels, h.depth_eq, h.recursionLimit_eq]

end Composition

/-! ### Payloads -/

section Payloads

variable {S : Schema} {read : Reading} (hmeasures : Measures S read) (hskip : Skippable read)
  {type : TypeId} {p : PlacedField} (hp : (S.layout type).fields[p.2]? = some p.1)
  (hnumber : p.1.number < 0x20000000)

include hmeasures in
/-- A nested message or group takes the level that it enters. -/
theorem Field.exists_measured {f : Field} {t : TypeId} (htype : f.element.type? = some t)
    (h : f.readContents read r = .ok us r') :
    ∃ levels count, r.levels = levels + 1 ∧ Measured S t levels count us ∧
      r.pos + count ≤ r'.pos := by
  obtain ⟨_, _, element, _⟩ := f
  cases element with
  | message type =>
    cases htype
    obtain ⟨limit, r₁, hopen, h⟩ := bind_eq_ok.1 h
    obtain ⟨us', r₂, hcontents, h⟩ := bind_eq_ok.1 h
    obtain ⟨_, r₃, hclose, h⟩ := bind_eq_ok.1 h
    cases h
    obtain ⟨n, t₁, hlength, henter, -, rfl, rfl⟩ := openMessage_eq_ok.1 hopen
    obtain ⟨-, rfl⟩ := closeMessage_eq_ok.1 hclose
    have hlevels := (Reader.levels_of_enterNested henter).2.1
    have hahead := advances_readLength hlength
    obtain ⟨count, hmeasured, hpos⟩ := hmeasures t hcontents
    refine ⟨_, count, hahead.levels_eq.symm.trans hlevels, hmeasured, ?_⟩
    have := hahead.pos_le
    simp only [id] at this hpos ⊢
    omega
  | group type =>
    cases htype
    obtain ⟨_, r₁, henter, h⟩ := bind_eq_ok.1 h
    obtain ⟨us', r₂, hcontents, h⟩ := bind_eq_ok.1 h
    obtain ⟨_, r₃, hclose, h⟩ := bind_eq_ok.1 h
    cases h
    obtain ⟨rfl, hlevels, -⟩ := Reader.levels_of_enterNested henter
    obtain ⟨-, rfl⟩ := closeGroup_eq_ok.1 hclose
    obtain ⟨count, hmeasured, hpos⟩ := hmeasures t hcontents
    exact ⟨_, count, hlevels, hmeasured, hpos⟩
  | scalar | enum | text | blob => cases htype

include hskip hnumber in
theorem PlacedField.ahead_readUpdate (h : p.readUpdate read r = .ok u r') : r.Ahead r' := by
  obtain ⟨r'', hpast, halike⟩ := p.skipField_readUpdate hskip hnumber h
  exact halike.ahead (advances_skipField _ hpast)

theorem PlacedField.admits_readUpdate (htype : p.1.element.type? = none)
    (h : p.readUpdate read r = .ok u r') : p.1.element.Admits u := by
  unfold PlacedField.readUpdate at h
  cases helement : p.1.element with
  | scalar | enum | text | blob =>
    rw [helement] at h
    obtain ⟨value, -, rfl⟩ := map_eq_ok.1 h
    constructor
  | message | group =>
    rw [helement] at htype
    cases htype

include hmeasures hskip hp hnumber in
/-- One value is one update, and what is inside it. The one is made up for by the tag before it. -/
theorem PlacedField.measured_readUpdate (h : p.readUpdate read r = .ok u r')
    (hkept : p.1.isRepeated = false → p.1.element.admits u = true) :
    ∃ count, Measured S type r.levels count [u] ∧ r.pos + count ≤ r'.pos + 1 := by
  cases htype : p.1.element.type? with
  | none =>
    have hpos := (p.ahead_readUpdate hskip hnumber h).pos_le
    exact ⟨1, .value (p.index_readUpdate h ▸ hp) (p.admits_readUpdate htype h) hkept .nil,
      by omega⟩
  | some t =>
    rw [PlacedField.readUpdate_of_type htype] at h
    obtain ⟨us, hus, rfl⟩ := map_eq_ok.1 h
    obtain ⟨levels, count, hlevels, hmeasured, hle⟩ := p.1.exists_measured hmeasures htype hus
    rw [hlevels]
    exact ⟨count + 0 + 1, .message hp htype hmeasured .nil, by omega⟩

include hskip hp hnumber in
theorem PlacedField.ReadsRun.measured (hpack : p.1.element.category.isPackable = true)
    (hrep : p.1.isRepeated = true) (h : p.ReadsRun read r us r') :
    ∃ count, Measured S type r.levels count us ∧ r.pos + count ≤ r'.pos := by
  have htype : p.1.element.type? = none := by
    cases helement : p.1.element with
    | scalar | enum | text | blob => rfl
    | message | group =>
      rw [helement] at hpack
      cases hpack
  induction h with
  | done => exact ⟨0, .nil, Nat.le_refl _⟩
  | more hu _ ih =>
    have hlt := PlacedField.pos_lt_of_readUpdate hpack hu
    obtain ⟨count, hmeasured, hle⟩ := ih
    rw [(p.ahead_readUpdate hskip hnumber hu).levels_eq] at hmeasured
    exact ⟨count + 1, .value (p.index_readUpdate hu ▸ hp) (p.admits_readUpdate htype hu)
      (by simp [hrep]) hmeasured, by omega⟩

include hskip hp hnumber in
theorem PlacedField.measured_readPackedUpdates (hpack : p.1.element.category.isPackable = true)
    (hrep : p.1.isRepeated = true) (h : p.readPackedUpdates read r = .ok us r') :
    ∃ count, Measured S type r.levels count us ∧ r.pos + count ≤ r'.pos := by
  obtain ⟨n, t, t', hlength, -, hus, rfl⟩ := p.readPackedUpdates_eq_ok h
  have hahead := advances_readLength hlength
  obtain ⟨count, hmeasured, hle⟩ := hus.measured hskip hp hnumber hpack hrep
  refine ⟨count, hahead.levels_eq ▸ hmeasured, ?_⟩
  have := hahead.pos_le
  simp only [id] at this hle ⊢
  omega

end Payloads

/-! ### Records -/

section Records

variable {tag : UInt32} {S : Schema} (hS : S.Valid) {read : Reading} {type : TypeId}

/-- A tag takes a byte at least; at the limit there is none. -/
theorem add_le_pos_readTag (h : readTag r = .ok tag r') :
    r.pos + (if tag = 0 then 0 else 1) ≤ r'.pos := by
  have hahead : r.Ahead r' := advances_readTag h
  split
  · exact hahead.pos_le
  · rename_i htag
    have hlt := bytesLeft_readTag h htag
    rw [Reader.bytesLeft, Reader.bytesLeft, hahead.limit_eq] at hlt
    omega

include hS

section Payload

variable (hmeasures : Measures S read) (hskip : Skippable read)

include hmeasures hskip

/-- The first byte of a record is its tag. -/
theorem measured_readPayload {more : Bool}
    (h : readPayload read (S.layout type) tag r = .ok (us, more) r') :
    ∃ count, Measured S type r.levels count us ∧ r.pos + count ≤ r'.pos + 1 := by
  have hpos := (advances_readPayload hskip (hS type) tag h).pos_le
  unfold readPayload at h
  cases hroute : (S.layout type).route tag with
  | none =>
    have hnil : us = [] := by
      simp only [hroute] at h
      split at h
      · cases h
        rfl
      · obtain ⟨_, _, -, h⟩ := bind_eq_ok.1 h
        cases h
        rfl
    exact ⟨0, hnil ▸ .nil, Nat.le_succ_of_le hpos⟩
  | some target =>
    obtain ⟨p, form⟩ := target
    have hp := ((S.layout type).route_eq_some hroute).1
    have hnumber := (hS type).number_lt p.1 (List.mem_of_getElem? hp)
    have hrep := Layout.isRepeated_of_route hroute
    cases form with
    | value =>
      simp only [hroute] at h
      obtain ⟨u, t, hu, h⟩ := bind_eq_ok.1 h
      cases h
      by_cases hadmits : p.1.element.admits u = true
      · rw [if_pos hadmits]
        exact p.measured_readUpdate hmeasures hskip hp hnumber hu fun _ => hadmits
      · rw [if_neg hadmits]
        exact ⟨0, .nil, Nat.le_succ_of_le hpos⟩
    | element =>
      simp only [hroute] at h
      obtain ⟨u, t, hu, h⟩ := bind_eq_ok.1 h
      cases h
      exact p.measured_readUpdate hmeasures hskip hp hnumber hu (by simp [hrep])
    | run =>
      simp only [hroute] at h
      obtain ⟨us', t, hus, h⟩ := bind_eq_ok.1 h
      cases h
      obtain ⟨count, hmeasured, hle⟩ := p.measured_readPackedUpdates hskip hp hnumber
        ((hS type).isPackable_of_route hroute) hrep hus
      exact ⟨count, hmeasured, by omega⟩

theorem measured_readRecords {fuel : Nat}
    (h : readRecords read (S.layout type) fuel tag r = .ok us r') :
    ∃ count, Measured S type r.levels count us ∧
      r.pos + count ≤ r'.pos + (if tag = 0 then 0 else 1) := by
  induction fuel generalizing tag r us with
  | zero => cases h
  | succ fuel ih =>
    obtain ⟨⟨us₁, more⟩, r₁, hpayload, h⟩ := bind_eq_ok.1 h
    by_cases htag : tag = 0
    · subst htag
      rw [readPayload_zero (hS type)] at hpayload
      cases hpayload
      cases h
      exact ⟨0, .nil, Nat.le_refl _⟩
    · obtain ⟨count, hmeasured, hle⟩ := measured_readPayload hS hmeasures hskip hpayload
      have hahead := advances_readPayload hskip (hS type) tag hpayload
      rw [if_neg htag]
      cases more with
      | false =>
        cases h
        exact ⟨count, hmeasured, hle⟩
      | true =>
        obtain ⟨next, r₂, hnext, h⟩ := bind_eq_ok.1 h
        obtain ⟨us₂, r₃, hrecords, h⟩ := bind_eq_ok.1 h
        cases h
        obtain ⟨count', hmeasured', hle'⟩ := ih hrecords
        have hlevels : r₂.levels = r.levels := (hahead.trans (advances_readTag hnext)).levels_eq
        have hlt := add_le_pos_readTag hnext
        exact ⟨count + count', hmeasured.append (hlevels ▸ hmeasured'), by omega⟩

end Payload

/-- What is read nests no deeper than the reader may go, and has no more updates than bytes. -/
theorem measures_readWithin (fuel : Nat) : Measures S (readWithin S fuel) := by
  induction fuel with
  | zero => exact fun _ _ _ _ => nofun
  | succ fuel ih =>
    intro type r r' us h
    obtain ⟨tag, t, htag, h⟩ := bind_eq_ok.1 h
    obtain ⟨count, hmeasured, hle⟩ := measured_readRecords hS ih (skippable_readWithin hS fuel) h
    have hlevels : t.levels = r.levels := (advances_readTag htag).levels_eq
    have hlt := add_le_pos_readTag htag
    exact ⟨count, hlevels ▸ hmeasured, by omega⟩

theorem measures_readContents : Measures S (readContents S) :=
  fun type _ _ _ h => measures_readWithin hS _ type h

end Records

end ProtoWire
