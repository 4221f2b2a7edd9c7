import ProtoWire.Proofs.Message.Route
import ProtoWire.Proofs.Wire.Progress

/-!
# Merging record by record

The loops that merge a message differ in how they find the field of a tag and in how many records
they read before they look again. Here merging goes record by record instead.
-/

namespace ProtoWire

variable {σ α : Type} {x : Read α}

/-! ### Definitions -/

section Definitions

variable [Watch]

/-- Reads one value of a repeated field. A container without room first makes room for all records
of the field that are left. -/
def Field.readRecord (S : Schema) (nested : Nested) (f : Field) (tag : UInt32) :
    Merge (Slot Message) Unit := do
  if (← Merge.target).remainingCapacity = 0 then
    let count ← Merge.read (repeatedLength tag)
    Watch.reserve count
  f.readElement S nested

/-- Reads the payload of a record into its field, or skips it. Answers `false` at the end of the
message or of the enclosing group. -/
def mergePayload (S : Schema) (nested : Nested) (L : Layout) (tag : UInt32) :
    Merge Message Bool :=
  match L.route tag with
  | some (p, .value) => do
    p.decodeSingular S nested L
    return true
  | some (p, .element) => do
    atSlot p.2 (p.1.readRecord S nested tag)
    return true
  | some (p, .run) => do
    atSlot p.2 (p.1.readPacked S nested)
    return true
  | none => if tag = 0 then return false else Merge.read (skipField tag)

/-- Merges from a tag on, record by record, less than `fuel` of them. -/
def mergeRecords (S : Schema) (nested : Nested) (L : Layout) :
    (fuel : Nat) → UInt32 → Merge Message Unit
  | 0, _ => throw (.decode .truncated)
  | fuel + 1, tag => do
    if ← mergePayload S nested L tag then
      mergeRecords S nested L fuel (← Merge.read readTag)

/-- Merges from a tag on, record by record. -/
def mergeFrom (S : Schema) (nested : Nested) (L : Layout) (tag : UInt32) : Merge Message Unit :=
  fun s => mergeRecords S nested L (s.reader.bytesLeft + 2) tag s

end Definitions

/-! ### Success of parts -/

section Success

variable {τ : Type} {s s' : Merging σ} {a : α}

theorem Merge.target_apply (a : σ) (r : Reader) : Merge.target ⟨a, r⟩ = .ok a ⟨a, r⟩ :=
  rfl

theorem Merge.read_eq_ok :
    (Merge.read x : Merge σ α) s = .ok a s' ↔
      ∃ r, x s.reader = .ok a r ∧ { s with reader := r } = s' := by
  unfold Merge.read
  cases x s.reader with
  | ok b r =>
    constructor
    · rintro ⟨⟩
      exact ⟨r, rfl, rfl⟩
    · rintro ⟨_, ⟨⟩, rfl⟩
      rfl
  | error e r => simp

theorem Merge.within_eq_ok {part : τ} {store : τ → σ → σ} {x : Merge τ α} :
    Merge.within part store x s = .ok a s' ↔
      ∃ t, x { target := part, reader := s.reader } = .ok a t ∧
        { target := store t.target s.target, reader := t.reader } = s' := by
  unfold Merge.within
  cases x { target := part, reader := s.reader } with
  | ok b t =>
    constructor
    · rintro ⟨⟩
      exact ⟨t, rfl, rfl⟩
    · rintro ⟨_, ⟨⟩, rfl⟩
      rfl
  | error e t => simp

theorem Merge.edit_eq_ok {container : Repeated τ} {store : Repeated τ → σ → σ}
    {x : Repeated.Edit τ α} :
    Merge.edit container store x s = .ok a s' ↔
      ∃ c, x container = .ok a c ∧ { s with target := store c s.target } = s' := by
  unfold Merge.edit
  cases x container with
  | ok b c =>
    constructor
    · rintro ⟨⟩
      exact ⟨c, rfl, rfl⟩
    · rintro ⟨_, ⟨⟩, rfl⟩
      rfl
  | error e c => simp

end Success

/-! ### Composition -/

/-- Goes one level down around an action, and comes back. -/
def Merge.oneDeeper {σ : Type} (x : Merge σ Unit) : Merge σ Unit := do
  Merge.read enterNested
  x
  Merge.read exitNested

/-- Runs an action on so many bytes. -/
def Merge.limited {σ : Type} (n : Nat) (x : Merge σ Unit) : Merge σ Unit := do
  let limit ← Merge.read (pushLimit n)
  x
  Merge.read (popLimit limit)

/-- A merge composed of reads and of changes to the target. The bytes before the limit may be looked
at. -/
inductive ComposedMerge : {σ α : Type} → Merge σ α → Prop
  | pure {σ α : Type} (a : α) : ComposedMerge (Pure.pure a : Merge σ α)
  | throw {σ α : Type} (e : Fault) : ComposedMerge (MonadExcept.throw e : Merge σ α)
  | bind {σ α β : Type} {x : Merge σ α} {f : α → Merge σ β} (hx : ComposedMerge x)
      (hf : ∀ a, ComposedMerge (f a)) : ComposedMerge (x >>= f)
  | read {σ α : Type} {x : Read α} (hx : ComposedRead x) : ComposedMerge (Merge.read x : Merge σ α)
  | target {σ : Type} : ComposedMerge (Merge.target : Merge σ σ)
  | update {σ : Type} (f : σ → σ) : ComposedMerge (Merge.update f)
  | within {σ τ α : Type} {x : Merge τ α} (hx : ComposedMerge x) (part : τ) (store : τ → σ → σ) :
      ComposedMerge (Merge.within part store x)
  | edit {σ τ α : Type} (container : Repeated τ) (store : Repeated τ → σ → σ)
      (x : Repeated.Edit τ α) : ComposedMerge (Merge.edit container store x)
  | oneDeeper {σ : Type} {x : Merge σ Unit} (hx : ComposedMerge x) :
      ComposedMerge (Merge.oneDeeper x)
  | limited {σ : Type} (n : Nat) {x : Merge σ Unit} (hx : ComposedMerge x) :
      ComposedMerge (Merge.limited n x)
  | look {σ α : Type} {x : Bool → Nat → Bytes → Merge σ α}
      (hx : ∀ ended left bytes, ComposedMerge (x ended left bytes)) :
      ComposedMerge fun s => x s.reader.atEnd s.reader.bytesLeft s.reader.remaining s

theorem ComposedRead.merge (hx : ComposedRead x) : ComposedMerge (Merge.read x : Merge σ α) :=
  .read hx

section Composition

/-- A nested message narrows the limit and goes deeper, and takes both back. -/
theorem composed_readMessage {contents : Merge σ Unit} (h : ComposedMerge contents) :
    ComposedMerge (readMessage contents) := by
  have hmessage := composed_readLength.merge.bind fun n =>
    (ComposedMerge.limited n (h.bind fun _ => .read (.checkLastTag 0))).oneDeeper
  simpa only [Merge.oneDeeper, Merge.limited, bind_assoc, readMessage] using hmessage

theorem composed_readGroup {contents : Merge σ Unit} (h : ComposedMerge contents)
    (number : UInt32) : ComposedMerge (readGroup number contents) := by
  have hgroup := (h.bind fun _ =>
    .read (.checkLastTag (Tag.make number .endGroup))).oneDeeper
  simpa only [Merge.oneDeeper, bind_assoc, readGroup] using hgroup

theorem composed_readTextInto : ComposedMerge readTextInto := by
  refine composed_readLength.merge.bind fun length => .bind (.update _) fun _ => ?_
  split
  · exact .bind (.read (.readRaw _)) fun bytes =>
      (composed_decodeText bytes).merge.bind fun text => .update _
  · exact .pure _

theorem composed_readBlobInto : ComposedMerge readBlobInto :=
  composed_readLength.merge.bind fun _ => .bind (.read (.readRaw _)) fun _ => .update _

theorem Slot.composed_reserve (n : Nat) : ComposedMerge (Slot.reserve n) := by
  refine .bind .target fun slot => ?_
  cases slot with
  | scalars | texts | blobs | subs => exact .edit ..
  | scalar | text | blob | sub => exact .pure _

/-- A way to make room that is composed like the rest. -/
class LawfulWatch [Watch] : Prop where
  composed_reserve : ∀ n, ComposedMerge (Watch.reserve n)
  composed_packed : ∀ n {x}, ComposedMerge x → ComposedMerge (Watch.packed n x)

instance : LawfulWatch where
  composed_reserve := Slot.composed_reserve
  composed_packed _ _ hx := hx

theorem ComposedMerge.atSlot {x : Merge (Slot Message) α} (hx : ComposedMerge x) (index : Nat) :
    ComposedMerge (atSlot index x) := by
  refine .bind .target fun m => ?_
  split
  · exact hx.within ..
  · exact .throw _

section Fields

variable {S : Schema} {nested : Nested} (hnested : ∀ type, ComposedMerge (nested type)) (f : Field)

include hnested

theorem Field.composed_readNested : ComposedMerge (f.readNested nested) := by
  unfold Field.readNested
  split
  · exact composed_readMessage (hnested _)
  · exact composed_readGroup (hnested _) _
  · exact .pure _

theorem Field.composed_readSingular : ComposedMerge (f.readSingular S nested) := by
  refine .bind .target fun slot => ?_
  cases slot with
  | scalar kind => exact (composed_readScalar kind).merge.bind fun _ => .update _
  | text => exact composed_readTextInto.within ..
  | blob => exact composed_readBlobInto.within ..
  | sub => exact (f.composed_readNested hnested).within ..
  | scalars | texts | blobs | subs => exact .pure _

theorem Field.composed_readElement : ComposedMerge (f.readElement S nested) := by
  refine .bind .target fun slot => ?_
  cases slot with
  | scalars kind => exact (composed_readScalar kind).merge.bind fun _ => .edit ..
  | texts =>
    refine .bind (.edit ..) fun _ => .bind .target fun slot => ?_
    split
    · exact composed_readTextInto.within ..
    · exact .pure _
  | blobs =>
    refine .bind (.edit ..) fun _ => .bind .target fun slot => ?_
    split
    · exact composed_readBlobInto.within ..
    · exact .pure _
  | subs =>
    refine .bind (.edit ..) fun _ => .bind .target fun slot => ?_
    split
    · exact (f.composed_readNested hnested).within ..
    · exact .pure _
  | scalar | text | blob | sub => exact .pure _

theorem Field.composed_readToLimit (fuel : Nat) :
    ComposedMerge (f.readToLimit S nested fuel) := by
  induction fuel with
  | zero => exact .throw _
  | succ fuel ih =>
    have hmore (ended : Bool) : ComposedMerge (do
        if ended then return
        f.readElement S nested
        f.readToLimit S nested fuel) := by
      split
      · exact .pure _
      · exact (f.composed_readElement hnested).bind fun _ => ih
    exact .look fun ended _ _ => hmore ended

omit hnested in
theorem Field.exists_packedCount (n : Nat) :
    ∃ count : Bytes → Nat, ∀ r : Reader, f.packedCount n r = count r.remaining := by
  unfold Field.packedCount Reader.countPackedVarints
  split
  · split
    · exact ⟨fun _ => _, fun _ => rfl⟩
    · exact ⟨_, fun _ => rfl⟩
  · exact ⟨_, fun _ => rfl⟩

theorem PlacedField.composed_decodeSingular (L : Layout) (p : PlacedField) :
    ComposedMerge (p.decodeSingular S nested L) := by
  unfold PlacedField.decodeSingular
  split
  · refine (ComposedRead.readVarint32.map _).merge.bind fun value => ?_
    split
    · exact .update _
    · exact .pure _
  · exact .bind (.update _) fun _ =>
      ((p.1.composed_readSingular hnested).atSlot p.2).bind fun _ => .update _

variable [Watch] [LawfulWatch]

theorem Field.composed_readRecord (tag : UInt32) : ComposedMerge (f.readRecord S nested tag) := by
  refine .bind .target fun slot => ?_
  have helement := f.composed_readElement hnested (S := S)
  split
  · exact (composed_repeatedLength tag).merge.bind fun count =>
      (LawfulWatch.composed_reserve count).bind fun _ => helement
  · exact helement

theorem Field.composed_readPacked : ComposedMerge (f.readPacked S nested) := by
  refine composed_readLength.merge.bind fun n => ?_
  obtain ⟨count, hcount⟩ := f.exists_packedCount n
  have hrun : ComposedMerge (do
      let r ← Merge.read get
      Watch.reserve (f.packedCount n r)
      Watch.packed (f.packedCount n r) (f.readToLimit S nested (r.bytesLeft + 1))) := by
    simp only [hcount]
    exact .look (x := fun _ left bytes => do
      Watch.reserve (count bytes)
      Watch.packed (count bytes) (f.readToLimit S nested (left + 1))) fun _ left bytes =>
        (LawfulWatch.composed_reserve _).bind fun _ =>
          LawfulWatch.composed_packed _ (f.composed_readToLimit hnested _)
  simpa only [Merge.limited, bind_assoc] using ComposedMerge.limited n hrun

theorem composed_mergePayload (L : Layout) (tag : UInt32) :
    ComposedMerge (mergePayload S nested L tag) := by
  unfold mergePayload
  split
  · exact (PlacedField.composed_decodeSingular hnested L _).bind fun _ => .pure _
  · exact ((Field.composed_readRecord hnested _ tag).atSlot _).bind fun _ => .pure _
  · exact ((Field.composed_readPacked hnested _).atSlot _).bind fun _ => .pure _
  · split
    · exact .pure _
    · exact (composed_skipField tag).merge

theorem composed_mergeRecords (L : Layout) (fuel : Nat) (tag : UInt32) :
    ComposedMerge (mergeRecords S nested L fuel tag) := by
  induction fuel generalizing tag with
  | zero => exact .throw _
  | succ fuel ih =>
    refine (composed_mergePayload hnested L tag).bind fun more => ?_
    split
    · exact .bind (.read .readTag) fun next => ih next
    · exact .pure _

theorem composed_mergeFrom (L : Layout) (tag : UInt32) :
    ComposedMerge (mergeFrom S nested L tag) :=
  .look fun _ left _ => composed_mergeRecords hnested L (left + 2) tag

end Fields

end Composition

/-! ### Progress -/

section Progress

theorem Advances.read (hx : Advances id x) :
    Advances Merging.reader (Merge.read x : Merge σ α) := by
  intro s a s' h
  obtain ⟨r, hr, rfl⟩ := Merge.read_eq_ok.1 h
  exact hx hr

theorem advances_limited (n : Nat) {x : Merge σ Unit} (hx : Advances Merging.reader x) :
    Advances Merging.reader (Merge.limited n x) := by
  intro s a s' h
  obtain ⟨limit, t, hpush, h⟩ := bind_eq_ok.1 h
  obtain ⟨_, u, hu, h⟩ := bind_eq_ok.1 h
  cases h
  obtain ⟨r, hr, rfl⟩ := Merge.read_eq_ok.1 hpush
  obtain ⟨hroom, rfl, rfl⟩ := pushLimit_eq_ok.1 hr
  exact (hx hu).narrower (Nat.le_add_right _ _) hroom

/-- What is composed so only moves the reader ahead. -/
theorem ComposedMerge.advances {x : Merge σ α} (h : ComposedMerge x) :
    Advances Merging.reader x := by
  induction h with
  | pure a => exact .pure a
  | throw e => exact .throw e
  | bind _ _ hx hf => exact hx.bind hf
  | read hx => exact hx.advances.read
  | target | update f =>
    rintro s a _ ⟨⟩
    exact .refl _
  | within _ part store hx =>
    intro s a s' h
    obtain ⟨t, ht, rfl⟩ := Merge.within_eq_ok.1 h
    exact hx ht
  | edit container store x =>
    intro s a s' h
    obtain ⟨c, -, rfl⟩ := Merge.edit_eq_ok.1 h
    exact .refl _
  | oneDeeper _ hx =>
    intro s a s' h
    obtain ⟨_, t, henter, h⟩ := bind_eq_ok.1 h
    obtain ⟨_, u, hu, h⟩ := bind_eq_ok.1 h
    cases h
    obtain ⟨r, hr, rfl⟩ := Merge.read_eq_ok.1 henter
    obtain ⟨-, rfl⟩ := enterNested_eq_ok.1 hr
    exact (hx hu).deeper
  | limited n _ hx => exact advances_limited n hx
  | look _ hx => exact fun s a s' h => hx _ _ _ h

end Progress

/-! ### Fuel -/

/-- Fuel that outlasts the tags: one for the end of the message, and one for each tag and byte. -/
def Outlasts (fuel : Nat) (tag : UInt32) (r : Reader) : Prop :=
  0 < fuel ∧ (tag ≠ 0 → r.bytesLeft + 1 < fuel)

theorem Outlasts.next {fuel : Nat} {tag next : UInt32} {r r' : Reader}
    (h : Outlasts (fuel + 1) tag r) (htag : tag ≠ 0) (hnext : next ≠ 0 → r'.bytesLeft < r.bytesLeft) :
    Outlasts fuel next r' := by
  have hfuel := h.2 htag
  refine ⟨by omega, fun hne => ?_⟩
  have := hnext hne
  omega

section Fuel

variable [Watch] {S : Schema} {nested : Nested} (hnested : ∀ type, ComposedMerge (nested type))
  {L : Layout} (hL : L.Routed)

include hL in
theorem mergePayload_zero (s : Merging Message) : mergePayload S nested L 0 s = .ok false s := by
  unfold mergePayload
  rw [hL.route_zero]
  rfl

include hL in
theorem mergeFrom_zero (s : Merging Message) : mergeFrom S nested L 0 s = .ok () s := by
  unfold mergeFrom mergeRecords
  rw [bind_of_ok (mergePayload_zero hL s)]
  rfl

variable [LawfulWatch]

include hnested hL

/-- After a payload, what follows counts only where it has fewer bytes left. -/
theorem mergePayload_congr {rest rest' : UInt32 → Merge Message Unit} {tag : UInt32}
    {s : Merging Message}
    (hrest : tag ≠ 0 → ∀ (next : UInt32) (t : Merging Message),
      (next ≠ 0 → t.reader.bytesLeft < s.reader.bytesLeft) → rest next t = rest' next t) :
    (do if ← mergePayload S nested L tag then rest (← Merge.read readTag)) s =
      (do if ← mergePayload S nested L tag then rest' (← Merge.read readTag)) s := by
  refine bind_congr_ok fun more t ht => ?_
  have hpayload := ((composed_mergePayload hnested L tag).advances ht).bytesLeft_le
  cases more with
  | false => rfl
  | true =>
    have htag : tag ≠ 0 := by
      rintro rfl
      exact nomatch ht.symm.trans (mergePayload_zero hL s)
    refine bind_congr_ok fun next u hu => hrest htag next u fun hne => ?_
    obtain ⟨r, hr, rfl⟩ := Merge.read_eq_ok.1 hu
    exact Nat.lt_of_lt_of_le (bytesLeft_readTag hr hne) hpayload

theorem mergeRecords_congr {fuel fuel' : Nat} {tag : UInt32} {s : Merging Message}
    (h : Outlasts fuel tag s.reader) (h' : Outlasts fuel' tag s.reader) :
    mergeRecords S nested L fuel tag s = mergeRecords S nested L fuel' tag s := by
  induction fuel generalizing fuel' tag s with
  | zero => exact absurd h.1 (Nat.lt_irrefl 0)
  | succ fuel ih =>
    cases fuel' with
    | zero => exact absurd h'.1 (Nat.lt_irrefl 0)
    | succ fuel' =>
      exact mergePayload_congr hnested hL fun htag next t hnext =>
        ih (h.next htag hnext) (h'.next htag hnext)

/-- Merging from a tag on: its payload, and then from the next tag on. -/
theorem mergeFrom_apply (tag : UInt32) (s : Merging Message) :
    mergeFrom S nested L tag s =
      (do
        if ← mergePayload S nested L tag then
          mergeFrom S nested L (← Merge.read readTag)) s := by
  refine mergePayload_congr hnested hL fun htag next t hnext => ?_
  have henough : Outlasts (s.reader.bytesLeft + 2) tag s.reader := ⟨by omega, by omega⟩
  exact mergeRecords_congr hnested hL (henough.next htag hnext) ⟨by omega, by omega⟩

end Fuel

end ProtoWire
