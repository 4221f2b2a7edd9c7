import ProtoWire.Proofs.Message.Room
import ProtoWire.Proofs.Wire.Checked

/-!
# Checked merging

Merging again, record by record, with every step checked for what it needs.

* `guarded_readMessage`, `guarded_readGroup`: a nested message or group is guarded if what is in it
  is.
-/

namespace ProtoWire

variable {r r' : Reader}

/-! ### Definitions -/

/-- A checked action on something stored and a reader. -/
abbrev CheckedMerge (σ : Type) := Checked Fault (Merging σ)

/-- How to merge into a message of a type, with checks. -/
abbrev CheckedNested := TypeId → CheckedMerge Message Unit

namespace Checked

section Targets

variable {σ τ α : Type}

/-- Reads, and leaves the target alone. -/
def read (x : CheckedRead α) : CheckedMerge σ α := fun s =>
  match x s.reader with
  | .ok a reader => .ok a { s with reader }
  | .error (.failure e) reader => .error (.failure (.decode e)) { s with reader }
  | .error (.breach b) reader => .error (.breach b) { s with reader }

/-- Reads a message with its length in front. -/
def readMessage (contents : CheckedMerge σ Unit) : CheckedMerge σ Unit := do
  let length ← read (take readLength)
  read (lift enterNested)
  let limit ← read (lift (pushLimit length))
  contents
  read (lift (checkLastTag 0))
  read (popLimit limit)
  read exitNested

/-- Reads a group whose start tag was read. -/
def readGroup (number : UInt32) (contents : CheckedMerge σ Unit) : CheckedMerge σ Unit := do
  read (lift enterNested)
  contents
  read (lift (checkLastTag (Tag.make number .endGroup)))
  read exitNested

end Targets

/-- Reads a text over another one. -/
def readTextInto : CheckedMerge String Unit := do
  let length ← read (take readLength)
  lift (Merge.update fun _ => "")
  if length ≠ 0 then
    let bytes ← read (take (readRaw length))
    let text ← read (lift (decodeText bytes))
    lift (Merge.update fun _ => text)

/-- Reads bytes over others. -/
def readBlobInto : CheckedMerge Bytes Unit := do
  let length ← read (take readLength)
  let bytes ← read (take (readRaw length))
  lift (Merge.update fun _ => bytes)

section Fields

variable (S : Schema) (nested : CheckedNested) (f : Field)

/-- A nested message or group, by category. -/
def readNested : CheckedMerge Message Unit :=
  match f.element with
  | .message type => readMessage (nested type)
  | .group type => readGroup f.number (nested type)
  | _ => return

/-- Reads a singular value into its slot. -/
def readSingular : CheckedMerge (Slot Message) Unit := do
  match ← lift Merge.target with
  | .scalar kind _ =>
    let value ← read (take (readScalar kind))
    lift (Merge.update fun _ => .scalar kind value)
  | .text value => Merge.within value (fun value _ => .text value) readTextInto
  | .blob value => Merge.within value (fun value _ => .blob value) readBlobInto
  | .sub value =>
    Merge.within (value.getD (f.element.blank S)) (fun m _ => .sub (some m)) (readNested nested f)
  | .scalars _ _ | .texts _ | .blobs _ | .subs _ => return

/-- Reads a value and appends it to its slot. -/
def readElement : CheckedMerge (Slot Message) Unit := do
  match ← lift Merge.target with
  | .scalars kind c =>
    let value ← read (take (readScalar kind))
    lift (Merge.edit c (fun c _ => .scalars kind c) (Repeated.add kind.storageSize value))
  | .texts c =>
    lift (Merge.edit c (fun c _ => .texts c) (Repeated.pushRecycled textSize "" fun _ => ""))
    if let .texts c ← lift Merge.target then Slot.atLast "" .texts c readTextInto
  | .blobs c =>
    lift (Merge.edit c (fun c _ => .blobs c) (Repeated.pushRecycled blobSize [] fun _ => []))
    if let .blobs c ← lift Merge.target then Slot.atLast [] .blobs c readBlobInto
  | .subs c =>
    lift (Merge.edit c (fun c _ => .subs c)
      (Repeated.pushRecycled messageSize (f.element.blank S) (f.element.clearMessage S)))
    if let .subs c ← lift Merge.target then
      Slot.atLast (f.element.blank S) .subs c (readNested nested f)
  | .scalar _ _ | .text _ | .blob _ | .sub _ => return

/-- Reads one value of a repeated field. -/
def readRecord (tag : UInt32) : CheckedMerge (Slot Message) Unit := do
  if (← lift Merge.target).remainingCapacity = 0 then
    let count ← read (repeatedLength tag)
    lift (Slot.reserve count)
  readElement S nested f

/-- Reads values up to the limit, less than `fuel` of them. -/
def readToLimit : (fuel : Nat) → CheckedMerge (Slot Message) Unit
  | 0 => throw (.breach .endless)
  | fuel + 1 => do
    if (← read get).atEnd then return
    readElement S nested f
    readToLimit fuel

/-- Reads a packed run. The bytes of the run are looked at before. -/
def readPacked : CheckedMerge (Slot Message) Unit := do
  let length ← read (take readLength)
  let limit ← read (lift (pushLimit length))
  let r ← read (take get)
  lift (Slot.reserve (f.packedCount length r))
  readToLimit S nested f (r.bytesLeft + 1)
  read (popLimit limit)

end Fields

/-- Runs an action on the slot at an index. -/
def atSlot {α : Type} (index : Nat) (x : CheckedMerge (Slot Message) α) :
    CheckedMerge Message α := do
  match (← lift Merge.target).slots[index]? with
  | some slot => Merge.within slot (fun slot m => m.setSlot index slot) x
  | none => throw (.failure .indexOutOfBounds)

section Records

variable (S : Schema) (nested : CheckedNested) (L : Layout)

/-- Reads the value of a singular field and stores it. -/
def decodeSingular (p : PlacedField) : CheckedMerge Message Unit := do
  match p.1.element with
  | .enum declared none =>
    let value ← read (take readInt32)
    if declared.any (·.2 == value) then
      lift (Merge.update fun m =>
        ((m.prepare S L p.1).setSlot p.2 (.scalar .int32 value)).markPresent p.1)
  | _ =>
    lift (Merge.update (Message.prepare S L p.1))
    atSlot p.2 (readSingular S nested p.1)
    lift (Merge.update (Message.markPresent p.1))

/-- Reads the payload of a record into its field, or skips it. -/
def mergePayload (tag : UInt32) : CheckedMerge Message Bool :=
  match L.route tag with
  | some (p, .value) => do
    decodeSingular S nested L p
    return true
  | some (p, .element) => do
    atSlot p.2 (readRecord S nested p.1 tag)
    return true
  | some (p, .run) => do
    atSlot p.2 (readPacked S nested p.1)
    return true
  | none => if tag = 0 then return false else read (skipField tag)

/-- Merges from a tag on, record by record, less than `fuel` of them. -/
def mergeRecords : (fuel : Nat) → UInt32 → CheckedMerge Message Unit
  | 0, _ => throw (.breach .endless)
  | fuel + 1, tag => do
    if ← mergePayload S nested L tag then
      mergeRecords fuel (← read (take readTag))

/-- Merges records into a message of a layout. -/
def mergeFields : CheckedMerge Message Unit := do
  let tag ← read (take readTag)
  fun s => mergeRecords S nested L (s.reader.bytesLeft + 2) tag s

end Records

/-- What `Checked.mergeMessage` does, with less than `fuel` messages inside each other. -/
def mergeWithin (S : Schema) : (fuel : Nat) → CheckedNested
  | 0, _ => throw (.breach .endless)
  | fuel + 1, type => mergeFields S (mergeWithin S fuel) (S.layout type)

/-- Merges records up to the limit, or to an end-group tag. -/
def mergeMessage (S : Schema) (type : TypeId) : CheckedMerge Message Unit := do
  mergeWithin S ((← read get).bytesLeft + 1) type

end Checked

/-! ### Guarded merges -/

/-- The number of bytes before the end of the buffer. -/
def Reader.unread (r : Reader) : Nat :=
  r.data.length - r.pos

theorem Reader.Falls.unread_le (h : r.Falls r') : r'.unread ≤ r.unread := by
  unfold Reader.unread
  rw [h.data_eq]
  exact Nat.sub_le_sub_left h.pos_le _

theorem Reader.Falls.bytesLeft_le (h : r.Falls r') : r'.bytesLeft ≤ r.bytesLeft := by
  have hlimit := h.limit_le
  have hpos := h.pos_le
  unfold Reader.bytesLeft
  omega

/-- What was read is to blame. -/
def Fault.Decoding (fault : Fault) : Prop :=
  ∃ e, fault = .decode e

/-- A checked merge does what the plain one does and fails for what was read alone. What is stored
afterwards has `I` with the number of unread bytes. -/
abbrev GuardedMerge {σ α : Type} (I : Nat → σ → Prop) (x : Merge σ α) (y : CheckedMerge σ α)
    (s : Merging σ) : Prop :=
  Guarded Merging.reader Fault.Decoding (fun t => I t.reader.unread t.target) x y s

/-- What is stored has the property with less unread bytes as well. -/
def Lasting {σ : Type} (I : Nat → σ → Prop) : Prop :=
  ∀ ⦃a b : Nat⦄ ⦃m : σ⦄, b ≤ a → I a m → I b m

section Targets

variable {σ τ α β : Type} {y : CheckedRead α} {a : α} {m : σ} {x : Merge σ α} {I : Nat → σ → Prop}
  {s : Merging σ}

theorem Checked.read_of_ok (h : y r = .ok a r') : Checked.read y ⟨m, r⟩ = .ok a ⟨m, r'⟩ := by
  simp only [Checked.read, h]

theorem Checked.read_of_failure {e : DecodeError} (h : y r = .error (.failure e) r') :
    Checked.read y ⟨m, r⟩ = .error (.failure (.decode e)) ⟨m, r'⟩ := by
  simp only [Checked.read, h]

theorem GuardedMerge.pure (hs : I s.reader.unread s.target) :
    GuardedMerge I (Pure.pure a) (Pure.pure a) s :=
  Guarded.pure hs

theorem GuardedMerge.bind {y : CheckedMerge σ α} {f : α → Merge σ β} {g : α → CheckedMerge σ β}
    (hr : s.reader.Bounded) (hx : GuardedMerge I x y s)
    (hf : ∀ a t, x s = .ok a t → s.reader.Falls t.reader → I t.reader.unread t.target →
      GuardedMerge I (f a) (g a) t) : GuardedMerge I (x >>= f) (y >>= g) s :=
  Guarded.bind hr hx (fun _ h => h) hf

/-- An action that changes the target alone needs nothing. -/
theorem guarded_of_ok (hx : x s = .ok a ⟨m, s.reader⟩) (hm : I s.reader.unread m) :
    GuardedMerge I x (Checked.lift x) s := by
  unfold GuardedMerge Guarded
  rw [hx]
  exact ⟨Checked.lift_of_ok hx, .refl _, hm⟩

theorem guarded_target (hs : I s.reader.unread s.target) :
    GuardedMerge I Merge.target (Checked.lift Merge.target) s :=
  guarded_of_ok rfl hs

theorem guarded_update {f : σ → σ} (hs : I s.reader.unread (f s.target)) :
    GuardedMerge I (Merge.update f) (Checked.lift (Merge.update f)) s :=
  guarded_of_ok rfl hs

theorem guarded_read (hI : Lasting I) (hr : s.reader.Bounded) (hs : I s.reader.unread s.target)
    {x : Read α} (hx : GuardedRead x y s.reader) :
    GuardedMerge I (Merge.read x) (Checked.read y) s := by
  unfold GuardedRead GuardedMerge Guarded Merge.read Checked.read at *
  cases hout : x s.reader with
  | ok a r =>
    rw [hout] at hx
    rw [hx.1]
    exact ⟨rfl, hx.2.1, hI (hx.2.1.falls hr).unread_le hs⟩
  | error e r =>
    rw [hout] at hx
    rw [hx.1]
    exact ⟨rfl, hx.2.1, ⟨e, rfl⟩, hI hx.2.1.unread_le hs⟩

theorem GuardedMerge.keeping {P : σ → Prop} {y : CheckedMerge σ α} (hx : GuardedMerge I x y s)
    (hP : KeepsTarget P x) (hs : P s.target) : GuardedMerge (fun a m => I a m ∧ P m) x y s := by
  have hkept := hP s hs
  unfold GuardedMerge Guarded at hx ⊢
  cases hout : x s with
  | ok a t =>
    rw [hout] at hx hkept
    exact ⟨hx.1, hx.2.1, hx.2.2, hkept⟩
  | error e t =>
    rw [hout] at hx hkept
    exact ⟨hx.1, hx.2.1, hx.2.2.1, hx.2.2.2, hkept⟩

theorem GuardedMerge.within {J : Nat → τ → Prop} {x : Merge τ α} {y : CheckedMerge τ α} {part : τ}
    {store : τ → σ → σ} (hr : s.reader.Bounded) (hx : GuardedMerge J x y ⟨part, s.reader⟩)
    (hstore : ∀ t : Merging τ, s.reader.Falls t.reader → J t.reader.unread t.target →
      I t.reader.unread (store t.target s.target)) :
    GuardedMerge I (Merge.within part store x) (Merge.within part store y) s := by
  unfold GuardedMerge Guarded Merge.within at *
  cases hout : x ⟨part, s.reader⟩ with
  | ok a t =>
    rw [hout] at hx
    rw [hx.1]
    exact ⟨rfl, hx.2.1, hstore t (hx.2.1.falls hr) hx.2.2⟩
  | error e t =>
    rw [hout] at hx
    rw [hx.1]
    exact ⟨rfl, hx.2.1, hx.2.2.1, hstore t hx.2.1 hx.2.2.2⟩

/-! ### Nested messages -/

theorem guarded_deeper {body : Merge σ Unit} {body' : CheckedMerge σ Unit}
    (hr : s.reader.Bounded) (hs : I s.reader.unread s.target)
    (hbody : GuardedMerge I body body'
      ⟨s.target, { s.reader with depth := s.reader.depth + 1 }⟩) :
    GuardedMerge I (do Merge.read enterNested; body; Merge.read exitNested)
      (do
        Checked.read (Checked.lift enterNested)
        body'
        Checked.read Checked.exitNested) s := by
  obtain ⟨_, r⟩ := s
  by_cases hdepth : r.recursionLimit ≤ r.depth
  · have henter : enterNested r = .error .recursionLimitExceeded r := by
      rw [enterNested_apply, if_pos hdepth]
    exact Guarded.bind_of_refused hr ⟨_, rfl⟩ hs (Merge.read_of_error henter)
      (Checked.read_of_failure (Checked.lift_of_error henter))
  · have henter : enterNested r = .ok () { r with depth := r.depth + 1 } :=
      enterNested_eq_ok.2 ⟨hdepth, rfl⟩
    refine Guarded.bracket (Merge.read_of_ok henter)
      (Checked.read_of_ok (Checked.lift_of_ok henter)) hbody (fun _ h => h.of_deeper)
      fun t hahead ht => ?_
    have hne : t.reader.depth ≠ 0 := hahead.depth_eq ▸ Reader.depth_succ_ne_zero hdepth
    exact ⟨_, rfl, Checked.read_of_ok (Checked.exitNested_of_ne hne), hahead.deeper, ht⟩

theorem guarded_narrower {n : Nat} {body : Merge σ Unit} {body' : CheckedMerge σ Unit}
    (hr : s.reader.Bounded) (hs : I s.reader.unread s.target)
    (hbody : s.reader.pos + n ≤ s.reader.limit → GuardedMerge I body body'
      ⟨s.target, { s.reader with limit := s.reader.pos + n }⟩) :
    GuardedMerge I
      (do
        let limit ← Merge.read (pushLimit n)
        body
        Merge.read (popLimit limit))
      (do
        let limit ← Checked.read (Checked.lift (pushLimit n))
        body'
        Checked.read (Checked.popLimit limit)) s := by
  obtain ⟨_, r⟩ := s
  by_cases hroom : r.limit < r.pos + n
  · have hpush : pushLimit n r = .error .truncated r := by rw [pushLimit_apply, if_pos hroom]
    exact Guarded.bind_of_refused hr ⟨_, rfl⟩ hs (Merge.read_of_error hpush)
      (Checked.read_of_failure (Checked.lift_of_error hpush))
  · have hle : r.pos + n ≤ r.limit := Nat.le_of_not_lt hroom
    have hpush : pushLimit n r = .ok r.limit { r with limit := r.pos + n } :=
      pushLimit_eq_ok.2 ⟨hle, rfl, rfl⟩
    refine Guarded.bracket (Merge.read_of_ok hpush)
      (Checked.read_of_ok (Checked.lift_of_ok hpush)) (hbody hle) (fun _ h => ?_)
      fun t hahead ht => ?_
    · exact ⟨h.data_eq, h.bounded, Nat.le_trans h.limit_le hle, h.pos_le⟩
    · have hlimit : t.reader.limit ≤ r.limit := hahead.limit_eq ▸ hle
      exact ⟨_, rfl, Checked.read_of_ok (Checked.popLimit_of_le hlimit),
        hahead.narrower (Nat.le_add_right _ _) hle, ht⟩

section Contents

variable {contents : Merge σ Unit} {contents' : CheckedMerge σ Unit} (hI : Lasting I)
  (hr : s.reader.Bounded) (hs : I s.reader.unread s.target)
  (hcontents : ∀ r, s.reader.Falls r → GuardedMerge I contents contents' ⟨s.target, r⟩)

include hI hr hs hcontents

theorem guarded_readMessage :
    GuardedMerge I (readMessage contents) (Checked.readMessage contents') s := by
  have hread : GuardedMerge I
      (do
        let length ← Merge.read readLength
        Merge.read enterNested
        (do
          let limit ← Merge.read (pushLimit length)
          (do contents; Merge.read (checkLastTag 0))
          Merge.read (popLimit limit))
        Merge.read exitNested)
      (do
        let length ← Checked.read (Checked.take readLength)
        Checked.read (Checked.lift enterNested)
        (do
          let limit ← Checked.read (Checked.lift (pushLimit length))
          (do contents'; Checked.read (Checked.lift (checkLastTag 0)))
          Checked.read (Checked.popLimit limit))
        Checked.read Checked.exitNested) s := by
    refine .bind hr (guarded_read hI hr hs (guarded_take hr proceeds_readLength))
      fun length t ht hfalls hts => ?_
    obtain ⟨r, hlength, rfl⟩ := Merge.read_eq_ok.1 ht
    have htr := hfalls.bounded
    have hahead := advances_readLength hlength
    refine guarded_deeper htr hts (guarded_narrower ⟨htr.pos_le, htr.limit_le⟩ hts fun hle => ?_)
    have hbounded : Reader.Bounded { r with depth := r.depth + 1, limit := r.pos + length } :=
      ⟨Nat.le_add_right _ _, Nat.le_trans hle htr.limit_le⟩
    refine .bind hbounded (hcontents _ ⟨hahead.data_eq, hbounded, ?_, hahead.pos_le⟩)
      fun _ u _ hu hus => guarded_read hI hu.bounded hus
        (guarded_lift hu.bounded (proceeds_checkLastTag 0))
    exact hahead.limit_eq ▸ hle
  simpa only [readMessage, Checked.readMessage, bind_assoc] using hread

theorem guarded_readGroup (number : UInt32) :
    GuardedMerge I (readGroup number contents) (Checked.readGroup number contents') s := by
  have hbounded : Reader.Bounded { s.reader with depth := s.reader.depth + 1 } :=
    ⟨hr.pos_le, hr.limit_le⟩
  have hread := guarded_deeper hr hs (.bind hbounded
    (hcontents _ ⟨rfl, hbounded, Nat.le_refl _, Nat.le_refl _⟩) fun _ u _ hu hus =>
      guarded_read hI hu.bounded hus
        (guarded_lift hu.bounded (proceeds_checkLastTag (Tag.make number .endGroup))))
  simpa only [readGroup, Checked.readGroup, bind_assoc] using hread

end Contents

/-! ### Payloads -/

theorem guarded_readTextInto {s : Merging String} (hr : s.reader.Bounded) :
    GuardedMerge (fun _ _ => True) readTextInto Checked.readTextInto s := by
  have hI : Lasting fun (_ : Nat) (_ : String) => True := fun _ _ _ _ h => h
  refine .bind hr (guarded_read hI hr trivial (guarded_take hr proceeds_readLength))
    fun length t _ ht _ => .bind ht.bounded (guarded_update trivial) fun _ u _ hu _ => ?_
  have hu := hu.bounded
  split
  · exact .bind hu (guarded_read hI hu trivial (guarded_take hu (proceeds_readRaw _)))
      fun bytes v _ hv _ => .bind hv.bounded
        (guarded_read hI hv.bounded trivial (guarded_lift hv.bounded (proceeds_decodeText bytes)))
        fun text w _ _ _ => guarded_update trivial
  · exact .pure trivial

theorem guarded_readBlobInto {s : Merging Bytes} (hr : s.reader.Bounded) :
    GuardedMerge (fun _ _ => True) readBlobInto Checked.readBlobInto s := by
  have hI : Lasting fun (_ : Nat) (_ : Bytes) => True := fun _ _ _ _ h => h
  exact .bind hr (guarded_read hI hr trivial (guarded_take hr proceeds_readLength))
    fun length t _ ht _ => .bind ht.bounded
      (guarded_read hI ht.bounded trivial (guarded_take ht.bounded (proceeds_readRaw length)))
      fun bytes u _ _ _ => guarded_update trivial

end Targets

end ProtoWire
