import ProtoWire.Proofs.Message.Guarded

/-!
# Sessions

A session is a reader that is asked one thing after the other, also after failures, and the limits
to restore.
-/

namespace ProtoWire

variable {s : Session} {data : Bytes}

/-! ### Definitions -/

/-- What a reader can be asked. -/
inductive Operation where
  | tag
  | varint32
  | varint64
  | scalar (kind : Scalar)
  | length
  | text
  | blob
  | textInto (target : String)
  | blobInto (target : Bytes)
  | raw (n : Nat)
  | skipRaw (n : Nat)
  | checkLastTag (tag : UInt32)
  | bytesLeft
  | message (type : TypeId) (target : Message)
  | group (number : UInt32) (type : TypeId) (target : Message)
  | skipField (tag : UInt32)
  | skipMessage
  | repeatedLength (tag : UInt32)
  | countPackedVarints
  | pushLimit (n : Nat)
  | popLimit
  | rewind (position : Nat)
  | setRecursionLimit (limit : UInt32)

/-- A reader, and the limits to restore, the latest first. -/
structure Session where
  reader : Reader
  saved : List Nat

namespace Session

/-- A session at the start of a buffer. -/
def start (data : Bytes) : Session :=
  { reader := .ofBytes data, saved := [] }

/-- Runs an action on something stored, of which the session keeps the reader. -/
def apply {ε σ α : Type} (target : σ) (x : EStateM ε (Merging σ) α) : EStateM ε Session Unit :=
  fun s =>
    match x { target, reader := s.reader } with
    | .ok _ t => .ok () { s with reader := t.reader }
    | .error e t => .error e { s with reader := t.reader }

/-- Reads, and keeps the reader. -/
def read {α : Type} (x : Read α) : EStateM Fault Session Unit :=
  apply () (Merge.read x)

/-- Narrows the limit and saves the one before. -/
def pushLimit (n : Nat) : EStateM Fault Session Unit := fun s =>
  match ProtoWire.pushLimit n s.reader with
  | .ok limit reader => .ok () { reader, saved := limit :: s.saved }
  | .error e reader => .error (.decode e) { s with reader }

/-- Restores the limit that was saved last, if there is one. -/
def popLimit : EStateM Fault Session Unit := fun s =>
  match s.saved with
  | [] => .ok () s
  | limit :: saved => read (ProtoWire.popLimit limit) { s with saved }

/-- Goes to another place before the limit. -/
def rewind (position : Nat) : EStateM Fault Session Unit := fun s =>
  match s.reader.rewind position with
  | .ok reader => .ok () { s with reader }
  | .error e => .error e s

/-- Sets another recursion limit. -/
def setRecursionLimit (limit : UInt32) : EStateM Fault Session Unit :=
  modify fun s => { s with reader := { s.reader with recursionLimit := limit } }

end Session

/-- Carries out an operation. What it answers, and what becomes of a target, is not kept. -/
def Operation.run (S : Schema) (order : FieldOrder) : Operation → EStateM Fault Session Unit
  | tag => Session.read readTag
  | varint32 => Session.read readVarint32
  | varint64 => Session.read readVarint64
  | scalar kind => Session.read (readScalar kind)
  | length => Session.read readLength
  | text => Session.read readText
  | blob => Session.read readBlob
  | textInto target => Session.apply target readTextInto
  | blobInto target => Session.apply target readBlobInto
  | raw n => Session.read (readRaw n)
  | skipRaw n => Session.read (ProtoWire.skipRaw n)
  | checkLastTag t => Session.read (ProtoWire.checkLastTag t)
  | bytesLeft => Session.read (Reader.bytesLeft <$> get)
  | message type target => Session.apply target (readMessage (mergeMessage S order type))
  | group number type target =>
    Session.apply target (readGroup number (mergeMessage S order type))
  | skipField t => Session.read (ProtoWire.skipField t)
  | skipMessage => Session.read ProtoWire.skipMessage
  | repeatedLength t => Session.read (ProtoWire.repeatedLength t)
  | countPackedVarints => Session.read (Reader.countPackedVarints <$> get)
  | pushLimit n => Session.pushLimit n
  | popLimit => Session.popLimit
  | rewind position => Session.rewind position
  | setRecursionLimit limit => Session.setRecursionLimit limit

namespace Checked

/-- Reads, and keeps the reader. -/
def session {α : Type} (x : CheckedRead α) : Checked Fault Session Unit :=
  Session.apply () (read x)

/-- Restores the limit that was saved last, if there is one. -/
def sessionPopLimit : Checked Fault Session Unit := fun s =>
  match s.saved with
  | [] => .ok () s
  | limit :: saved => session (popLimit limit) { s with saved }

end Checked

/-- Carries out an operation with every step checked for what it needs. -/
def Operation.check (S : Schema) : Operation → Checked Fault Session Unit
  | tag => Checked.session (Checked.take readTag)
  | varint32 => Checked.session (Checked.take readVarint32)
  | varint64 => Checked.session (Checked.take readVarint64)
  | scalar kind => Checked.session (Checked.take (readScalar kind))
  | length => Checked.session (Checked.take readLength)
  | text => Checked.session Checked.readText
  | blob => Checked.session Checked.readBlob
  | textInto target => Session.apply target Checked.readTextInto
  | blobInto target => Session.apply target Checked.readBlobInto
  | raw n => Checked.session (Checked.take (readRaw n))
  | skipRaw n => Checked.session (Checked.take (ProtoWire.skipRaw n))
  | checkLastTag t => Checked.session (Checked.lift (ProtoWire.checkLastTag t))
  | bytesLeft => Checked.session (Checked.take (Reader.bytesLeft <$> get))
  | message type target =>
    Session.apply target (Checked.readMessage (Checked.mergeMessage S type))
  | group number type target =>
    Session.apply target (Checked.readGroup number (Checked.mergeMessage S type))
  | skipField t => Checked.session (Checked.skipField t)
  | skipMessage => Checked.session Checked.skipMessage
  | repeatedLength t => Checked.session (Checked.repeatedLength t)
  | countPackedVarints => Checked.session (Checked.take (Reader.countPackedVarints <$> get))
  | pushLimit n => Checked.lift (Session.pushLimit n)
  | popLimit => Checked.sessionPopLimit
  | rewind position => Checked.lift (Session.rewind position)
  | setRecursionLimit limit => Checked.lift (Session.setRecursionLimit limit)

/-- What is read into fits its type, and its containers have room for `n` values more. -/
def Operation.Legal (S : Schema) (n : Nat) : Operation → Prop
  | message type target | group _ type target => target.Fits S type ∧ target.Roomy S n type
  | _ => True

/-- The state after a step, whatever its outcome. -/
def Session.step (S : Schema) (order : FieldOrder) (s : Session) (op : Operation) : Session :=
  match op.run S order s with
  | .ok _ t => t
  | .error _ t => t

/-- The state after a sequence of operations. -/
def Session.after (S : Schema) (order : FieldOrder) (s : Session) (ops : List Operation) :
    Session :=
  ops.foldl (Session.step S order) s

/-- The operation stops for another reason than what was read. -/
def Operation.Panics (S : Schema) (order : FieldOrder) (op : Operation) (s : Session) : Prop :=
  ∃ fault t, op.run S order s = .error fault t ∧ ¬ fault.Decoding

/-! ### Sound sessions -/

/-- The reader is inside its bounds, in the buffer, and the saved limits go from its limit
outwards. -/
structure Session.Sound (data : Bytes) (s : Session) : Prop where
  data_eq : s.reader.data = data
  bounded : s.reader.Bounded
  limit_le : ∀ limit ∈ s.saved, s.reader.limit ≤ limit
  saved_le : ∀ limit ∈ s.saved, limit ≤ data.length
  ordered : s.saved.Pairwise (· ≤ ·)

theorem Session.Sound.start (data : Bytes) : (Session.start data).Sound data where
  data_eq := rfl
  bounded := ⟨Nat.zero_le _, Nat.le_refl _⟩
  limit_le := nofun
  saved_le := nofun
  ordered := .nil

/-- The checked action does what the plain one does from a state. It fails with a fault of `E` if at
all, and leaves a sound session. -/
def Session.Safe (data : Bytes) (E : Fault → Prop) (x : EStateM Fault Session Unit)
    (y : Checked Fault Session Unit) (s : Session) : Prop :=
  match x s with
  | .ok a t => y s = .ok a t ∧ t.Sound data
  | .error fault t => y s = .error (.failure fault) t ∧ t.Sound data ∧ E fault

theorem Session.Safe.mono {E F : Fault → Prop} {x : EStateM Fault Session Unit}
    {y : Checked Fault Session Unit} (h : Session.Safe data E x y s)
    (hE : ∀ fault, E fault → F fault) : Session.Safe data F x y s := by
  unfold Session.Safe at h ⊢
  cases hout : x s with
  | ok a t =>
    rw [hout] at h
    exact h
  | error fault t =>
    rw [hout] at h
    exact ⟨h.1, h.2.1, hE fault h.2.2⟩

section Sessions

variable {α : Type} (hs : s.Sound data)

include hs

theorem Session.Sound.falls {r : Reader} (hr : s.reader.Falls r) :
    ({ s with reader := r } : Session).Sound data where
  data_eq := hr.data_eq.trans hs.data_eq
  bounded := hr.bounded
  limit_le := fun limit hmem => Nat.le_trans hr.limit_le (hs.limit_le limit hmem)
  saved_le := hs.saved_le
  ordered := hs.ordered

theorem Session.safe_apply {σ : Type} {I : Nat → σ → Prop} {x : Merge σ α} {y : CheckedMerge σ α}
    {target : σ} (hx : GuardedMerge I x y ⟨target, s.reader⟩) :
    Session.Safe data Fault.Decoding (Session.apply target x) (Session.apply target y) s := by
  unfold GuardedMerge Guarded at hx
  unfold Session.Safe Session.apply
  cases hout : x ⟨target, s.reader⟩ with
  | ok a t =>
    rw [hout] at hx
    rw [hx.1]
    exact ⟨rfl, hs.falls (hx.2.1.falls hs.bounded)⟩
  | error e t =>
    rw [hout] at hx
    rw [hx.1]
    exact ⟨rfl, hs.falls hx.2.1, hx.2.2.1⟩

theorem Session.safe_read {x : Read α} {y : CheckedRead α} (hx : GuardedRead x y s.reader) :
    Session.Safe data Fault.Decoding (Session.read x) (Checked.session y) s :=
  Session.safe_apply (I := fun _ _ => True) hs
    (guarded_read (fun _ _ _ _ h => h) hs.bounded trivial hx)

theorem Session.safe_take {x : Read α} (hx : Proceeds x) :
    Session.Safe data Fault.Decoding (Session.read x) (Checked.session (Checked.take x)) s :=
  Session.safe_read hs (guarded_take hs.bounded hx)

theorem Session.safe_pushLimit (n : Nat) :
    Session.Safe data Fault.Decoding (Session.pushLimit n) (Checked.lift (Session.pushLimit n))
      s := by
  unfold Session.Safe Checked.lift Session.pushLimit
  rw [pushLimit_apply]
  by_cases hroom : s.reader.limit < s.reader.pos + n
  · rw [if_pos hroom]
    exact ⟨rfl, hs, ⟨_, rfl⟩⟩
  · rw [if_neg hroom]
    have hle : s.reader.pos + n ≤ s.reader.limit := Nat.le_of_not_lt hroom
    have hlimit := Nat.le_trans hle hs.bounded.limit_le
    refine ⟨rfl, hs.data_eq, ⟨Nat.le_add_right _ _, hlimit⟩, ?_, ?_, ?_⟩
    · rintro limit (_ | ⟨_, hmem⟩)
      · exact hle
      · exact Nat.le_trans hle (hs.limit_le limit hmem)
    · rintro limit (_ | ⟨_, hmem⟩)
      · exact hs.data_eq ▸ hs.bounded.limit_le
      · exact hs.saved_le limit hmem
    · exact .cons hs.limit_le hs.ordered

/-- The limit that was saved last is the nearest of those saved, and not nearer than the present
one, whatever has happened since. -/
theorem Session.safe_popLimit :
    Session.Safe data Fault.Decoding Session.popLimit Checked.sessionPopLimit s := by
  obtain ⟨r, saved⟩ := s
  cases saved with
  | nil => exact ⟨rfl, hs⟩
  | cons limit saved =>
    have hle : r.limit ≤ limit := hs.limit_le limit (.head _)
    have hchecked : Checked.sessionPopLimit ⟨r, limit :: saved⟩ =
        .ok () ⟨{ r with limit }, saved⟩ := by
      simp only [Checked.sessionPopLimit, Checked.session, Session.apply,
        Checked.read_of_ok (Checked.popLimit_of_le hle)]
    have hordered := List.pairwise_cons.1 hs.ordered
    refine ⟨hchecked, hs.data_eq, ⟨Nat.le_trans hs.bounded.pos_le hle, ?_⟩, hordered.1, ?_,
      hordered.2⟩
    · exact hs.data_eq ▸ hs.saved_le limit (.head _)
    · exact fun limit hmem => hs.saved_le limit (.tail _ hmem)

theorem Session.safe_rewind (position : Nat) :
    Session.Safe data (fun _ => s.reader.limit < position) (Session.rewind position)
      (Checked.lift (Session.rewind position)) s := by
  unfold Session.Safe Checked.lift Session.rewind Reader.rewind
  by_cases hle : position ≤ s.reader.limit
  · rw [if_pos hle]
    exact ⟨rfl, hs.data_eq, ⟨hle, hs.bounded.limit_le⟩, hs.limit_le, hs.saved_le, hs.ordered⟩
  · rw [if_neg hle]
    exact ⟨rfl, hs, Nat.lt_of_not_le hle⟩

theorem Session.safe_setRecursionLimit (limit : UInt32) :
    Session.Safe data Fault.Decoding (Session.setRecursionLimit limit)
      (Checked.lift (Session.setRecursionLimit limit)) s :=
  ⟨rfl, hs.data_eq, ⟨hs.bounded.pos_le, hs.bounded.limit_le⟩, hs.limit_le, hs.saved_le, hs.ordered⟩

end Sessions

/-! ### Steps and runs -/

/-- Why an operation may stop in a session: for what was read, or going back was asked for and the
place is past the limit. -/
def Operation.Excuses (op : Operation) (s : Session) (fault : Fault) : Prop :=
  fault.Decoding ∨ ∃ position, op = .rewind position ∧ s.reader.limit < position

section Steps

variable {op : Operation} {S : Schema} (hS : S.Valid) (order : FieldOrder)
  (hdata : data.length ≤ leastCapacity) (hs : s.Sound data)

include hS hdata hs

theorem Session.Sound.guarded_mergeMessage {type : TypeId} {target : Message}
    (hm : target.Fits S type) (hroomy : target.Roomy S data.length type) :
    Message.Spare S type 0 s.reader.unread target ∧ ∀ r, s.reader.Falls r →
      GuardedMerge (Message.Spare S type 0) (mergeMessage S order type)
        (Checked.mergeMessage S type) ⟨target, r⟩ := by
  have hunread : ∀ r, s.reader.Falls r → 0 + r.unread ≤ data.length := fun r hr => by
    rw [Nat.zero_add, Reader.unread, hr.data_eq, hs.data_eq]
    exact Nat.sub_le _ _
  have hspare : ∀ r, s.reader.Falls r → Message.Spare S type 0 r.unread target :=
    fun r hr => hroomy.mono (hunread r hr)
  refine ⟨hspare _ ((Reader.Ahead.refl _).falls hs.bounded), fun r hr => ?_⟩
  exact ProtoWire.guarded_mergeMessage hS order (r.bytesLeft + 1) 0 type ⟨target, r⟩ hr.bounded
    (Nat.lt_succ_self _) hm (Nat.le_trans (hunread r hr) hdata) (hspare r hr)

/-- An operation finds what it needs and leaves a sound session, and there is an excuse if it
stops. -/
theorem Session.Sound.safe (hop : op.Legal S data.length) :
    Session.Safe data (op.Excuses s) (op.run S order) (op.check S) s := by
  have hr := hs.bounded
  -- All operations but one fail for what was read alone.
  have hdecoding : ∀ {x y}, Session.Safe data Fault.Decoding x y s →
      Session.Safe data (op.Excuses s) x y s := fun h => h.mono fun _ => .inl
  cases op with
  | tag => exact hdecoding (Session.safe_take hs proceeds_readTag)
  | varint32 => exact hdecoding (Session.safe_take hs proceeds_readVarint32)
  | varint64 => exact hdecoding (Session.safe_take hs proceeds_readVarint64)
  | scalar kind => exact hdecoding (Session.safe_take hs (proceeds_readScalar kind))
  | length => exact hdecoding (Session.safe_take hs proceeds_readLength)
  | text => exact hdecoding (Session.safe_read hs (guarded_readText hr))
  | blob => exact hdecoding (Session.safe_read hs (guarded_readBlob hr))
  | textInto target => exact hdecoding (Session.safe_apply hs (guarded_readTextInto hr))
  | blobInto target => exact hdecoding (Session.safe_apply hs (guarded_readBlobInto hr))
  | raw n => exact hdecoding (Session.safe_take hs (proceeds_readRaw n))
  | skipRaw n => exact hdecoding (Session.safe_take hs (proceeds_skipRaw n))
  | checkLastTag tag =>
    exact hdecoding (Session.safe_read hs (guarded_lift hr (proceeds_checkLastTag tag)))
  | bytesLeft => exact hdecoding (Session.safe_take hs (proceeds_get.map _))
  | message type target =>
    obtain ⟨hspare, hcontents⟩ := hs.guarded_mergeMessage hS order hdata hop.1 hop.2
    exact hdecoding (Session.safe_apply hs
      (guarded_readMessage (s := ⟨target, s.reader⟩) lasting_message hr hspare hcontents))
  | group number type target =>
    obtain ⟨hspare, hcontents⟩ := hs.guarded_mergeMessage hS order hdata hop.1 hop.2
    exact hdecoding (Session.safe_apply hs
      (guarded_readGroup (s := ⟨target, s.reader⟩) lasting_message hr hspare hcontents number))
  | skipField tag => exact hdecoding (Session.safe_read hs (guarded_skipField hr tag))
  | skipMessage => exact hdecoding (Session.safe_read hs (guarded_skipMessage hr))
  | repeatedLength tag => exact hdecoding (Session.safe_read hs (guarded_repeatedLength hr tag))
  | countPackedVarints => exact hdecoding (Session.safe_take hs (proceeds_get.map _))
  | pushLimit n => exact hdecoding (Session.safe_pushLimit hs n)
  | popLimit => exact hdecoding (Session.safe_popLimit hs)
  | rewind position =>
    exact (Session.safe_rewind hs position).mono fun _ h => .inr ⟨position, rfl, h⟩
  | setRecursionLimit limit => exact hdecoding (Session.safe_setRecursionLimit hs limit)

theorem Session.Sound.step (hop : op.Legal S data.length) : (s.step S order op).Sound data := by
  have h := hs.safe hS order hdata hop
  unfold Session.Safe at h
  unfold Session.step
  cases hout : op.run S order s with
  | ok a t =>
    rw [hout] at h
    exact h.2
  | error fault t =>
    rw [hout] at h
    exact h.2.1

theorem Session.Sound.after {ops : List Operation} (hops : ∀ op ∈ ops, op.Legal S data.length) :
    (s.after S order ops).Sound data := by
  induction ops generalizing s with
  | nil => exact hs
  | cons op ops ih =>
    exact ih (hs.step hS order hdata (hops op (.head _))) fun op hmem => hops op (.tail _ hmem)

/-- Going back past the limit is refused, and nothing else stops for another reason than what was
read. -/
theorem Session.Sound.panics_iff (hop : op.Legal S data.length) :
    op.Panics S order s ↔ ∃ position, op = .rewind position ∧ s.reader.limit < position := by
  constructor
  · rintro ⟨fault, t, hrun, hdecoding⟩
    have h := hs.safe hS order hdata hop
    unfold Session.Safe at h
    rw [hrun] at h
    exact h.2.2.resolve_left hdecoding
  · rintro ⟨position, rfl, hlt⟩
    refine ⟨.pastLimit position s.reader.limit, s, ?_, nofun⟩
    simp only [Operation.run, Session.rewind, Reader.rewind, if_neg (Nat.not_le_of_lt hlt)]

theorem Session.Sound.check_eq (hop : op.Legal S data.length) :
    op.check S s = Checked.lift (op.run S order) s := by
  have h := hs.safe hS order hdata hop
  unfold Session.Safe at h
  cases hout : op.run S order s with
  | ok a t =>
    rw [hout] at h
    exact h.1.trans (Checked.lift_of_ok hout).symm
  | error fault t =>
    rw [hout] at h
    exact h.1.trans (Checked.lift_of_error hout).symm

end Steps

section Conformance

open Conformance (schema)

/-- Whatever a reader was asked, in whatever order and with whatever failures, its place is before
its limit and the limit inside the buffer, and no saved limit is nearer. Every operation then does
the same with all of its steps checked: no byte is taken out of range, no nearer limit is restored,
no level is left that was not entered, and no loop goes on. Only going back past the limit stops for
another reason than what was read. -/
theorem reader_safe_over_runs (V : Conformance.Variant) {data : Bytes}
    (hdata : data.length < 2 ^ 32) {ops : List Operation}
    (hops : ∀ op ∈ ops, op.Legal schema data.length) {s : Session}
    (hs : (Session.start data).after schema V.order ops = s) :
    (s.reader.data = data ∧ s.reader.pos ≤ s.reader.limit ∧ s.reader.limit ≤ data.length) ∧
      (∀ limit ∈ s.saved, s.reader.limit ≤ limit) ∧
      ∀ op : Operation, op.Legal schema data.length →
        op.check schema s = Checked.lift (op.run schema V.order) s ∧
          (op.Panics schema V.order s ↔
            ∃ position, op = .rewind position ∧ s.reader.limit < position) := by
  have hS := Conformance.valid
  have hcap : data.length ≤ leastCapacity := Nat.le_trans hdata.le two_pow_le_leastCapacity
  have hsound : s.Sound data := hs ▸ (Session.Sound.start data).after hS V.order hcap hops
  refine ⟨⟨hsound.data_eq, hsound.bounded.pos_le, ?_⟩, hsound.limit_le, fun op hop => ⟨?_, ?_⟩⟩
  · exact hsound.data_eq ▸ hsound.bounded.limit_le
  · exact hsound.check_eq hS V.order hcap hop
  · exact hsound.panics_iff hS V.order hcap hop

/-- A message that breaks off leaves its own limit and level behind. The saved limit is farther, and
may be restored. -/
theorem reader_safe_over_runs_broken_off :
    ∃ s, (Session.start [10, 3, 16, 128, 128, 26, 0]).after schema .declaration
        [.pushLimit 6, .tag, .message Conformance.Tree (schema.blank Conformance.Tree)] = s ∧
      (s.reader.depth = 1 ∧ s.reader.limit = 5 ∧ s.saved = [7]) ∧
      (s.reader.pos ≤ s.reader.limit ∧ ∀ limit ∈ s.saved, s.reader.limit ≤ limit) ∧
      Operation.popLimit.check schema s =
        Checked.lift (Operation.popLimit.run schema .declaration) s ∧
      (Operation.rewind 6).Panics schema .declaration s ∧
      ¬ (Operation.rewind 5).Panics schema .declaration s := by
  have hlegal : ∀ op ∈ [Operation.pushLimit 6, .tag,
      .message Conformance.Tree (schema.blank Conformance.Tree)], op.Legal schema 7 := by
    simp only [List.forall_mem_cons, List.not_mem_nil, false_implies, implies_true, and_true]
    exact ⟨trivial, trivial, .blank (Conformance.valid _),
      .blank (Nat.le_trans (by decide) two_pow_le_leastCapacity)⟩
  obtain ⟨s, hs, hdepth, hlimit, hsaved⟩ : ∃ s : Session,
      (Session.start [10, 3, 16, 128, 128, 26, 0]).after schema .declaration
          [.pushLimit 6, .tag, .message Conformance.Tree (schema.blank Conformance.Tree)] = s ∧
        s.reader.depth = 1 ∧ s.reader.limit = 5 ∧ s.saved = [7] :=
    ⟨_, rfl, by cbv, by cbv, by cbv⟩
  obtain ⟨⟨-, hpos, -⟩, hle, hops⟩ :=
    reader_safe_over_runs .declaration (by decide) hlegal hs
  refine ⟨s, hs, ⟨hdepth, hlimit, hsaved⟩, ⟨hpos, hle⟩, (hops .popLimit trivial).1, ?_, ?_⟩
  · exact (hops (.rewind 6) trivial).2.2 ⟨6, rfl, by rw [hlimit]; decide⟩
  · intro h
    obtain ⟨position, ⟨⟩, hlt⟩ := (hops (.rewind 5) trivial).2.1 h
    rw [hlimit] at hlt
    exact absurd hlt (by decide)

end Conformance

end ProtoWire
