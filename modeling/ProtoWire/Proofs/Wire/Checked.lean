import ProtoWire.Proofs.Wire.Progress

/-!
# Checked reading

A read that takes bytes needs its place before the limit and the limit inside the buffer, a restored
limit must not be nearer than the one it replaces, coming back needs a level to come back from, and
a loop must come to its end. The actions do not look: here they are again with all of this checked.

* `Guarded.bind`, `Guarded.bracket`: in sequence, and around an action.
* `guarded_skipField`, `guarded_skipMessage`, `guarded_repeatedLength`: skipping is guarded.
-/

namespace ProtoWire

variable {r : Reader}

/-! ### Definitions -/

/-- What an action needs and does not find. -/
inductive Breach where
  /-- Bytes are taken past the limit, or past the end of the buffer. -/
  | outOfRange
  /-- A limit is restored that is nearer than the one it replaces. -/
  | nearerLimit
  /-- There is no level to come back from. -/
  | noLevel
  /-- A loop, or a nesting, goes on. -/
  | endless

/-- How a checked action stops early: the action fails, or needs something that is not there. -/
inductive Stop (ε : Type) where
  | failure (e : ε)
  | breach (b : Breach)

/-- A checked action. -/
abbrev Checked (ε σ : Type) := EStateM (Stop ε) σ

/-- A checked action on a reader. -/
abbrev CheckedRead := Checked DecodeError Reader

/-- The place is before the limit, and the limit inside the buffer. -/
structure Reader.Bounded (r : Reader) : Prop where
  pos_le : r.pos ≤ r.limit
  limit_le : r.limit ≤ r.data.length

instance (r : Reader) : Decidable r.Bounded :=
  decidable_of_iff (r.pos ≤ r.limit ∧ r.limit ≤ r.data.length)
    ⟨fun h => ⟨h.1, h.2⟩, fun h => ⟨h.pos_le, h.limit_le⟩⟩

namespace Checked

section Steps

variable {ε σ α : Type}

/-- An action that needs nothing. -/
def lift (x : EStateM ε σ α) : Checked ε σ α := fun s =>
  match x s with
  | .ok a t => .ok a t
  | .error e t => .error (.failure e) t

/-- Stops unless the state is as needed. -/
def require (need : σ → Prop) [DecidablePred need] (b : Breach) : Checked ε σ Unit := fun s =>
  if need s then .ok () s else .error (.breach b) s

/-- A read that takes bytes once, from where it starts. -/
def take (x : Read α) : CheckedRead α := do
  require Reader.Bounded .outOfRange
  lift x

end Steps

/-- Restores a limit. -/
def popLimit (limit : Nat) : CheckedRead Unit := do
  require (fun r => r.limit ≤ limit) .nearerLimit
  lift (ProtoWire.popLimit limit)

/-- Comes back one level. -/
def exitNested : CheckedRead Unit := do
  require (fun r => r.depth ≠ 0) .noLevel
  lift ProtoWire.exitNested

/-- Reads a length and so many bytes. -/
def readBlob : CheckedRead Bytes := do
  take (readRaw (← take readLength))

/-- Reads a length and so many bytes of text. -/
def readText : CheckedRead String := do
  lift (decodeText (← readBlob))

/-- Skips the payload of a record. -/
def skipPayload (inner : CheckedRead Unit) (tag : UInt32) : CheckedRead Bool := do
  match Tag.wireType tag with
  | .error e => throw (.failure e)
  | .ok .varint =>
    let _ ← take readVarint64
    return true
  | .ok .i64 =>
    take (skipRaw fixed64Size)
    return true
  | .ok .len =>
    take (skipRaw (← take readLength))
    return true
  | .ok .startGroup =>
    lift enterNested
    inner
    lift (checkLastTag (Tag.make (Tag.number tag) .endGroup))
    exitNested
    return true
  | .ok .endGroup => return false
  | .ok .i32 =>
    take (skipRaw fixed32Size)
    return true

/-- What `Checked.skipMessage` does, with less than `fuel` records at every level. -/
def skipMessageWithin : (fuel : Nat) → CheckedRead Unit
  | 0 => throw (.breach .endless)
  | fuel + 1 => do
    let tag ← take readTag
    if tag = 0 then return
    if ← skipPayload (skipMessageWithin fuel) tag then skipMessageWithin fuel

/-- Skips the payload of a record whose tag was read. -/
def skipField (tag : UInt32) : CheckedRead Bool := fun r =>
  skipPayload (skipMessageWithin (r.bytesLeft + 1)) tag r

/-- Skips records up to the limit or an end-group tag. -/
def skipMessage : CheckedRead Unit := fun r =>
  skipMessageWithin (r.bytesLeft + 1) r

/-- Skips the rest of a message and counts the records with the given tag, from `count` on. -/
def countRecords (tag : UInt32) : (fuel : Nat) → (count : Nat) → CheckedRead Nat
  | 0, _ => throw (.breach .endless)
  | fuel + 1, count => do
    let next ← take readTag
    if next = 0 then return count
    if next = tag then
      let _ ← skipField tag
      countRecords tag fuel (count + 1)
    else if ← skipField next then countRecords tag fuel count
    else return count

/-- The number of records of a repeated field left in the current message. -/
def repeatedLength (tag : UInt32) : CheckedRead Nat := do
  let start ← get
  let _ ← skipField tag
  let count ← countRecords tag (start.bytesLeft + 1) 1
  modify fun r => { r with pos := start.pos, lastTag := start.lastTag }
  return count

end Checked

/-! ### Readers -/

/-- What a failure makes of a reader: it is inside its bounds and not behind, and the limit is no
farther. -/
structure Reader.Falls (r r' : Reader) : Prop where
  data_eq : r'.data = r.data
  bounded : r'.Bounded
  limit_le : r'.limit ≤ r.limit
  pos_le : r.pos ≤ r'.pos

section Readers

variable {r' r'' : Reader}

theorem Reader.Bounded.ahead (h : r.Bounded) (hahead : r.Ahead r') : r'.Bounded where
  pos_le := by
    rw [hahead.limit_eq]
    exact hahead.le_limit h.pos_le
  limit_le := by
    rw [hahead.limit_eq, hahead.data_eq]
    exact h.limit_le

theorem Reader.Ahead.falls (h : r.Ahead r') (hr : r.Bounded) : r.Falls r' :=
  ⟨h.data_eq, hr.ahead h, Nat.le_of_eq h.limit_eq, h.pos_le⟩

theorem Reader.Falls.of_ahead (h : r.Ahead r') (h' : r'.Falls r'') : r.Falls r'' where
  data_eq := h'.data_eq.trans h.data_eq
  bounded := h'.bounded
  limit_le := h.limit_eq ▸ h'.limit_le
  pos_le := Nat.le_trans h.pos_le h'.pos_le

end Readers

/-! ### Guarded actions -/

section Lift

variable {ε σ α : Type} {x : EStateM ε σ α} {s t : σ}

theorem Checked.lift_of_ok {a : α} (h : x s = .ok a t) : Checked.lift x s = .ok a t := by
  rw [Checked.lift, h]

theorem Checked.lift_of_error {e : ε} (h : x s = .error e t) :
    Checked.lift x s = .error (.failure e) t := by
  rw [Checked.lift, h]

end Lift

/-- The checked action does what the plain one does from a state. If it succeeds, the reader is
further on. If it fails, it is with an error of `E`, and the reader is inside its bounds. The state
has `J` either way. -/
def Guarded {ε σ α : Type} (reader : σ → Reader) (E : ε → Prop) (J : σ → Prop)
    (x : EStateM ε σ α) (y : Checked ε σ α) (s : σ) : Prop :=
  match x s with
  | .ok a t => y s = .ok a t ∧ (reader s).Ahead (reader t) ∧ J t
  | .error e t => y s = .error (.failure e) t ∧ (reader s).Falls (reader t) ∧ E e ∧ J t

namespace Guarded

variable {ε σ α β : Type} {reader : σ → Reader} {E : ε → Prop} {J K : σ → Prop}
  {x : EStateM ε σ α} {y : Checked ε σ α} {s : σ}

theorem mono (h : Guarded reader E J x y s) (hJ : ∀ t, J t → K t) : Guarded reader E K x y s := by
  unfold Guarded at h ⊢
  cases hout : x s with
  | ok a t =>
    rw [hout] at h
    exact ⟨h.1, h.2.1, hJ t h.2.2⟩
  | error e t =>
    rw [hout] at h
    exact ⟨h.1, h.2.1, h.2.2.1, hJ t h.2.2.2⟩

theorem bind {f : α → EStateM ε σ β} {g : α → Checked ε σ β} (hr : (reader s).Bounded)
    (hx : Guarded reader E J x y s) (hJ : ∀ t, J t → K t)
    (hf : ∀ a t, x s = .ok a t → (reader s).Falls (reader t) → J t →
      Guarded reader E K (f a) (g a) t) :
    Guarded reader E K (x >>= f) (y >>= g) s := by
  unfold Guarded at hx ⊢
  cases hout : x s with
  | error e t =>
    rw [hout] at hx
    rw [bind_of_error hout, bind_of_error hx.1]
    exact ⟨rfl, hx.2.1, hx.2.2.1, hJ t hx.2.2.2⟩
  | ok a t =>
    rw [hout] at hx
    obtain ⟨hy, hahead, hj⟩ := hx
    have h := hf a t hout (hahead.falls hr) hj
    unfold Guarded at h
    rw [bind_of_ok hout, bind_of_ok hy]
    cases hout' : f a t with
    | error e u =>
      rw [hout'] at h
      exact ⟨h.1, .of_ahead hahead h.2.1, h.2.2⟩
    | ok b u =>
      rw [hout'] at h
      exact ⟨h.1, hahead.trans h.2.1, h.2.2⟩

theorem pure {a : α} (h : J s) : Guarded reader E J (Pure.pure a) (Pure.pure a) s :=
  ⟨rfl, .refl _, h⟩

theorem throw {e : ε} (hr : (reader s).Bounded) (he : E e) (h : J s) :
    Guarded reader E J (MonadExcept.throw e : EStateM ε σ α)
      (MonadExcept.throw (Stop.failure e) : Checked ε σ α) s :=
  ⟨rfl, (Reader.Ahead.refl _).falls hr, he, h⟩

theorem bind_of_refused {f : α → EStateM ε σ β} {g : α → Checked ε σ β} {e : ε}
    (hr : (reader s).Bounded) (he : E e) (hs : J s) (hx : x s = .error e s)
    (hy : y s = .error (.failure e) s) : Guarded reader E J (x >>= f) (y >>= g) s := by
  unfold Guarded
  rw [bind_of_error hx, bind_of_error hy]
  exact ⟨rfl, (Reader.Ahead.refl _).falls hr, he, hs⟩

/-- What is done before an action is undone behind it. If the action fails, it is not. -/
theorem bracket {body : EStateM ε σ Unit} {body' : Checked ε σ Unit} {undo : α → EStateM ε σ Unit}
    {undo' : α → Checked ε σ Unit} {a : α} {inside : σ} (hx : x s = .ok a inside)
    (hy : y s = .ok a inside) (hbody : Guarded reader E J body body' inside)
    (hfalls : ∀ r, (reader inside).Falls r → (reader s).Falls r)
    (hundo : ∀ t, (reader inside).Ahead (reader t) → J t → ∃ u, undo a t = .ok () u ∧
      undo' a t = .ok () u ∧ (reader s).Ahead (reader u) ∧ J u) :
    Guarded reader E J (do let a ← x; body; undo a) (do let a ← y; body'; undo' a) s := by
  unfold Guarded at hbody ⊢
  rw [bind_of_ok hx, bind_of_ok hy]
  cases hout : body inside with
  | error e t =>
    rw [hout] at hbody
    rw [bind_of_error hout, bind_of_error hbody.1]
    exact ⟨rfl, hfalls _ hbody.2.1, hbody.2.2⟩
  | ok _ t =>
    rw [hout] at hbody
    obtain ⟨u, hplain, hchecked, hahead, hu⟩ := hundo t hbody.2.1 hbody.2.2
    rw [bind_of_ok hout, bind_of_ok hbody.1, hplain, hchecked]
    exact ⟨rfl, hahead, hu⟩

end Guarded

/-! ### Reads -/

/-- The action moves the reader ahead, whatever its outcome. -/
def Proceeds {α : Type} (x : Read α) : Prop :=
  ∀ r : Reader, Keeps r.Ahead x

namespace Proceeds

variable {α β : Type} {x : Read α}

theorem of_advances (hok : Advances id x)
    (herror : ∀ ⦃r e r'⦄, x r = .error e r' → r.Ahead r') : Proceeds x := by
  intro r s hs
  cases hout : x s with
  | ok a t => exact hs.trans (hok hout)
  | error e t => exact hs.trans (herror hout)

theorem pure (a : α) : Proceeds (Pure.pure a : Read α) :=
  fun _ _ h => h

theorem bind {f : α → Read β} (hx : Proceeds x) (hf : ∀ a, Proceeds (f a)) :
    Proceeds (x >>= f) :=
  fun r => (hx r).bind fun a => hf a r

theorem map (hx : Proceeds x) (f : α → β) : Proceeds (f <$> x) := by
  rw [map_eq_pure_bind]
  exact hx.bind fun a => .pure (f a)

end Proceeds

theorem proceeds_get : Proceeds get :=
  fun _ _ h => h

theorem proceeds_readVarint64 : Proceeds readVarint64 := by
  refine .of_advances advances_readVarint64 fun r e r' h => ?_
  rw [readVarint64_eq] at h
  split at h
  · cases h
  · cases h
    exact .refl r

theorem proceeds_readVarint32 : Proceeds readVarint32 := by
  refine .of_advances advances_readVarint32 fun r e r' h => ?_
  rw [readVarint32_eq] at h
  split at h
  · cases h
  · cases h
    exact .refl r

theorem proceeds_readTag : Proceeds readTag := by
  refine .of_advances advances_readTag fun r e r' h => ?_
  rw [readTag_apply] at h
  split at h
  · cases h
  · have hvarint := proceeds_readVarint32 r r (.refl r)
    cases hout : readVarint32 r with
    | error e t =>
      rw [hout] at h hvarint
      cases h
      exact hvarint
    | ok tag t =>
      rw [hout] at h hvarint
      dsimp only at h
      split at h
      · cases h
        exact hvarint
      · cases h

theorem proceeds_checkLastTag (tag : UInt32) : Proceeds (checkLastTag tag) := by
  refine .of_advances (advances_checkLastTag tag) fun r e r' h => ?_
  rw [checkLastTag_apply] at h
  split at h
  · cases h
  · cases h
    exact .refl r

theorem proceeds_readRaw (n : Nat) : Proceeds (readRaw n) := by
  refine .of_advances (advances_readRaw n) fun r e r' h => ?_
  rw [readRaw_apply] at h
  split at h
  · cases h
    exact .refl r
  · cases h

theorem proceeds_skipRaw (n : Nat) : Proceeds (skipRaw n) :=
  (proceeds_readRaw n).bind fun _ => .pure _

theorem proceeds_readFixed (n : Nat) : Proceeds (readFixed n) := by
  refine .of_advances (advances_readFixed n) fun r e r' h => ?_
  rw [readFixed_apply] at h
  split at h
  · cases h
    exact .refl r
  · cases h

theorem proceeds_readScalar (kind : Scalar) : Proceeds (readScalar kind) := by
  cases kind
  case double | fixed64 => exact (proceeds_readFixed _).map _
  case float | fixed32 => exact (proceeds_readFixed _).map _
  case sfixed32 | sfixed64 => exact ((proceeds_readFixed _).map _).map _
  case uint64 => exact proceeds_readVarint64
  case uint32 => exact proceeds_readVarint32
  case int64 | bool | sint64 => exact proceeds_readVarint64.map _
  case int32 | sint32 => exact proceeds_readVarint32.map _

theorem proceeds_readLength : Proceeds readLength := by
  refine .of_advances advances_readLength fun r e r' h => ?_
  rw [readLength_apply] at h
  have hvarint := proceeds_readVarint32 r r (.refl r)
  cases hout : readVarint32 r with
  | error e t =>
    rw [hout] at h hvarint
    cases h
    exact hvarint
  | ok size t =>
    rw [hout] at h hvarint
    dsimp only at h
    split at h
    · cases h
      exact hvarint
    · cases h

theorem proceeds_decodeText (bytes : Bytes) : Proceeds (decodeText bytes) := by
  unfold decodeText
  split
  · exact .pure _
  · exact fun _ _ h => h

/-- A checked read does what the plain one does, and leaves the reader inside its bounds. -/
abbrev GuardedRead {α : Type} (x : Read α) (y : CheckedRead α) (r : Reader) : Prop :=
  Guarded id (fun _ => True) (fun _ => True) x y r

section Reads

variable {α β : Type} {x : Read α}

theorem GuardedRead.pure (a : α) : GuardedRead (Pure.pure a) (Pure.pure a) r :=
  Guarded.pure trivial

theorem GuardedRead.throw (hr : r.Bounded) (e : DecodeError) :
    GuardedRead (MonadExcept.throw e : Read α)
      (MonadExcept.throw (Stop.failure e) : CheckedRead α) r :=
  Guarded.throw hr trivial trivial

theorem GuardedRead.bind {y : CheckedRead α} {f : α → Read β} {g : α → CheckedRead β}
    (hr : r.Bounded) (hx : GuardedRead x y r)
    (hf : ∀ a r', x r = .ok a r' → r'.Bounded → GuardedRead (f a) (g a) r') :
    GuardedRead (x >>= f) (y >>= g) r :=
  Guarded.bind hr hx (fun _ h => h) fun a r' hok hfalls _ => hf a r' hok hfalls.bounded

theorem guarded_lift (hr : r.Bounded) (hx : Proceeds x) : GuardedRead x (Checked.lift x) r := by
  have h := hx r r (.refl r)
  unfold GuardedRead Guarded
  cases hout : x r with
  | ok a t =>
    rw [hout] at h
    exact ⟨Checked.lift_of_ok hout, h, trivial⟩
  | error e t =>
    rw [hout] at h
    exact ⟨Checked.lift_of_error hout, h.falls hr, trivial, trivial⟩

theorem Checked.take_of_bounded (hr : r.Bounded) : Checked.take x r = Checked.lift x r := by
  have hneed : Checked.require Reader.Bounded .outOfRange r =
      (.ok () r : EStateM.Result (Stop DecodeError) Reader Unit) := if_pos hr
  unfold Checked.take
  rw [bind_of_ok hneed]

theorem guarded_take (hr : r.Bounded) (hx : Proceeds x) : GuardedRead x (Checked.take x) r := by
  have h := guarded_lift hr hx
  unfold GuardedRead Guarded at h ⊢
  rwa [Checked.take_of_bounded hr]

theorem guarded_readBlob (hr : r.Bounded) : GuardedRead readBlob Checked.readBlob r :=
  .bind hr (guarded_take hr proceeds_readLength) fun n _ _ hr' =>
    guarded_take hr' (proceeds_readRaw n)

theorem guarded_readText (hr : r.Bounded) : GuardedRead readText Checked.readText r :=
  .bind hr (guarded_readBlob hr) fun bytes _ _ hr' => guarded_lift hr' (proceeds_decodeText bytes)

end Reads

/-! ### Skipping -/

theorem Reader.depth_succ_ne_zero (h : ¬ r.recursionLimit ≤ r.depth) : r.depth + 1 ≠ 0 := by
  intro hzero
  have hsucc := Reader.toNat_depth_succ (r := r) (by
    rw [← UInt32.lt_iff_toNat_lt]
    exact UInt32.not_le.1 h)
  rw [hzero] at hsucc
  cases hsucc

theorem Checked.exitNested_of_ne (h : r.depth ≠ 0) :
    Checked.exitNested r = .ok () { r with depth := r.depth - 1 } := by
  have hneed : Checked.require (fun r : Reader => r.depth ≠ 0) .noLevel r =
      (.ok () r : EStateM.Result (Stop DecodeError) Reader Unit) := if_pos h
  unfold Checked.exitNested
  rw [bind_of_ok hneed]
  rfl

theorem Checked.popLimit_of_le {limit : Nat} (h : r.limit ≤ limit) :
    Checked.popLimit limit r = .ok () { r with limit } := by
  have hneed : Checked.require (fun r : Reader => r.limit ≤ limit) .nearerLimit r =
      (.ok () r : EStateM.Result (Stop DecodeError) Reader Unit) := if_pos h
  unfold Checked.popLimit
  rw [bind_of_ok hneed]
  rfl

theorem Reader.Falls.of_deeper {r' : Reader} {depth : UInt32}
    (h : Falls { r with depth := depth } r') : r.Falls r' :=
  ⟨h.data_eq, h.bounded, h.limit_le, h.pos_le⟩

theorem guarded_nested {body : Read Unit} {body' : CheckedRead Unit} (hr : r.Bounded)
    (hbody : GuardedRead body body' { r with depth := r.depth + 1 }) :
    GuardedRead (do enterNested; body; exitNested)
      (do Checked.lift enterNested; body'; Checked.exitNested) r := by
  by_cases hdepth : r.recursionLimit ≤ r.depth
  · have henter : enterNested r = .error .recursionLimitExceeded r := by
      rw [enterNested_apply, if_pos hdepth]
    exact Guarded.bind_of_refused hr trivial trivial henter (Checked.lift_of_error henter)
  · have henter : enterNested r = .ok () { r with depth := r.depth + 1 } :=
      enterNested_eq_ok.2 ⟨hdepth, rfl⟩
    refine Guarded.bracket henter (Checked.lift_of_ok henter) hbody (fun _ h => h.of_deeper)
      fun t hahead _ => ?_
    have hne : t.depth ≠ 0 := hahead.depth_eq ▸ Reader.depth_succ_ne_zero hdepth
    exact ⟨_, rfl, Checked.exitNested_of_ne hne, hahead.deeper, trivial⟩

theorem guarded_skipPayload {inner : Read Unit} {inner' : CheckedRead Unit} (hr : r.Bounded)
    (hinner : GuardedRead inner inner' { r with depth := r.depth + 1 }) (tag : UInt32) :
    GuardedRead (skipPayload inner tag) (Checked.skipPayload inner' tag) r := by
  unfold skipPayload Checked.skipPayload
  cases Tag.wireType tag with
  | error e => exact .throw hr e
  | ok wireType =>
    cases wireType with
    | varint => exact .bind hr (guarded_take hr proceeds_readVarint64) fun _ _ _ _ => .pure true
    | i64 => exact .bind hr (guarded_take hr (proceeds_skipRaw _)) fun _ _ _ _ => .pure true
    | len =>
      exact .bind hr (guarded_take hr proceeds_readLength) fun n t _ ht =>
        .bind ht (guarded_take ht (proceeds_skipRaw n)) fun _ _ _ _ => .pure true
    | startGroup =>
      have hr' : Reader.Bounded { r with depth := r.depth + 1 } := ⟨hr.pos_le, hr.limit_le⟩
      have hgroup := guarded_nested hr (GuardedRead.bind hr' hinner fun _ t _ ht =>
        guarded_lift ht (proceeds_checkLastTag (Tag.make (Tag.number tag) .endGroup)))
      have hskip := GuardedRead.bind hr hgroup fun _ _ _ _ => GuardedRead.pure true
      simpa only [bind_assoc] using hskip
    | endGroup => exact .pure false
    | i32 => exact .bind hr (guarded_take hr (proceeds_skipRaw _)) fun _ _ _ _ => .pure true

/-- By induction on the fuel, of which each tag takes one. -/
theorem guarded_skipMessageWithin {fuel : Nat} (hr : r.Bounded) (hfuel : r.bytesLeft < fuel) :
    GuardedRead (skipMessageWithin fuel) (Checked.skipMessageWithin fuel) r := by
  induction fuel generalizing r with
  | zero => exact absurd hfuel (Nat.not_lt_zero _)
  | succ fuel ih =>
    unfold skipMessageWithin Checked.skipMessageWithin
    refine GuardedRead.bind hr (guarded_take hr proceeds_readTag) fun tag t htag ht => ?_
    split
    · exact .pure ()
    · rename_i hne
      have hlt := bytesLeft_readTag htag hne
      have hinner : GuardedRead (skipMessageWithin fuel) (Checked.skipMessageWithin fuel)
          { t with depth := t.depth + 1 } := ih ⟨ht.pos_le, ht.limit_le⟩ (by
            simp only [Reader.bytesLeft] at hlt hfuel ⊢
            omega)
      refine GuardedRead.bind ht (guarded_skipPayload ht hinner tag) fun more u hskip hu => ?_
      split
      · have hpayload := composed_skipPayload (composed_skipMessageWithin fuel) tag
        have hle := (hpayload.advances hskip).bytesLeft_le
        simp only [id] at hle
        exact ih hu (by omega)
      · exact .pure ()

section Bounds

variable (hr : r.Bounded)

include hr

theorem guarded_skipField (tag : UInt32) :
    GuardedRead (skipField tag) (Checked.skipField tag) r := by
  have hinner : GuardedRead (skipMessageWithin (r.bytesLeft + 1))
      (Checked.skipMessageWithin (r.bytesLeft + 1)) { r with depth := r.depth + 1 } :=
    guarded_skipMessageWithin ⟨hr.pos_le, hr.limit_le⟩ (Nat.lt_succ_self _)
  exact guarded_skipPayload hr hinner tag

theorem guarded_skipMessage : GuardedRead skipMessage Checked.skipMessage r :=
  guarded_skipMessageWithin hr (Nat.lt_succ_self r.bytesLeft)

omit hr in
theorem guarded_countRecords (tag : UInt32) {fuel count : Nat} (hr : r.Bounded)
    (hfuel : r.bytesLeft < fuel) :
    GuardedRead (countRecords tag fuel count) (Checked.countRecords tag fuel count) r := by
  induction fuel generalizing r count with
  | zero => exact absurd hfuel (Nat.not_lt_zero _)
  | succ fuel ih =>
    unfold countRecords Checked.countRecords
    refine GuardedRead.bind hr (guarded_take hr proceeds_readTag) fun next t hnext ht => ?_
    split
    · exact .pure count
    · rename_i hne
      have hlt := bytesLeft_readTag hnext hne
      have hrest : ∀ {tag' more u}, skipField tag' t = .ok more u → u.bytesLeft < fuel := by
        intro tag' more u hskip
        have hle := (advances_skipField tag' hskip).bytesLeft_le
        simp only [id] at hle
        omega
      split
      · exact .bind ht (guarded_skipField ht tag) fun _ u hskip hu => ih hu (hrest hskip)
      · refine GuardedRead.bind ht (guarded_skipField ht next) fun more u hskip hu => ?_
        split
        · exact ih hu (hrest hskip)
        · exact .pure count

/-- Looking ahead comes back, if it succeeds. -/
theorem guarded_repeatedLength (tag : UInt32) :
    GuardedRead (repeatedLength tag) (Checked.repeatedLength tag) r := by
  let back (count : Nat) : Reader → Nat × Reader := fun t =>
    (count, { t with pos := r.pos, lastTag := r.lastTag })
  let scan : Read Nat := skipField tag >>= fun _ => countRecords tag (r.bytesLeft + 1) 1
  let scan' : CheckedRead Nat :=
    Checked.skipField tag >>= fun _ => Checked.countRecords tag (r.bytesLeft + 1) 1
  have hscan : GuardedRead scan scan' r := by
    refine .bind hr (guarded_skipField hr tag) fun _ t hskip ht => guarded_countRecords tag ht ?_
    have hle := (advances_skipField tag hskip).bytesLeft_le
    simp only [id] at hle
    omega
  have hplain : repeatedLength tag r =
      (scan >>= fun count => modifyGet (back count)) r := by
    rw [bind_assoc]
    rfl
  have hchecked : Checked.repeatedLength tag r =
      (scan' >>= fun count => modifyGet (back count)) r := by
    rw [bind_assoc]
    rfl
  unfold GuardedRead Guarded at hscan ⊢
  cases hout : scan r with
  | error e t =>
    rw [hout] at hscan
    rw [hplain, hchecked, bind_of_error hout, bind_of_error hscan.1]
    exact ⟨rfl, hscan.2⟩
  | ok count t =>
    rw [hout] at hscan
    have hok : repeatedLength tag r = .ok count (back count t).2 := by
      rw [hplain, bind_of_ok hout]
      rfl
    rw [hok, hchecked, bind_of_ok hscan.1]
    exact ⟨rfl, (composed_repeatedLength tag).advances hok, trivial⟩

end Bounds

end ProtoWire
