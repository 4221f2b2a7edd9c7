import ProtoWire.Proofs.Message.Update

/-!
# The contents of an encoded message

Reading the records of a message does not depend on what is stored. Here they are read as updates,
one after the other, without looking ahead.
-/

namespace ProtoWire

variable {r r' : Reader}

/-! ### Definitions -/

/-- What precedes the records of a nested message: its length, which becomes the limit. Answers the
limit before. -/
def openMessage : Read Nat := do
  let length ← readLength
  enterNested
  pushLimit length

/-- What follows the records of a nested message. -/
def closeMessage (limit : Nat) : Read Unit := do
  checkLastTag 0
  popLimit limit
  exitNested

/-- What follows the records of a group. -/
def closeGroup (number : UInt32) : Read Unit := do
  checkLastTag (Tag.make number .endGroup)
  exitNested

/-- What precedes the values of a packed run. Answers the limit before, and the length. -/
def openRun : Read (Nat × Nat) := do
  let length ← readLength
  let limit ← pushLimit length
  return (limit, length)

/-- How the contents of a message of a type are read. -/
abbrev Reading := TypeId → Read (List Update)

/-- The contents of a nested message or group, by category. -/
def Field.readContents (read : Reading) (f : Field) : Read (List Update) :=
  match f.element with
  | .message type => do
    let limit ← openMessage
    let us ← read type
    closeMessage limit
    return us
  | .group type => do
    enterNested
    let us ← read type
    closeGroup f.number
    return us
  | _ => return []

namespace PlacedField

/-- One value of a field. -/
def readUpdate (read : Reading) (p : PlacedField) : Read Update :=
  match p.1.element with
  | .scalar kind _ => Update.scalar p.2 kind <$> readScalar kind
  | .enum _ _ => Update.scalar p.2 .int32 <$> readScalar .int32
  | .text _ => Update.text p.2 <$> readText
  | .blob _ => Update.blob p.2 <$> readBlob
  | .message _ | .group _ => Update.message p.2 <$> p.1.readContents read

/-- Values up to the limit, less than `fuel` of them. -/
def readUpdates (read : Reading) (p : PlacedField) : (fuel : Nat) → Read (List Update)
  | 0 => throw .truncated
  | fuel + 1 => do
    if (← get).atEnd then return []
    let u ← p.readUpdate read
    let us ← p.readUpdates read fuel
    return u :: us

/-- A packed run of values. -/
def readPackedUpdates (read : Reading) (p : PlacedField) : Read (List Update) := do
  let (limit, length) ← openRun
  let us ← p.readUpdates read (length + 1)
  popLimit limit
  return us

end PlacedField

/-- Whether a value is kept: an enum without default drops numbers that it does not declare. -/
def Element.admits : Element → Update → Bool
  | .enum declared none, .scalar _ .int32 value => declared.any (·.2 == value)
  | _, _ => true

/-- What a record says, whose tag was read, and whether another may follow. -/
def readPayload (read : Reading) (L : Layout) (tag : UInt32) : Read (List Update × Bool) :=
  match L.route tag with
  | some (p, .value) => do
    let u ← p.readUpdate read
    return (if p.1.element.admits u then [u] else [], true)
  | some (p, .element) => do
    let u ← p.readUpdate read
    return ([u], true)
  | some (p, .run) => do
    let us ← p.readPackedUpdates read
    return (us, true)
  | none => if tag = 0 then return ([], false) else do return ([], ← skipField tag)

/-- What records say from a tag on, less than `fuel` of them. -/
def readRecords (read : Reading) (L : Layout) : (fuel : Nat) → UInt32 → Read (List Update)
  | 0, _ => throw .truncated
  | fuel + 1, tag => do
    let (us, more) ← readPayload read L tag
    if more then
      let us' ← readRecords read L fuel (← readTag)
      return us ++ us'
    else return us

/-- What records say from a tag on. -/
def readFrom (read : Reading) (L : Layout) (tag : UInt32) : Read (List Update) := fun r =>
  readRecords read L (r.bytesLeft + 2) tag r

/-- What `readContents` does, with less than `fuel` messages inside each other. -/
def readWithin (S : Schema) : (fuel : Nat) → Reading
  | 0, _ => throw .truncated
  | fuel + 1, type => readTag >>= readFrom (readWithin S fuel) (S.layout type)

/-- What an encoded message says, up to the limit or to an end-group tag. -/
def readContents (S : Schema) : Reading := fun type r =>
  readWithin S (r.bytesLeft + 1) type r

/-! ### Brackets -/

theorem openMessage_eq_ok {limit : Nat} :
    openMessage r = .ok limit r' ↔ ∃ n t, readLength r = .ok n t ∧
      enterNested t = .ok () { t with depth := t.depth + 1 } ∧ t.pos + n ≤ t.limit ∧
      t.limit = limit ∧ { t with depth := t.depth + 1, limit := t.pos + n } = r' := by
  constructor
  · intro h
    obtain ⟨n, t, hlength, h⟩ := bind_eq_ok.1 h
    obtain ⟨_, u, henter, h⟩ := bind_eq_ok.1 h
    obtain ⟨-, rfl⟩ := enterNested_eq_ok.1 henter
    exact ⟨n, t, hlength, henter, pushLimit_eq_ok.1 h⟩
  · rintro ⟨n, t, hlength, henter, h⟩
    exact bind_eq_ok.2 ⟨n, t, hlength, bind_eq_ok.2 ⟨(), _, henter, pushLimit_eq_ok.2 h⟩⟩

theorem closeMessage_eq_ok {limit : Nat} :
    closeMessage limit r = .ok () r' ↔
      r.lastTag = 0 ∧ { r with limit, depth := r.depth - 1 } = r' := by
  constructor
  · intro h
    obtain ⟨_, t, hlast, ⟨⟩⟩ := bind_eq_ok.1 h
    obtain ⟨hzero, rfl⟩ := checkLastTag_eq_ok.1 hlast
    exact ⟨hzero, rfl⟩
  · rintro ⟨hzero, rfl⟩
    exact bind_of_ok (checkLastTag_eq_ok.2 ⟨hzero, rfl⟩)

theorem closeGroup_eq_ok {number : UInt32} :
    closeGroup number r = .ok () r' ↔
      r.lastTag = Tag.make number .endGroup ∧ { r with depth := r.depth - 1 } = r' := by
  constructor
  · intro h
    obtain ⟨_, t, hlast, ⟨⟩⟩ := bind_eq_ok.1 h
    obtain ⟨htag, rfl⟩ := checkLastTag_eq_ok.1 hlast
    exact ⟨htag, rfl⟩
  · rintro ⟨htag, rfl⟩
    exact bind_of_ok (checkLastTag_eq_ok.2 ⟨htag, rfl⟩)

/-! ### Storing what was read -/

section Following

variable {σ τ α β γ : Type} {a : Read α} {x' : Merge σ Unit}

/-- Each way the action on a target can succeed is a way to read something, and the other way round;
what is left is what applying it makes of the view. -/
def Follows (view : σ → τ) (x : Merge σ Unit) (y : Read β) (apply : β → τ → Option τ) (s : σ) :
    Prop :=
  ∀ r r' v, (∃ t, x ⟨s, r⟩ = .ok () ⟨t, r'⟩ ∧ view t = v) ↔
    ∃ b, y r = .ok b r' ∧ apply b (view s) = some v

variable {view : σ → τ} {x : Merge σ Unit} {y : Read β} {apply : β → τ → Option τ} {s : σ}

theorem Merge.read_bind_eq_ok {f : α → Merge σ γ} {c : γ} {t : Merging σ} :
    (Merge.read a >>= f) ⟨s, r⟩ = .ok c t ↔ ∃ b r', a r = .ok b r' ∧ f b ⟨s, r'⟩ = .ok c t := by
  rw [bind_eq_ok]
  constructor
  · rintro ⟨b, _, hb, h⟩
    obtain ⟨r', hr', rfl⟩ := Merge.read_eq_ok.1 hb
    exact ⟨b, r', hr', h⟩
  · rintro ⟨b, r', hr', h⟩
    exact ⟨b, ⟨s, r'⟩, Merge.read_eq_ok.2 ⟨r', hr', rfl⟩, h⟩

theorem Merge.read_of_ok {b : α} (h : a r = .ok b r') : Merge.read a ⟨s, r⟩ = .ok b ⟨s, r'⟩ := by
  unfold Merge.read
  rw [h]

theorem Merge.read_of_error {e : DecodeError} (h : a r = .error e r') :
    Merge.read a ⟨s, r⟩ = .error (.decode e) ⟨s, r'⟩ := by
  unfold Merge.read
  rw [h]

theorem Merge.read_bind (a : Read α) (f : α → Read γ) :
    (Merge.read (a >>= f) : Merge σ γ) = Merge.read a >>= fun b => Merge.read (f b) := by
  funext ⟨s, r⟩
  cases h : a r with
  | ok b r =>
    rw [bind_of_ok (Merge.read_of_ok h)]
    unfold Merge.read
    rw [bind_of_ok h]
  | error e r =>
    rw [bind_of_error (Merge.read_of_error h)]
    unfold Merge.read
    rw [bind_of_error h]

theorem Follows.bracket (h : Follows view x y apply s) (a : Read α) (b : α → Read Unit) :
    Follows view
      (do
        let before ← Merge.read a
        x
        Merge.read (b before))
      (do
        let before ← a
        let us ← y
        b before
        return us) apply s := by
  intro r r' v
  constructor
  · rintro ⟨t, ht, hv⟩
    obtain ⟨before, r₁, ha, ht⟩ := Merge.read_bind_eq_ok.1 ht
    obtain ⟨_, ⟨t', r₂⟩, hx, ht⟩ := bind_eq_ok.1 ht
    obtain ⟨r₃, hb, hr₃⟩ := Merge.read_eq_ok.1 ht
    cases hr₃
    obtain ⟨us, hus, happly⟩ := (h r₁ r₂ v).1 ⟨_, hx, hv⟩
    refine ⟨us, ?_, happly⟩
    rw [bind_of_ok ha, bind_of_ok hus, bind_of_ok hb]
    rfl
  · rintro ⟨us, hus, happly⟩
    obtain ⟨before, r₁, ha, hus⟩ := bind_eq_ok.1 hus
    obtain ⟨us', r₂, hy, hus⟩ := bind_eq_ok.1 hus
    obtain ⟨_, r₃, hb, hus⟩ := bind_eq_ok.1 hus
    cases hus
    obtain ⟨t, hx, hv⟩ := (h r₁ r₂ v).2 ⟨us, hy, happly⟩
    refine ⟨t, ?_, hv⟩
    rw [Merge.read_bind_eq_ok]
    refine ⟨before, r₁, ha, ?_⟩
    rw [bind_of_ok hx]
    exact Merge.read_eq_ok.2 ⟨r', hb, rfl⟩

theorem Follows.of_read (y : Read β) (store : β → σ → σ)
    (hstore : ∀ b, apply b (view s) = some (view (store b s))) :
    Follows view
      (do
        let b ← Merge.read y
        Merge.update (store b)) y apply s := by
  intro r r' v
  constructor
  · rintro ⟨t, ht, rfl⟩
    obtain ⟨b, r₁, hy, ht⟩ := Merge.read_bind_eq_ok.1 ht
    cases ht
    exact ⟨b, hy, hstore b⟩
  · rintro ⟨b, hb, hv⟩
    rw [hstore b, Option.some.injEq] at hv
    exact ⟨store b s, Merge.read_bind_eq_ok.2 ⟨b, r', hb, rfl⟩, hv⟩

theorem Follows.within {σ' τ' : Type} {view' : σ' → τ'} {apply' : β → τ' → Option τ'}
    {part : σ} {store : σ → σ' → σ'} {s : σ'} (g : τ → τ') (h : Follows view x y apply part)
    (hstore : ∀ t, view' (store t s) = g (view t))
    (happly : ∀ b, apply' b (view' s) = (apply b (view part)).map g) :
    Follows view' (Merge.within part store x) y apply' s := by
  intro r r' v
  constructor
  · rintro ⟨t, ht, hv⟩
    obtain ⟨⟨t', r₁⟩, hx, heq⟩ := Merge.within_eq_ok.1 ht
    cases heq
    obtain ⟨b, hb, hw⟩ := (h r _ (view t')).1 ⟨t', hx, rfl⟩
    refine ⟨b, hb, ?_⟩
    rw [happly, hw, Option.map_some, ← hstore, hv]
  · rintro ⟨b, hb, hv⟩
    rw [happly, Option.map_eq_some_iff] at hv
    obtain ⟨w, hw, rfl⟩ := hv
    obtain ⟨t, hx, rfl⟩ := (h r r' w).2 ⟨b, hb, hw⟩
    exact ⟨store t s, Merge.within_eq_ok.2 ⟨⟨t, r'⟩, hx, rfl⟩, hstore t⟩

theorem Follows.map {apply' : γ → τ → Option τ} (g : β → γ) (h : Follows view x y apply s)
    (happly : ∀ b, apply' (g b) (view s) = apply b (view s)) :
    Follows view x (g <$> y) apply' s := by
  intro r r' v
  rw [h r r' v]
  constructor
  · rintro ⟨b, hb, hv⟩
    exact ⟨g b, map_eq_ok.2 ⟨b, hb, rfl⟩, (happly b).trans hv⟩
  · rintro ⟨c, hc, hv⟩
    obtain ⟨b, hb, rfl⟩ := map_eq_ok.1 hc
    exact ⟨b, hb, (happly b).symm.trans hv⟩

theorem Follows.congr_apply {apply' : β → τ → Option τ} (h : Follows view x y apply s)
    (happly : ∀ r b r', y r = .ok b r' → apply' b (view s) = apply b (view s)) :
    Follows view x y apply' s := by
  intro r r' v
  rw [h r r' v]
  constructor
  · rintro ⟨b, hb, hv⟩
    exact ⟨b, hb, (happly r b r' hb).trans hv⟩
  · rintro ⟨b, hb, hv⟩
    exact ⟨b, hb, (happly r b r' hb).symm.trans hv⟩

theorem Follows.seq {δ : Type} {y' : Read γ} {apply' : γ → τ → Option τ}
    {apply'' : δ → τ → Option τ} (g : β → γ → δ) (h : Follows view x y apply s)
    (h' : ∀ r r' t, x ⟨s, r⟩ = .ok () ⟨t, r'⟩ → Follows view x' y' apply' t)
    (happly : ∀ b c, apply'' (g b c) (view s) = (apply b (view s)).bind (apply' c)) :
    Follows view
      (do
        x
        x')
      (do
        let b ← y
        let c ← y'
        return g b c) apply'' s := by
  intro r r' v
  constructor
  · rintro ⟨t, ht, hv⟩
    obtain ⟨_, ⟨s₁, r₁⟩, hx, ht⟩ := bind_eq_ok.1 ht
    obtain ⟨b, hb, hs₁⟩ := (h r r₁ (view s₁)).1 ⟨s₁, hx, rfl⟩
    obtain ⟨c, hc, hw⟩ := (h' r r₁ s₁ hx r₁ r' v).1 ⟨t, ht, hv⟩
    refine ⟨g b c, ?_, ?_⟩
    · rw [bind_of_ok hb, bind_of_ok hc]
      rfl
    · rw [happly, hs₁, Option.bind_some, hw]
  · rintro ⟨d, hd, hv⟩
    obtain ⟨b, r₁, hb, hd⟩ := bind_eq_ok.1 hd
    obtain ⟨c, r₂, hc, hd⟩ := bind_eq_ok.1 hd
    cases hd
    rw [happly, Option.bind_eq_some_iff] at hv
    obtain ⟨w, hw, hv⟩ := hv
    obtain ⟨s₁, hx, rfl⟩ := (h r r₁ w).2 ⟨b, hb, hw⟩
    obtain ⟨t, hx', hv⟩ := (h' r r₁ s₁ hx r₁ _ v).2 ⟨c, hc, hv⟩
    refine ⟨t, ?_, hv⟩
    rw [bind_of_ok hx, hx']

/-- What counts is how the action succeeds on the target at hand. -/
theorem Follows.congr_ok (h : Follows view x y apply s)
    (hiff : ∀ r t, x' ⟨s, r⟩ = .ok () t ↔ x ⟨s, r⟩ = .ok () t) : Follows view x' y apply s := by
  intro r r' v
  rw [← h r r' v]
  simp only [hiff]

theorem Follows.congr (h : Follows view x y apply s) (heq : ∀ r, x' ⟨s, r⟩ = x ⟨s, r⟩) :
    Follows view x' y apply s :=
  h.congr_ok fun r t => by rw [heq]

end Following

/-! ### Payloads -/

theorem utf8Text?_nil : utf8Text? [] = some "" := by
  decide

/-- Nothing is read for no bytes. -/
theorem readRaw_zero (r : Reader) : readRaw 0 r = .ok [] r := by
  rw [readRaw_apply, if_neg (Nat.not_lt_zero _)]
  simp [Reader.advance]

theorem decodeText_nil (r : Reader) : decodeText [] r = .ok "" r := by
  unfold decodeText
  rw [utf8Text?_nil]
  rfl

/-- What was there before does not matter, nor that no bytes are not decoded. -/
theorem readTextInto_eq_ok {old text : String} :
    readTextInto ⟨old, r⟩ = .ok () ⟨text, r'⟩ ↔ readText r = .ok text r' := by
  have hempty : ∀ r, Merge.update (fun _ => "") ⟨old, r⟩ = .ok () ⟨"", r⟩ := fun _ => rfl
  unfold readTextInto readText readBlob
  rw [bind_assoc]
  cases hlength : readLength r with
  | error e r₁ => simp [bind_of_error (Merge.read_of_error hlength), bind_of_error hlength]
  | ok n r₁ =>
    rw [bind_of_ok (Merge.read_of_ok hlength), bind_of_ok hlength, bind_of_ok (hempty r₁)]
    by_cases hzero : n = 0
    · subst hzero
      simp [bind_of_ok (readRaw_zero r₁), decodeText_nil]
    · rw [if_pos hzero, Merge.read_bind_eq_ok, bind_eq_ok]
      refine exists_congr fun bytes => exists_congr fun r₂ => and_congr_right fun _ => ?_
      rw [Merge.read_bind_eq_ok]
      constructor
      · rintro ⟨_, _, htext, ⟨⟩⟩
        exact htext
      · intro htext
        exact ⟨text, r', htext, rfl⟩

theorem follows_readTextInto (old : String) :
    Follows id readTextInto readText (fun text _ => some text) old := by
  intro r r' v
  simp only [readTextInto_eq_ok, id, Option.some.injEq, exists_eq_right]

theorem follows_readBlobInto (bytes : Bytes) :
    Follows id readBlobInto readBlob (fun bytes _ => some bytes) bytes := by
  have hread : Follows id
      (do
        let bytes ← Merge.read readBlob
        Merge.update fun _ => bytes) readBlob (fun bytes _ => some bytes) bytes :=
    Follows.of_read readBlob (fun bytes _ => bytes) fun _ => rfl
  refine hread.congr fun r => ?_
  unfold readBlobInto readBlob
  rw [Merge.read_bind, bind_assoc]

section Nested

variable {S : Schema} {nested : Nested} {read : Reading}

theorem readMessage_eq {σ : Type} (contents : Merge σ Unit) :
    readMessage contents = (do
      let limit ← Merge.read openMessage
      contents
      Merge.read (closeMessage limit)) := by
  unfold readMessage openMessage closeMessage
  simp only [Merge.read_bind, bind_assoc]

theorem readGroup_eq (number : UInt32) (contents : Merge Message Unit) :
    readGroup number contents = (do
      Merge.read enterNested
      contents
      Merge.read (closeGroup number)) := by
  unfold readGroup closeGroup
  simp only [Merge.read_bind]

theorem Field.follows_readNested {f : Field} {type : TypeId} (htype : f.element.type? = some type)
    {m : Message}
    (h : Follows (Message.view S (S.layout type)) (nested type) (read type) (applyAll S type) m) :
    Follows (Message.view S (S.layout type)) (f.readNested nested) (f.readContents read)
      (applyAll S type) m := by
  obtain ⟨_, number, element, _⟩ := f
  unfold Field.readNested Field.readContents
  cases element with
  | message t =>
    cases htype
    simp only [readMessage_eq]
    exact h.bracket openMessage closeMessage
  | group t =>
    cases htype
    simp only [readGroup_eq]
    exact h.bracket enterNested fun _ => closeGroup number
  | scalar | enum | text | blob => cases htype

end Nested

end ProtoWire
