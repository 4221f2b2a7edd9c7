import ProtoWire.Proofs.Wire.Local

/-!
# Reading inside a larger buffer

A buffer may be a part of a larger one, some levels down. What is read from it there, and why a read
fails, is the same as on its own.
-/

namespace ProtoWire

variable {α : Type}

/-! ### Definitions -/

/-- What lies around a buffer: bytes on both sides, and the levels above it. -/
structure Surroundings where
  before : Bytes
  after : Bytes
  depth : UInt32

/-- The reader of a buffer where that lies inside a larger one. -/
def Reader.inside (c : Surroundings) (r : Reader) : Reader :=
  { r with
    data := c.before ++ (r.data ++ c.after)
    pos := c.before.length + r.pos
    limit := c.before.length + r.limit
    depth := c.depth + r.depth
    recursionLimit := c.depth + r.recursionLimit }

/-- A reader of some data at some depth that has its place inside. -/
structure Reader.Placed (c : Surroundings) (data : Bytes) (depth : Nat) (r : Reader) : Prop where
  data_eq : r.data = data
  limit_le : r.limit ≤ data.length
  depth_eq : r.depth.toNat = depth
  depth_le : depth ≤ r.recursionLimit.toNat
  recursionLimit_lt : c.depth.toNat + r.recursionLimit.toNat < 2 ^ 32

/-- From every state with `P` the second action does in the moved state what the first one does in
the state itself. If they succeed they end with `Q`. -/
def CarriesOver {ε σ α : Type} (P Q : σ → Prop) (move : σ → σ) (x y : EStateM ε σ α) : Prop :=
  ∀ s, P s →
    match x s with
    | .ok a t => y (move s) = .ok a (move t) ∧ Q t
    | .error e t => y (move s) = .error e (move t)

/-- A read that does inside what it does outside. -/
abbrev CarriesRead {α : Type} (c : Surroundings) (data : Bytes) (depth : Nat) (x : Read α) : Prop :=
  CarriesOver (Reader.Placed c data depth) (Reader.Placed c data depth) (Reader.inside c) x x

/-! ### Composition -/

namespace CarriesOver

variable {ε σ β : Type} {P Q R : σ → Prop} {move : σ → σ}

theorem pure (a : α) : CarriesOver P P move (Pure.pure a : EStateM ε σ α) (Pure.pure a) :=
  fun _ hs => ⟨rfl, hs⟩

theorem throw (e : ε) :
    CarriesOver P Q move (MonadExcept.throw e : EStateM ε σ α) (MonadExcept.throw e) :=
  fun _ _ => rfl

theorem bind {x y : EStateM ε σ α} {f g : α → EStateM ε σ β} (hx : CarriesOver P Q move x y)
    (hf : ∀ a, CarriesOver Q R move (f a) (g a)) :
    CarriesOver P R move (x >>= f) (y >>= g) := by
  intro s hs
  have h := hx s hs
  cases hout : x s with
  | ok a t =>
    rw [hout] at h
    rw [bind_of_ok hout, bind_of_ok h.1]
    exact hf a t h.2
  | error e t =>
    rw [hout] at h
    rw [bind_of_error hout]
    exact bind_of_error h

theorem get_bind {f g : σ → EStateM ε σ β}
    (hf : ∀ s, P s → CarriesOver P Q move (f s) (g (move s))) :
    CarriesOver P Q move (get >>= f) (get >>= g) := by
  intro s hs
  rw [bind_of_ok get_apply, bind_of_ok get_apply]
  exact hf s hs s hs

theorem modify {f g : σ → σ} (h : ∀ s, P s → g (move s) = move (f s) ∧ Q (f s)) :
    CarriesOver P Q move (modify f : EStateM ε σ Unit) (modify g) := by
  intro s hs
  obtain ⟨hmove, hQ⟩ := h s hs
  exact ⟨congrArg (EStateM.Result.ok ()) hmove, hQ⟩

end CarriesOver

/-! ### Readers -/

section Readers

variable {c : Surroundings} {r : Reader}

@[simp] theorem Reader.bytesLeft_inside : (r.inside c).bytesLeft = r.bytesLeft :=
  Nat.add_sub_add_left ..

@[simp] theorem Reader.atEnd_inside : (r.inside c).atEnd = r.atEnd := by
  rw [Reader.atEnd, Reader.atEnd, Bool.eq_iff_iff, beq_iff_eq, beq_iff_eq]
  exact Nat.add_left_cancel_iff

theorem Reader.advance_inside (n : Nat) : (r.inside c).advance n = (r.advance n).inside c := by
  simp only [Reader.advance, Reader.inside, Nat.add_assoc]

theorem Reader.remaining_inside (h : r.limit ≤ r.data.length) :
    (r.inside c).remaining = r.remaining := by
  have hleft := Reader.bytesLeft_inside (c := c) (r := r)
  unfold Reader.bytesLeft at hleft
  rw [Reader.remaining, hleft]
  simp only [Reader.inside, List.drop_append, Nat.add_sub_cancel_left,
    List.drop_eq_nil_of_le (Nat.le_add_right _ _), List.nil_append]
  rw [List.take_append_of_le_length]
  · rfl
  · rw [List.length_drop]
    omega

end Readers

namespace Reader.Placed

variable {c : Surroundings} {data : Bytes} {depth : Nat} {r : Reader}

theorem limit_le_length (h : r.Placed c data depth) : r.limit ≤ r.data.length :=
  h.data_eq ▸ h.limit_le

theorem advance (h : r.Placed c data depth) (n : Nat) : (r.advance n).Placed c data depth :=
  ⟨h.data_eq, h.limit_le, h.depth_eq, h.depth_le, h.recursionLimit_lt⟩

theorem withTag (h : r.Placed c data depth) (tag : UInt32) :
    Reader.Placed c data depth { r with lastTag := tag } :=
  ⟨h.data_eq, h.limit_le, h.depth_eq, h.depth_le, h.recursionLimit_lt⟩

end Reader.Placed

/-! ### Reads -/

section Reads

variable {c : Surroundings} {data : Bytes} {depth : Nat}

/-- A read that depends on the bytes before the limit alone. -/
theorem carriesOver_of_remaining {x : Read α} (f : Bytes → Except DecodeError (α × Nat))
    (hx : ∀ r : Reader, r.limit ≤ r.data.length →
      x r = match f r.remaining with
        | .ok (a, n) => .ok a (r.advance n)
        | .error e => .error e r) : CarriesRead c data depth x := by
  intro r hr
  have hlimit := hr.limit_le_length
  have hlimit' : (r.inside c).limit ≤ (r.inside c).data.length := by
    simp only [Reader.inside, List.length_append]
    omega
  rw [hx r hlimit, hx _ hlimit', Reader.remaining_inside hlimit]
  cases f r.remaining with
  | ok p => exact ⟨congrArg _ (Reader.advance_inside _), hr.advance _⟩
  | error e => rfl

theorem carriesOver_readVarint64 : CarriesRead c data depth readVarint64 := by
  refine carriesOver_of_remaining Varint.decode fun r _ => ?_
  rw [readVarint64_eq]
  cases Varint.decode r.remaining <;> rfl

theorem carriesOver_readVarint32 : CarriesRead c data depth readVarint32 := by
  refine carriesOver_of_remaining
    (fun bytes => (Varint.decode bytes).map fun p => (p.1.toUInt32, p.2)) fun r _ => ?_
  rw [readVarint32_eq]
  cases Varint.decode r.remaining <;> rfl

theorem carriesOver_readRaw (n : Nat) : CarriesRead c data depth (readRaw n) := by
  refine carriesOver_of_remaining
    (fun bytes => if bytes.length < n then .error .truncated else .ok (bytes.take n, n))
    fun r hr => ?_
  rw [readRaw_apply, Reader.length_remaining hr]
  by_cases h : r.bytesLeft < n
  · rw [if_pos h, if_pos h]
  · have hle : n ≤ r.limit - r.pos := Nat.le_of_not_lt h
    rw [if_neg h, if_neg h, Reader.remaining, List.take_take, Nat.min_eq_left hle]

theorem carriesOver_readFixed (n : Nat) : CarriesRead c data depth (readFixed n) := by
  refine carriesOver_of_remaining
    (fun bytes => if (bytes.take n).length < n then .error .truncated
      else .ok (ofLittleEndian (bytes.take n), n)) fun r _ => ?_
  rw [readFixed_apply]
  split <;> rfl

theorem carriesOver_readTag : CarriesRead c data depth readTag := by
  refine .get_bind fun r hr => ?_
  rw [Reader.atEnd_inside]
  have htag : ∀ tag, CarriesRead c data depth (do
      modify fun r => { r with lastTag := tag }
      return tag) := fun tag =>
    CarriesOver.bind (.modify fun s hs => ⟨rfl, hs.withTag tag⟩) fun _ => .pure tag
  split
  · exact htag 0
  · refine carriesOver_readVarint32.bind fun tag => ?_
    split
    · exact CarriesOver.bind (.throw _) fun _ => htag tag
    · exact htag tag

theorem carriesOver_checkLastTag (tag : UInt32) : CarriesRead c data depth (checkLastTag tag) := by
  intro r hr
  rw [checkLastTag_apply, checkLastTag_apply]
  by_cases h : r.lastTag = tag
  · rw [if_pos h, if_pos (show (r.inside c).lastTag = tag from h)]
    exact ⟨rfl, hr⟩
  · rw [if_neg h, if_neg (show (r.inside c).lastTag ≠ tag from h)]

/-! ### Limits and nesting -/

theorem carriesOver_enterNested :
    CarriesOver (Reader.Placed c data depth) (Reader.Placed c data (depth + 1)) (Reader.inside c)
      enterNested enterNested := by
  intro r hr
  have hlt := hr.recursionLimit_lt
  have hdepth := hr.depth_eq
  have hle := hr.depth_le
  have hiff : (r.inside c).recursionLimit ≤ (r.inside c).depth ↔ r.recursionLimit ≤ r.depth := by
    simp only [Reader.inside, UInt32.le_iff_toNat_le, UInt32.toNat_add]
    rw [Nat.mod_eq_of_lt hlt, Nat.mod_eq_of_lt (by omega)]
    exact Nat.add_le_add_iff_left
  rw [enterNested_apply, enterNested_apply]
  by_cases h : r.recursionLimit ≤ r.depth
  · rw [if_pos h, if_pos (hiff.2 h)]
  · rw [if_neg h, if_neg (fun h' => h (hiff.1 h'))]
    have hdeeper : r.depth.toNat < r.recursionLimit.toNat :=
      Nat.lt_of_not_le fun h' => h (UInt32.le_iff_toNat_le.2 h')
    refine ⟨?_, hr.data_eq, hr.limit_le, ?_, by simp only; omega, hlt⟩
    · simp only [Reader.inside, UInt32.add_assoc]
    · rw [Reader.toNat_depth_succ hdeeper, hdepth]

theorem carriesOver_exitNested :
    CarriesOver (Reader.Placed c data (depth + 1)) (Reader.Placed c data depth) (Reader.inside c)
      exitNested exitNested := by
  refine .modify fun r hr => ⟨?_, hr.data_eq, hr.limit_le, ?_, ?_, hr.recursionLimit_lt⟩
  · simp only [Reader.inside, UInt32.sub_eq_add_neg, UInt32.add_assoc]
  · have hdepth := hr.depth_eq
    have hone : (1 : UInt32) ≤ r.depth := by
      rw [UInt32.le_iff_toNat_le, hdepth]
      exact Nat.le_add_left ..
    rw [UInt32.toNat_sub_of_le _ _ hone, hdepth]
    rfl
  · exact Nat.le_of_succ_le hr.depth_le

theorem pushLimit_inside (n : Nat) (r : Reader) :
    pushLimit n (r.inside c) =
      match pushLimit n r with
      | .ok limit t => .ok (c.before.length + limit) (t.inside c)
      | .error e t => .error e (t.inside c) := by
  rw [pushLimit_apply, pushLimit_apply]
  by_cases h : r.limit < r.pos + n
  · rw [if_pos h, if_pos (by simp only [Reader.inside]; omega)]
  · rw [if_neg h, if_neg (by simp only [Reader.inside]; omega)]
    simp only [Reader.inside, Nat.add_assoc]

theorem carriesOver_popLimit {limit : Nat} (hlimit : limit ≤ data.length) :
    CarriesOver (Reader.Placed c data depth) (Reader.Placed c data depth) (Reader.inside c)
      (popLimit limit) (popLimit (c.before.length + limit)) :=
  .modify fun _ hr => ⟨rfl, hr.data_eq, hlimit, hr.depth_eq, hr.depth_le, hr.recursionLimit_lt⟩

/-! ### Composition -/

theorem carriesOver_lookingAhead {x : Nat → Read α} (hx : ∀ n, CarriesRead c data depth (x n)) :
    CarriesRead c data depth (lookingAhead x) := by
  refine .get_bind fun start hstart => ?_
  rw [Reader.bytesLeft_inside]
  refine (hx _).bind fun a => CarriesOver.bind (.modify fun r hr => ?_) fun _ => .pure a
  exact ⟨rfl, hr.data_eq, hr.limit_le, hr.depth_eq, hr.depth_le, hr.recursionLimit_lt⟩

/-- What is composed of basic reads does inside what it does outside. -/
theorem ComposedRead.carriesOver {x : Read α} (h : ComposedRead x) :
    CarriesRead c data depth x := by
  induction h generalizing depth with
  | pure a => exact .pure a
  | throw e => exact .throw e
  | bind _ _ hx hf => exact CarriesOver.bind hx fun a => hf a
  | readVarint64 => exact carriesOver_readVarint64
  | readVarint32 => exact carriesOver_readVarint32
  | readTag => exact carriesOver_readTag
  | checkLastTag tag => exact carriesOver_checkLastTag tag
  | readRaw n => exact carriesOver_readRaw n
  | readFixed n => exact carriesOver_readFixed n
  | oneDeeper _ hx =>
    exact carriesOver_enterNested.bind fun _ => CarriesOver.bind hx fun _ => carriesOver_exitNested
  | lookingAhead _ hx => exact carriesOver_lookingAhead fun n => hx n
  | bytesLeft _ hx =>
    intro r hr
    simp only [Reader.bytesLeft_inside]
    exact hx _ r hr

end Reads

end ProtoWire
