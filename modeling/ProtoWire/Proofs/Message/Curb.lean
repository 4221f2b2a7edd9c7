import ProtoWire.Proofs.Message.FieldOrder

/-!
# Lower recursion limits

A recursion limit does nothing but stop what goes deeper. Whatever succeeds below one limit does the
same below a lower one, or fails because it exceeds that.
-/

namespace ProtoWire

/-- The reader below another recursion limit, unless its own is lower. -/
def Reader.curb (limit : UInt32) (r : Reader) : Reader :=
  { r with recursionLimit := min limit r.recursionLimit }

/-- Something stored and its reader, below another recursion limit. -/
def Merging.curb {σ : Type} (limit : UInt32) (s : Merging σ) : Merging σ :=
  { s with reader := s.reader.curb limit }

/-- Where the action succeeds, it does the same below the lower limit, or exceeds it. -/
def Curbs {ε σ α : Type} (curb : σ → σ) (exceeded : ε) (x : EStateM ε σ α) : Prop :=
  ∀ ⦃s : σ⦄ ⦃a : α⦄ ⦃t : σ⦄, x s = .ok a t →
    x (curb s) = .ok a (curb t) ∨ ∃ u, x (curb s) = .error exceeded u

/-- A read that a lower recursion limit does not change, unless it stops it. -/
abbrev CurbsRead {α : Type} (limit : UInt32) (x : Read α) : Prop :=
  Curbs (Reader.curb limit) .recursionLimitExceeded x

/-- A merge that a lower recursion limit does not change, unless it stops it. -/
abbrev CurbsMerge {σ α : Type} (limit : UInt32) (x : Merge σ α) : Prop :=
  Curbs (Merging.curb limit) (.decode .recursionLimitExceeded) x

namespace Curbs

variable {ε σ α β : Type} {curb : σ → σ} {exceeded : ε}

theorem pure (a : α) : Curbs curb exceeded (Pure.pure a : EStateM ε σ α) := by
  intro s b t h
  cases h
  exact .inl rfl

theorem throw (e : ε) : Curbs curb exceeded (MonadExcept.throw e : EStateM ε σ α) :=
  nofun

theorem bind {x : EStateM ε σ α} {f : α → EStateM ε σ β} (hx : Curbs curb exceeded x)
    (hf : ∀ a, Curbs curb exceeded (f a)) : Curbs curb exceeded (x >>= f) := by
  intro s b u h
  obtain ⟨a, t, ha, hb⟩ := bind_eq_ok.1 h
  rcases hx ha with hx | ⟨v, hx⟩
  · rw [bind_of_ok hx]
    exact hf a hb
  · exact .inr ⟨v, bind_of_error hx⟩

/-- What the action looks up in its state does not depend on the limit. -/
theorem get_bind {f : σ → EStateM ε σ β} (hsame : ∀ s, f (curb s) = f s)
    (hf : ∀ s, Curbs curb exceeded (f s)) :
    Curbs curb exceeded (MonadState.get >>= f) := by
  intro s b t h
  rw [bind_of_ok get_apply] at h
  rw [bind_of_ok get_apply, hsame]
  exact hf s h

theorem modify {f : σ → σ} (h : ∀ s, f (curb s) = curb (f s)) :
    Curbs curb exceeded (modify f : EStateM ε σ Unit) := by
  intro s a t hmodify
  cases hmodify
  exact .inl (congrArg (EStateM.Result.ok ()) (h s))

end Curbs

/-! ### Reads -/

section Reads

variable {limit : UInt32}

/-- The only action that a recursion limit stops. -/
theorem curbs_enterNested : CurbsRead limit enterNested := by
  intro r a t h
  obtain ⟨-, rfl⟩ := enterNested_eq_ok.1 h
  rw [enterNested_apply]
  by_cases hdepth : (r.curb limit).recursionLimit ≤ (r.curb limit).depth
  · rw [if_pos hdepth]
    exact .inr ⟨_, rfl⟩
  · rw [if_neg hdepth]
    exact .inl rfl

theorem curbs_exitNested : CurbsRead limit exitNested :=
  .modify fun _ => rfl

theorem curbs_pushLimit (n : Nat) :
    CurbsRead limit (pushLimit n) := by
  intro r a t h
  obtain ⟨hle, rfl, rfl⟩ := pushLimit_eq_ok.1 h
  exact .inl (pushLimit_eq_ok.2 ⟨hle, rfl, rfl⟩)

theorem curbs_popLimit (n : Nat) :
    CurbsRead limit (popLimit n) :=
  .modify fun _ => rfl

theorem curbs_readVarint64 : CurbsRead limit readVarint64 := by
  intro r value t h
  obtain ⟨n, hn, rfl⟩ := readVarint64_eq_ok.1 h
  exact .inl (readVarint64_eq_ok.2 ⟨n, hn, rfl⟩)

theorem curbs_readVarint32 : CurbsRead limit readVarint32 := by
  intro r value t h
  obtain ⟨full, n, hn, hfull, rfl⟩ := readVarint32_eq_ok.1 h
  exact .inl (readVarint32_eq_ok.2 ⟨full, n, hn, hfull, rfl⟩)

theorem curbs_readTag : CurbsRead limit readTag := by
  refine .get_bind (fun _ => rfl) fun r => ?_
  split
  · exact Curbs.bind (.modify fun _ => rfl) fun _ => .pure _
  · refine curbs_readVarint32.bind fun tag => ?_
    split
    · exact Curbs.bind (.throw _) fun _ => Curbs.bind (.modify fun _ => rfl) fun _ => .pure _
    · exact Curbs.bind (.modify fun _ => rfl) fun _ => .pure _

theorem curbs_checkLastTag (tag : UInt32) :
    CurbsRead limit (checkLastTag tag) := by
  intro r a t h
  obtain ⟨htag, rfl⟩ := checkLastTag_eq_ok.1 h
  exact .inl (checkLastTag_eq_ok.2 ⟨htag, rfl⟩)

theorem curbs_readRaw (n : Nat) :
    CurbsRead limit (readRaw n) := by
  intro r bytes t h
  obtain ⟨hn, hbytes, rfl⟩ := readRaw_eq_ok.1 h
  exact .inl (readRaw_eq_ok.2 ⟨hn, hbytes, rfl⟩)

theorem curbs_readFixed (n : Nat) :
    CurbsRead limit (readFixed n) := by
  intro r value t h
  obtain ⟨hn, hvalue, rfl⟩ := readFixed_eq_ok.1 h
  exact .inl (readFixed_eq_ok.2 ⟨hn, hvalue, rfl⟩)

/-- What is composed of basic reads is curbed alike. -/
theorem ComposedRead.curbs {α : Type} {x : Read α} (h : ComposedRead x) : CurbsRead limit x := by
  induction h with
  | pure a => exact .pure a
  | throw e => exact .throw e
  | bind _ _ hx hf => exact hx.bind hf
  | readVarint64 => exact curbs_readVarint64
  | readVarint32 => exact curbs_readVarint32
  | readTag => exact curbs_readTag
  | checkLastTag tag => exact curbs_checkLastTag tag
  | readRaw n => exact curbs_readRaw n
  | readFixed n => exact curbs_readFixed n
  | oneDeeper _ hx => exact curbs_enterNested.bind fun _ => hx.bind fun _ => curbs_exitNested
  | lookingAhead _ hx =>
    exact .get_bind (fun _ => rfl) fun start => (hx _).bind fun _ =>
      Curbs.bind (.modify fun _ => rfl) fun _ => .pure _
  | bytesLeft _ hx => exact fun r a t h => hx _ h

end Reads

/-! ### Merging -/

section Merging

variable {σ τ α : Type} {limit : UInt32}

theorem Curbs.read {x : Read α} (hx : CurbsRead limit x) :
    CurbsMerge limit (Merge.read x : Merge σ α) := by
  intro s a t h
  obtain ⟨r, hr, rfl⟩ := Merge.read_eq_ok.1 h
  unfold Merge.read
  rcases hx hr with hr | ⟨u, hu⟩
  · exact .inl (by simp only [Merging.curb, hr])
  · exact .inr ⟨⟨s.target, u⟩, by simp only [Merging.curb, hu]⟩

theorem Curbs.within {x : Merge τ α} (hx : CurbsMerge limit x)
    (part : τ) (store : τ → σ → σ) :
    CurbsMerge limit (Merge.within part store x) := by
  intro s a t h
  obtain ⟨u, hu, rfl⟩ := Merge.within_eq_ok.1 h
  rcases hx hu with hu | ⟨v, hv⟩
  · exact .inl (Merge.within_eq_ok.2 ⟨_, hu, rfl⟩)
  · refine .inr ⟨⟨store v.target s.target, v.reader⟩, ?_⟩
    have hv : x { target := part, reader := (s.curb limit).reader } = .error (.decode .recursionLimitExceeded) v := hv
    unfold Merge.within
    rw [hv]
    rfl

theorem curbs_edit (container : Repeated τ) (store : Repeated τ → σ → σ)
    (x : Repeated.Edit τ α) :
    CurbsMerge limit (Merge.edit container store x) := by
  intro s a t h
  obtain ⟨c, hc, rfl⟩ := Merge.edit_eq_ok.1 h
  exact .inl (Merge.edit_eq_ok.2 ⟨c, hc, rfl⟩)

/-- What can be merged below a recursion limit is merged alike below a lower one, or exceeds it. -/
theorem ComposedMerge.curbs {x : Merge σ α} (h : ComposedMerge x) : CurbsMerge limit x := by
  induction h with
  | pure a => exact .pure a
  | throw e => exact .throw e
  | bind _ _ hx hf => exact hx.bind hf
  | read hx => exact hx.curbs.read
  | target | update f =>
    rintro s a _ ⟨⟩
    exact .inl rfl
  | within _ part store hx => exact hx.within part store
  | edit container store x => exact curbs_edit container store x
  | oneDeeper _ hx =>
    exact curbs_enterNested.read.bind fun _ => hx.bind fun _ => curbs_exitNested.read
  | limited n _ hx =>
    exact (curbs_pushLimit n).read.bind fun _ => hx.bind fun _ => (curbs_popLimit _).read
  | look _ hx => exact fun s a t h => hx _ _ _ h

end Merging

end ProtoWire
