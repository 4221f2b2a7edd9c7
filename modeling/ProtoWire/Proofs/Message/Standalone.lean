import ProtoWire.Proofs.Message.Contents
import ProtoWire.Proofs.Wire.Inside

/-!
# Nested messages on their own

Reading a nested message does to a stored message what merging its bytes from a buffer of their own
does, and fails for the same reason.
-/

namespace ProtoWire

variable {r : Reader}

/-! ### Merging inside a larger buffer -/

/-- Something stored, with its reader inside a larger buffer. -/
def Merging.inside {σ : Type} (c : Surroundings) (s : Merging σ) : Merging σ :=
  { s with reader := s.reader.inside c }

/-- A merge that does inside what it does outside. -/
abbrev CarriesMerge {σ α : Type} (c : Surroundings) (data : Bytes) (depth : Nat) (x : Merge σ α) :
    Prop :=
  CarriesOver (fun s => s.reader.Placed c data depth) (fun s => s.reader.Placed c data depth)
    (Merging.inside c) x x

section Merging

variable {σ τ α : Type} {c : Surroundings} {data : Bytes} {depth : Nat}

theorem CarriesOver.read {P Q : Reader → Prop} {x y : Read α}
    (hx : CarriesOver P Q (Reader.inside c) x y) :
    CarriesOver (fun s : Merging σ => P s.reader) (fun s => Q s.reader) (Merging.inside c)
      (Merge.read x) (Merge.read y) := by
  intro s hs
  have h := hx s.reader hs
  cases hout : x s.reader with
  | ok a r =>
    rw [hout] at h
    simp only [Merge.read, Merging.inside, hout, h.1, true_and]
    exact h.2
  | error e r =>
    rw [hout] at h
    simp only [Merge.read, Merging.inside, hout, h]

theorem CarriesOver.within {x : Merge τ α} (hx : CarriesMerge c data depth x) (part : τ)
    (store : τ → σ → σ) : CarriesMerge c data depth (Merge.within part store x) := by
  intro s hs
  have h := hx { target := part, reader := s.reader } hs
  simp only [Merging.inside] at h
  cases hout : x { target := part, reader := s.reader } with
  | ok a t =>
    rw [hout] at h
    simp only [Merge.within, Merging.inside, hout, h.1, true_and]
    exact h.2
  | error e t =>
    rw [hout] at h
    simp only [Merge.within, Merging.inside, hout, h]

theorem carriesOver_edit (container : Repeated τ) (store : Repeated τ → σ → σ)
    (x : Repeated.Edit τ α) : CarriesMerge c data depth (Merge.edit container store x) := by
  intro s hs
  cases hout : x container with
  | ok a c' =>
    simp only [Merge.edit, hout]
    exact ⟨rfl, hs⟩
  | error e c' =>
    simp only [Merge.edit, hout]
    rfl

/-- What follows a narrower limit restores the one before, inside as outside. -/
theorem carriesOver_pushLimit_bind {f : Nat → Merge σ α} {Q : Merging σ → Prop} (n : Nat)
    (hf : ∀ limit ≤ data.length, CarriesOver (fun s => s.reader.Placed c data depth) Q
      (Merging.inside c) (f limit) (f (c.before.length + limit))) :
    CarriesOver (fun s => s.reader.Placed c data depth) Q (Merging.inside c)
      (Merge.read (pushLimit n) >>= f) (Merge.read (pushLimit n) >>= f) := by
  intro s hs
  have hinside := pushLimit_inside (c := c) n s.reader
  cases hout : pushLimit n s.reader with
  | ok limit r =>
    rw [hout] at hinside
    obtain ⟨hle, rfl, rfl⟩ := pushLimit_eq_ok.1 hout
    have hlimit := hs.limit_le
    rw [bind_of_ok (Merge.read_eq_ok.2 ⟨_, hout, rfl⟩),
      bind_of_ok (s := s.inside c) (Merge.read_eq_ok.2 ⟨_, hinside, rfl⟩)]
    exact hf _ hlimit ⟨s.target, _⟩ ⟨hs.data_eq, Nat.le_trans hle hlimit, hs.depth_eq, hs.depth_le,
      hs.recursionLimit_lt⟩
  | error e r =>
    rw [hout] at hinside
    have hin : (Merge.read (pushLimit n) : Merge σ Nat) s = .error (.decode e) ⟨s.target, r⟩ := by
      rw [Merge.read, hout]
    have hin' : (Merge.read (pushLimit n) : Merge σ Nat) (s.inside c) =
        .error (.decode e) ⟨s.target, r.inside c⟩ := by
      simp only [Merge.read, Merging.inside, hinside]
    rw [bind_of_error hin, bind_of_error hin']
    rfl

/-- What is composed of reads and of changes to the target does inside what it does outside. -/
theorem ComposedMerge.carriesOver {x : Merge σ α} (h : ComposedMerge x) :
    CarriesMerge c data depth x := by
  induction h generalizing depth with
  | pure a => exact .pure a
  | throw e => exact .throw e
  | bind _ _ hx hf => exact CarriesOver.bind hx fun a => hf a
  | read hx => exact hx.carriesOver.read
  | target | update f => exact fun _ hs => ⟨rfl, hs⟩
  | within _ part store hx => exact CarriesOver.within hx part store
  | edit container store x => exact carriesOver_edit container store x
  | oneDeeper _ hx =>
    exact carriesOver_enterNested.read.bind fun _ => CarriesOver.bind hx fun _ =>
      carriesOver_exitNested.read
  | limited n _ hx =>
    exact carriesOver_pushLimit_bind n fun _ hlimit => CarriesOver.bind hx fun _ =>
      (carriesOver_popLimit hlimit).read
  | look _ hx =>
    intro s hs
    have hremaining := Reader.remaining_inside (c := c) hs.limit_le_length
    simp only [Merging.inside, Reader.atEnd_inside, Reader.bytesLeft_inside, hremaining]
    exact hx _ _ _ s hs

end Merging

/-! ### What a merge leaves -/

/-- The outcome of a merge, and what it leaves of the target. -/
def Merge.left {σ : Type} (x : Merge σ Unit) (s : Merging σ) : Except Fault Unit × σ :=
  match x s with
  | .ok () t => (.ok (), t.target)
  | .error e t => (.error e, t.target)

section Left

variable {σ α : Type} {x : Merge σ Unit}

theorem Message.mergeBytes_eq_left {S : Schema} {order : FieldOrder} {type : TypeId}
    (limit : UInt32) (data : Bytes) (m : Message) :
    m.mergeBytes S order type limit data =
      Merge.left (do mergeMessage S order type; Merge.read (checkLastTag 0))
        ⟨m, { Reader.ofBytes data with recursionLimit := limit }⟩ := by
  simp only [Message.mergeBytes, Merge.left]
  split
  · rename_i h
    rw [h]
  · rename_i h
    rw [h]

theorem Merge.left_congr {y : Merge σ Unit} {s t : Merging σ} (h : x s = y t) :
    Merge.left x s = Merge.left y t := by
  rw [Merge.left, Merge.left, h]

theorem Merge.left_inside {c : Surroundings} {data : Bytes} {depth : Nat}
    (hx : CarriesMerge c data depth x) {s : Merging σ} (hs : s.reader.Placed c data depth) :
    Merge.left x (s.inside c) = Merge.left x s := by
  have h := hx s hs
  unfold Merge.left
  cases hout : x s with
  | ok a t =>
    rw [hout] at h
    rw [h.1]
    rfl
  | error e t =>
    rw [hout] at h
    rw [h]
    rfl

/-- What cannot fail and changes the reader alone leaves all else as it was. -/
theorem Merge.left_bind_modify (f : Reader → Reader) (s : Merging σ) :
    Merge.left (x >>= fun _ => Merge.read (modify f)) s = Merge.left x s := by
  unfold Merge.left
  cases hout : x s with
  | ok a t =>
    rw [bind_of_ok hout]
    rfl
  | error e t => rw [bind_of_error hout]

theorem Merge.left_readTag_bind {r' : Reader} (h : r.Alike r') (m : σ) (f : UInt32 → Merge σ Unit) :
    Merge.left (Merge.read readTag >>= f) ⟨m, r⟩ =
      Merge.left (Merge.read readTag >>= f) ⟨m, r'⟩ := by
  cases hread : readTag r with
  | ok tag t =>
    refine Merge.left_congr ?_
    rw [bind_of_ok (Merge.read_of_ok hread), bind_of_ok (Merge.read_of_ok (h.readTag hread))]
  | error e t =>
    obtain ⟨t', hread'⟩ := h.readTag_error hread
    simp only [Merge.left, bind_of_error (Merge.read_of_error hread),
      bind_of_error (Merge.read_of_error hread')]

end Left

/-! ### Nested messages -/

/-- What lies around the next bytes, for a message inside the one that is read. -/
def Reader.around (r : Reader) (n : Nat) : Surroundings where
  before := r.data.take r.pos
  after := r.data.drop (r.pos + n)
  depth := r.depth + 1

section Nested

variable {t s : Merging Message} {n : Nat} {S : Schema} {type : TypeId}
  (hS : ∀ type, (S.layout type).Routed) {order : FieldOrder}

include hS

theorem left_mergeMessage_bind {r' : Reader} (h : r.Alike r') (m : Message)
    (f : Unit → Merge Message Unit) :
    Merge.left (mergeMessage S order type >>= f) ⟨m, r⟩ =
      Merge.left (mergeMessage S order type >>= f) ⟨m, r'⟩ := by
  have hleft : r'.bytesLeft = r.bytesLeft := by
    obtain ⟨last, rfl⟩ := h
    rfl
  have hstart : ∀ r, Merge.left (mergeMessage S order type >>= f) ⟨m, r⟩ =
      Merge.left (Merge.read readTag >>= fun tag =>
        mergeFrom S (mergeWithin S order r.bytesLeft) (S.layout type) tag >>= f) ⟨m, r⟩ := by
    intro r
    refine Merge.left_congr ?_
    rw [bind_congr_left (mergeMessage_apply hS _), bind_assoc]
  rw [hstart, hstart, hleft]
  exact Merge.left_readTag_bind h m _

omit hS in
theorem mergePayload_eq_false {nested : Nested} {tag : UInt32}
    (h : mergePayload S nested (S.layout type) tag s = .ok false t) : t = s := by
  unfold mergePayload at h
  cases hroute : (S.layout type).route tag with
  | some target =>
    obtain ⟨p, form⟩ := target
    rw [hroute] at h
    cases form with
    | value | element | run =>
      obtain ⟨_, _, -, h⟩ := bind_eq_ok.1 h
      cases h
  | none =>
    rw [hroute] at h
    by_cases htag : tag = 0
    · simp only [htag, if_true] at h
      cases h
      rfl
    · simp only [htag, if_false] at h
      obtain ⟨r, hskip, rfl⟩ := Merge.read_eq_ok.1 h
      rw [(skipField_eq_false hskip).2]

omit hS in
theorem atEnd_of_mergeRecords {nested : Nested} {fuel : Nat} {tag : UInt32}
    (htag : s.reader.lastTag = tag) (hend : tag = 0 → s.reader.atEnd = true)
    (h : mergeRecords S nested (S.layout type) fuel tag s = .ok () t)
    (hlast : t.reader.lastTag = 0) : t.reader.atEnd = true := by
  induction fuel generalizing s tag with
  | zero => cases h
  | succ fuel ih =>
    obtain ⟨more, u, hu, h⟩ := bind_eq_ok.1 h
    cases more with
    | true =>
      obtain ⟨next, r, hnext, h⟩ := Merge.read_bind_eq_ok.1 h
      refine ih (readTag_lastTag hnext) (fun hzero => ?_) h
      subst hzero
      exact atEnd_of_readTag hnext
    | false =>
      cases h
      cases mergePayload_eq_false hu
      exact hend (htag.symm.trans hlast)

theorem atEnd_of_mergeMessage (h : mergeMessage S order type s = .ok () t)
    (hlast : t.reader.lastTag = 0) : t.reader.atEnd = true := by
  rw [mergeMessage_apply hS] at h
  obtain ⟨tag, r, htag, h⟩ := Merge.read_bind_eq_ok.1 h
  refine atEnd_of_mergeRecords (readTag_lastTag htag) (fun hzero => ?_) h hlast
  subst hzero
  exact atEnd_of_readTag htag

omit hS in
/-- The reader of a buffer of its own, put where the bytes of a nested message lie. -/
theorem Reader.inside_around (hpos : r.pos + n ≤ r.data.length)
    (hdepth : r.depth < r.recursionLimit) :
    let alone : Reader := { Reader.ofBytes ((r.data.drop r.pos).take n) with
      recursionLimit := r.recursionLimit - r.depth - 1 }
    alone.inside (r.around n) =
        { r with limit := r.pos + n, lastTag := 0, depth := r.depth + 1 } ∧
      alone.Placed (r.around n) ((r.data.drop r.pos).take n) 0 := by
  intro alone
  have hlt := UInt32.lt_iff_toNat_lt.1 hdepth
  have hone : (1 : UInt32) ≤ r.recursionLimit - r.depth := by
    rw [UInt32.le_iff_toNat_le, UInt32.toNat_sub_of_le _ _ (UInt32.le_of_lt hdepth)]
    exact Nat.sub_pos_of_lt hlt
  have hlevels : (r.recursionLimit - r.depth - 1).toNat =
      r.recursionLimit.toNat - r.depth.toNat - 1 := by
    rw [UInt32.toNat_sub_of_le _ _ hone, UInt32.toNat_sub_of_le _ _ (UInt32.le_of_lt hdepth)]
    rfl
  have hbefore : (r.data.take r.pos).length = r.pos := List.length_take_of_le (by omega)
  have hpayload : ((r.data.drop r.pos).take n).length = n := by
    rw [List.length_take, List.length_drop]
    omega
  have hdata : r.data.take r.pos ++ ((r.data.drop r.pos).take n ++ r.data.drop (r.pos + n)) =
      r.data := by
    rw [← List.drop_drop, List.take_append_drop, List.take_append_drop]
  constructor
  · simp only [alone, Reader.inside, Reader.around, Reader.ofBytes, hdata, hbefore, hpayload,
      Nat.add_zero, UInt32.add_zero]
    congr 1
    rw [sub_sub, add_sub_cancel]
  · refine ⟨rfl, Nat.le_refl _, rfl, Nat.zero_le _, ?_⟩
    have hmax := r.recursionLimit.toNat_lt
    simp only [alone, Reader.around, hlevels, Reader.toNat_depth_succ hlt]
    omega

omit hS in
/-- A length takes a byte at least, so that the limit is not passed. -/
theorem pos_le_limit_of_readLength {r₁ : Reader} (h : readLength r = .ok n r₁) :
    r₁.pos ≤ r₁.limit := by
  obtain ⟨size, hsize, -, -⟩ := readLength_eq_ok.1 h
  obtain ⟨full, k, hk, -, rfl⟩ := readVarint32_eq_ok.1 hsize
  have hdecode := Varint.decode_length hk
  have hle := r.length_remaining_le
  simp only [Reader.advance, Reader.bytesLeft] at hle ⊢
  omega

section Read

variable {m : Message} {r₁ : Reader} (hlength : readLength r = .ok n r₁)

include hlength

omit hS in
/-- With room for its bytes and a level to go, a nested message is its contents, read up to a nearer
limit. -/
theorem readMessage_apply (hdepth : r.depth < r.recursionLimit) (hroom : n ≤ r₁.bytesLeft)
    (contents : Merge Message Unit) :
    readMessage contents ⟨m, r⟩ =
      (contents >>= fun _ => Merge.read (closeMessage r.limit))
        ⟨m, { r₁ with depth := r₁.depth + 1, limit := r₁.pos + n }⟩ := by
  have hahead : r.Ahead r₁ := advances_readLength hlength
  have hpos := pos_le_limit_of_readLength hlength
  have hfits : r₁.pos + n ≤ r₁.limit := by
    unfold Reader.bytesLeft at hroom
    omega
  have henter : enterNested r₁ = .ok () { r₁ with depth := r₁.depth + 1 } := by
    refine enterNested_eq_ok.2 ⟨fun hle => ?_, rfl⟩
    rw [hahead.depth_eq, hahead.recursionLimit_eq] at hle
    exact absurd hdepth (UInt32.not_lt.2 hle)
  have hopen := openMessage_eq_ok.2 ⟨n, r₁, hlength, henter, hfits, hahead.limit_eq, rfl⟩
  rw [readMessage_eq, bind_of_ok (Merge.read_of_ok hopen)]

omit hS in
theorem left_readMessage_contents (hdepth : r.depth < r.recursionLimit)
    (hroom : n ≤ r₁.bytesLeft) (contents : Merge Message Unit) :
    Merge.left (readMessage contents) ⟨m, r⟩ =
      Merge.left (contents >>= fun _ => Merge.read (checkLastTag 0))
        ⟨m, { r₁ with depth := r₁.depth + 1, limit := r₁.pos + n }⟩ := by
  rw [Merge.left_congr (readMessage_apply hlength hdepth hroom contents)]
  unfold closeMessage popLimit exitNested
  simp only [Merge.read_bind, ← bind_assoc]
  rw [Merge.left_bind_modify, Merge.left_bind_modify]

theorem left_readMessage (hlimit : r.limit ≤ r.data.length) (hdepth : r.depth < r.recursionLimit)
    (hroom : n ≤ r₁.bytesLeft) :
    Merge.left (readMessage (mergeMessage S order type)) ⟨m, r⟩ =
      m.mergeBytes S order type (r.recursionLimit - r.depth - 1)
        ((r.data.drop r₁.pos).take n) := by
  have hahead : r.Ahead r₁ := advances_readLength hlength
  have hpos := pos_le_limit_of_readLength hlength
  have hfits : r₁.pos + n ≤ r₁.data.length := by
    have hle := hahead.limit_eq
    unfold Reader.bytesLeft at hroom
    rw [hahead.data_eq]
    omega
  have hdepth₁ : r₁.depth < r₁.recursionLimit := by
    rwa [hahead.depth_eq, hahead.recursionLimit_eq]
  obtain ⟨hinside, hplaced⟩ := Reader.inside_around hfits hdepth₁
  have hcarries : CarriesMerge (r₁.around n) ((r₁.data.drop r₁.pos).take n) 0 (do
      mergeMessage S order type
      Merge.read (checkLastTag 0)) :=
    ((composed_mergeMessage hS order type).bind fun _ => .read (.checkLastTag 0)).carriesOver
  have halike : Reader.Alike { r₁ with depth := r₁.depth + 1, limit := r₁.pos + n }
      { r₁ with limit := r₁.pos + n, lastTag := 0, depth := r₁.depth + 1 } := ⟨0, rfl⟩
  rw [left_readMessage_contents hlength hdepth hroom, left_mergeMessage_bind hS halike,
    ← hinside, ← hahead.data_eq, ← hahead.depth_eq, ← hahead.recursionLimit_eq,
    Message.mergeBytes_eq_left]
  exact Merge.left_inside hcarries (s := ⟨m, _⟩) hplaced

/-- A nested message leaves the reader behind its bytes, and the limit and depth as they were. -/
theorem reader_of_readMessage (hdepth : r.depth < r.recursionLimit) (hroom : n ≤ r₁.bytesLeft)
    (h : readMessage (mergeMessage S order type) ⟨m, r⟩ = .ok () t) :
    t.reader.pos = r₁.pos + n ∧ t.reader.limit = r.limit ∧ t.reader.depth = r.depth := by
  have hahead : r.Ahead r₁ := advances_readLength hlength
  rw [readMessage_apply hlength hdepth hroom] at h
  obtain ⟨_, u, hu, h⟩ := bind_eq_ok.1 h
  obtain ⟨r', hclose, rfl⟩ := Merge.read_eq_ok.1 h
  obtain ⟨hlast, rfl⟩ := closeMessage_eq_ok.1 hclose
  have hinner := (composed_mergeMessage hS order type).advances hu
  have hend := Reader.pos_eq_of_atEnd (atEnd_of_mergeMessage hS hu hlast)
  refine ⟨hend.trans hinner.limit_eq, rfl, ?_⟩
  simp only [hinner.depth_eq]
  rw [UInt32.add_sub_cancel, hahead.depth_eq]

end Read

end Nested

section Conformance

open Conformance (schema)

/-- A nested message is read as its bytes are merged from a buffer of their own, whatever lies around
them: the message that is left is the same, and so is the error if there is one. If there is none,
the reader stands behind those bytes, and the limit and depth are as they were. -/
theorem nested_message_read_as_standalone (V : Conformance.Variant) (type : TypeId) (m : Message)
    {r r₁ : Reader} {n : Nat} (hlimit : r.limit ≤ r.data.length)
    (hdepth : r.depth < r.recursionLimit) (hlength : readLength r = .ok n r₁)
    (hroom : n ≤ r₁.bytesLeft) :
    Merge.left (readMessage (mergeMessage schema V.order type)) ⟨m, r⟩ =
        m.mergeBytes schema V.order type (r.recursionLimit - r.depth - 1)
          ((r.data.drop r₁.pos).take n) ∧
      ∀ t, readMessage (mergeMessage schema V.order type) ⟨m, r⟩ = .ok () t →
        t.reader.pos = r₁.pos + n ∧ t.reader.limit = r.limit ∧ t.reader.depth = r.depth :=
  have hS := fun type => (Conformance.valid type).routed
  ⟨left_readMessage hS hlength hlimit hdepth hroom,
    fun _ => reader_of_readMessage hS hlength hdepth hroom⟩

/-- A tree with a value and a child, three levels down and between bytes that are no records. -/
theorem nested_message_read_as_standalone_tree :
    let r : Reader := { Reader.ofBytes [255, 4, 16, 7, 10, 0, 255] with pos := 1, depth := 3 }
    readLength r = .ok 4 { r with pos := 2 } ∧
      ((schema.blank Conformance.Tree).mergeBytes schema .declaration Conformance.Tree 96
        [16, 7, 10, 0]).1 = .ok () ∧
      Merge.left (readMessage (mergeMessage schema .declaration Conformance.Tree))
          ⟨schema.blank Conformance.Tree, r⟩ =
        (schema.blank Conformance.Tree).mergeBytes schema .declaration Conformance.Tree 96
          [16, 7, 10, 0] ∧
      ∀ t, readMessage (mergeMessage schema .declaration Conformance.Tree)
        ⟨schema.blank Conformance.Tree, r⟩ = .ok () t → t.reader.pos = 6 := by
  intro r
  have hlength : readLength r = .ok 4 { r with pos := 2 } := by cbv
  have halone : ((schema.blank Conformance.Tree).mergeBytes schema .declaration Conformance.Tree 96
      [16, 7, 10, 0]).1 = .ok () := by cbv
  have hlevels : r.recursionLimit - r.depth - 1 = 96 := by decide
  have hpayload : (r.data.drop 2).take 4 = [16, 7, 10, 0] := by decide
  have h := nested_message_read_as_standalone .declaration Conformance.Tree
    (schema.blank Conformance.Tree) (r := r) (by decide) (by decide) hlength (by decide)
  rw [hlevels, hpayload] at h
  exact ⟨hlength, halone, h.1, fun t ht => (h.2 t ht).1⟩

end Conformance

end ProtoWire
