import ProtoWire.Proofs.Descriptor.Codec
import ProtoWire.Proofs.Message.Checked

/-!
# What is parsed

The loop over the fields of a record looks up the cell of each. It is there, since a record has a
cell for each field of its type from the start, and keeps them.
-/

namespace ProtoWire

variable {i : Nat}

/-! ### Actions that fail for what they read -/

/-- From a target with `P` the action ends with `Q`, or fails for what was read. -/
def Decodes {σ α : Type} (P : σ → Prop) (x : Merge σ α) (Q : α → σ → Prop) : Prop :=
  ∀ s, P s.target →
    match x s with
    | .ok a t => Q a t.target
    | .error fault _ => fault.Decoding

namespace Decodes

variable {σ τ α β : Type} {P : σ → Prop} {R : τ → Prop}

theorem pure {a : α} : Decodes P (Pure.pure a : Merge σ α) fun _ => P :=
  fun _ hs => hs

theorem throw {e : DecodeError} {Q : α → σ → Prop} :
    Decodes P (MonadExcept.throw (Fault.decode e) : Merge σ α) Q :=
  fun _ _ => ⟨e, rfl⟩

theorem bind {x : Merge σ α} {f : α → Merge σ β} {Q : α → σ → Prop} {Q' : β → σ → Prop}
    (hx : Decodes P x Q) (hf : ∀ a, Decodes (Q a) (f a) Q') : Decodes P (x >>= f) Q' := by
  intro s hs
  have h := hx s hs
  cases hout : x s with
  | ok a t =>
    rw [hout] at h
    rw [bind_of_ok hout]
    exact hf a t h
  | error fault t =>
    rw [hout] at h
    rw [bind_of_error hout]
    exact h

theorem read (x : Read α) : Decodes P (Merge.read x : Merge σ α) fun _ => P := by
  intro s hs
  unfold Merge.read
  cases x s.reader with
  | ok a r => exact hs
  | error e r => exact ⟨e, rfl⟩

theorem target : Decodes P (Merge.target : Merge σ σ) fun a m => P a ∧ P m :=
  fun _ hs => ⟨hs, hs⟩

theorem update {f : σ → σ} (h : ∀ m, P m → P (f m)) : Decodes P (Merge.update f) fun _ => P :=
  fun s hs => h s.target hs

theorem within {x : Merge τ α} {part : τ} {store : τ → σ → σ} (hx : Decodes R x fun _ => R)
    (hpart : R part) (hstore : ∀ t m, P m → R t → P (store t m)) :
    Decodes P (Merge.within part store x) fun _ => P := by
  intro s hs
  have h := hx { target := part, reader := s.reader } hpart
  unfold Merge.within
  cases hout : x { target := part, reader := s.reader } with
  | ok a t =>
    rw [hout] at h
    exact hstore t.target s.target hs h
  | error fault t =>
    rw [hout] at h
    exact h

theorem apart {x : Merge τ Unit} {part : τ} (hx : Decodes R x fun _ => R) (hpart : R part) :
    Decodes P (Merge.apart part x : Merge σ τ) fun t m => R t ∧ P m := by
  intro s hs
  have h := hx { target := part, reader := s.reader } hpart
  unfold Merge.apart
  cases hout : x { target := part, reader := s.reader } with
  | ok a t =>
    rw [hout] at h
    exact ⟨h, hs⟩
  | error fault t =>
    rw [hout] at h
    exact h

theorem readMessage {contents : Merge σ Unit} (h : Decodes P contents fun _ => P) :
    Decodes P (readMessage contents) fun _ => P :=
  bind (read _) fun _ => bind (read _) fun _ => bind (read _) fun _ => bind h fun _ =>
    bind (read _) fun _ => bind (read _) fun _ => read _

end Decodes

/-! ### Cells -/

/-- Of rows that are related place by place, each element has a partner, and may get another. -/
theorem exists_set_of_forall₂ {α β : Type} {R : α → β → Prop} {as : List α} {bs : List β}
    (h : List.Forall₂ R as bs) {a : α} (ha : as[i]? = some a) :
    ∃ b, bs[i]? = some b ∧ R a b ∧ ∀ b', R a b' → List.Forall₂ R as (bs.set i b') := by
  induction h generalizing i with
  | nil => cases ha
  | cons hab h ih =>
    cases i with
    | zero =>
      cases ha
      exact ⟨_, rfl, hab, fun b' hb' => .cons hb' h⟩
    | succ i =>
      obtain ⟨b, hb, hR, hset⟩ := ih ha
      exact ⟨b, hb, hR, fun b' hb' => .cons hab (hset b' hb')⟩

/-- A record has a cell for each field, and fits with another of the kind in its place. -/
theorem Record.Fits.at {type : RecordType} {r : Record} (h : r.Fits type) {f : RecordField}
    (hf : type.fields[i]? = some f) :
    ∃ cell, r.cells[i]? = some cell ∧ f.kind.Holds Record.Fits cell ∧
      ∀ cell', f.kind.Holds Record.Fits cell' →
        Record.Fits type { r with cells := r.cells.set i cell' } := by
  cases h with
  | intro holds =>
    obtain ⟨cell, hcell, hholds, hset⟩ := exists_set_of_forall₂ holds hf
    exact ⟨cell, hcell, hholds, fun cell' hcell' => .intro (hset cell' hcell')⟩

theorem CellKind.holds_blank (P : RecordType → Record → Prop) (kind : CellKind) :
    kind.Holds P kind.blank := by
  cases kind with
  | text => exact .text
  | int32 => exact .int32
  | bool => exact .bool
  | uint64 => exact .uint64
  | texts => exact .texts
  | sub type => exact .sub (by simp)
  | subs type => exact .subs (by simp)

theorem RecordType.fits_blank (type : RecordType) : type.blank.Fits type := by
  refine .intro (List.forall₂_map_right_iff.2 (List.forall₂_same.2 fun f _ => ?_))
  exact f.kind.holds_blank Record.Fits

section Merging

variable {nested : RecordType → Merge Record Unit}
  (hnested : ∀ type, Decodes (Record.Fits type) (nested type) fun _ => Record.Fits type)

include hnested

end Merging

namespace Record

end Record

end ProtoWire
