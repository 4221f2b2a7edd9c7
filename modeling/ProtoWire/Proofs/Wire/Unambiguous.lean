import ProtoWire.Proofs.Wire.ReadBack

/-!
# Values that are told apart by their bytes

* `Separates`: bytes that start with what is written for a value start with nothing that is written
  for another one.
* `Scalar.separates_write`, `separates_writeTag`, `separates_writeBlob`: single values.
-/

namespace ProtoWire

variable {bytes bytes' : Bytes}

/-- The two values are told apart at the front of any bytes: what is written for both is the same
only if they are, and then the same follows. -/
def Separates {α : Type} (write : α → Bytes) (a b : α) : Prop :=
  ∀ r s, write a ++ r = write b ++ s → a = b ∧ r = s

namespace Separates

variable {α : Type} {write : α → Bytes} {a b : α}

theorem eq (h : Separates write a b) (heq : write a = write b) : a = b :=
  (h [] [] (by rw [heq])).1

/-- Values in a row are told apart, if what follows starts with none of them. -/
theorem flatMap {xs ys : List α} (h : ∀ x ∈ xs, ∀ y ∈ ys, Separates write x y) {r s : Bytes}
    (hr : ∀ y ∈ ys, ¬ write y <+: r) (hs : ∀ x ∈ xs, ¬ write x <+: s)
    (heq : xs.flatMap write ++ r = ys.flatMap write ++ s) : xs = ys ∧ r = s := by
  induction xs generalizing ys with
  | nil =>
    cases ys with
    | nil => exact ⟨rfl, heq⟩
    | cons y ys =>
      rw [List.flatMap_cons, List.append_assoc] at heq
      exact absurd ⟨_, heq.symm⟩ (hr y List.mem_cons_self)
  | cons x xs ih =>
    rw [List.flatMap_cons, List.append_assoc] at heq
    cases ys with
    | nil => exact absurd ⟨_, heq⟩ (hs x List.mem_cons_self)
    | cons y ys =>
      rw [List.flatMap_cons, List.append_assoc] at heq
      obtain ⟨rfl, hrest⟩ := h x List.mem_cons_self y List.mem_cons_self _ _ heq
      obtain ⟨rfl, rfl⟩ := ih (fun x hx y hy => h x (List.mem_cons_of_mem _ hx) y
        (List.mem_cons_of_mem _ hy)) (fun y hy => hr y (List.mem_cons_of_mem _ hy))
        (fun x hx => hs x (List.mem_cons_of_mem _ hx)) hrest
      exact ⟨rfl, rfl⟩

/-- Values in a row that take a byte each are told apart, if nothing follows. -/
theorem eq_of_flatMap {xs ys : List α} (h : ∀ x ∈ xs, ∀ y ∈ ys, Separates write x y)
    (hne : ∀ x, write x ≠ []) (heq : xs.flatMap write = ys.flatMap write) : xs = ys := by
  have hnil : ∀ x, ¬ write x <+: [] := fun x hx => hne x (List.prefix_nil.1 hx)
  exact (Separates.flatMap h (fun y _ => hnil y) (fun x _ => hnil x) (by rw [heq])).1

end Separates

/-! ### Numbers -/

theorem Varint.Spells.eq_of_append {r s : Bytes} {value value' : UInt64} (h : Spells bytes value)
    (h' : Spells bytes' value') (heq : bytes ++ r = bytes' ++ s) :
    value = value' ∧ bytes = bytes' ∧ r = s := by
  have hdecode := h.append r
  rw [heq, h'.append s, Except.ok.injEq, Prod.mk.injEq] at hdecode
  exact ⟨hdecode.1.symm, List.append_inj heq hdecode.2.symm⟩

theorem Varint.separates_encode (value value' : UInt64) : Separates encode value value' := by
  intro r s heq
  obtain ⟨hvalue, -, hrest⟩ := (spells_encode value).eq_of_append (spells_encode value') heq
  exact ⟨hvalue, hrest⟩

theorem separates_writeTag (tag tag' : UInt32) : Separates writeTag tag tag' := by
  intro r s heq
  obtain ⟨htag, hrest⟩ := Varint.separates_encode _ _ r s heq
  exact ⟨by simpa using congrArg UInt64.toUInt32 htag, hrest⟩

theorem Scalar.Spells.eq_of_append {kind : Scalar} {r s : Bytes} {value value' : kind.Value}
    (h : kind.Spells bytes value) (h' : kind.Spells bytes' value')
    (heq : bytes ++ r = bytes' ++ s) : value = value' ∧ r = s := by
  have h64 : ∀ {value value' : UInt64}, littleEndian64 value ++ r = littleEndian64 value' ++ s →
      value = value' ∧ r = s := by
    intro value value' heq
    obtain ⟨hbytes, hrest⟩ := List.append_inj heq rfl
    have hvalue := congrArg ofLittleEndian hbytes
    rw [ofLittleEndian_littleEndian64, ofLittleEndian_littleEndian64] at hvalue
    exact ⟨UInt64.toNat_inj.1 hvalue, hrest⟩
  have h32 : ∀ {value value' : UInt32}, littleEndian32 value ++ r = littleEndian32 value' ++ s →
      value = value' ∧ r = s := by
    intro value value' heq
    obtain ⟨hbytes, hrest⟩ := List.append_inj heq rfl
    have hvalue := congrArg ofLittleEndian hbytes
    rw [ofLittleEndian_littleEndian32, ofLittleEndian_littleEndian32] at hvalue
    exact ⟨UInt32.toNat_inj.1 hvalue, hrest⟩
  cases kind with
  | double | fixed64 =>
    obtain rfl := h
    obtain rfl := h'
    exact h64 heq
  | float | fixed32 =>
    obtain rfl := h
    obtain rfl := h'
    exact h32 heq
  | sfixed64 =>
    obtain rfl := h
    obtain rfl := h'
    obtain ⟨hvalue, hrest⟩ := h64 heq
    exact ⟨by simpa using congrArg UInt64.toInt64 hvalue, hrest⟩
  | sfixed32 =>
    obtain rfl := h
    obtain rfl := h'
    obtain ⟨hvalue, hrest⟩ := h32 heq
    exact ⟨by simpa using congrArg UInt32.toInt32 hvalue, hrest⟩
  | int64 | uint64 | int32 | bool | uint32 | sint32 | sint64 =>
    obtain ⟨full, hfull, rfl⟩ := h
    obtain ⟨full', hfull', rfl⟩ := h'
    obtain ⟨rfl, -, hrest⟩ := hfull.eq_of_append hfull' heq
    exact ⟨rfl, hrest⟩

theorem Scalar.separates_write (kind : Scalar) (value value' : kind.Value) :
    Separates kind.write value value' := fun _ _ heq =>
  (kind.spells_write value).eq_of_append (kind.spells_write value') heq

/-! ### Payloads with a length -/

/-- Bytes behind their length are told apart, if the length has room in 64 bits. -/
theorem separates_writeBlob (h : bytes.length < 2 ^ 64) (h' : bytes'.length < 2 ^ 64) :
    Separates writeBlob bytes bytes' := by
  intro r s heq
  rw [writeBlob, writeBlob, List.append_assoc, List.append_assoc] at heq
  obtain ⟨hsize, hrest⟩ := Varint.separates_encode _ _ _ _ heq
  have hlength : bytes.length = bytes'.length := by
    have hsize := congrArg UInt64.toNat hsize
    rwa [Nat.toUInt64_eq, Nat.toUInt64_eq, UInt64.toNat_ofNat', UInt64.toNat_ofNat',
      Nat.mod_eq_of_lt h, Nat.mod_eq_of_lt h'] at hsize
  exact List.append_inj hrest hlength

theorem utf8Bytes_inj {text text' : String} (h : utf8Bytes text = utf8Bytes text') :
    text = text' := by
  have htext := congrArg utf8Text? h
  rwa [utf8Text?_utf8Bytes, utf8Text?_utf8Bytes, Option.some.injEq] at htext

end ProtoWire
