import ProtoWire.Proofs.Message.Merging

/-!
# Reading without fuel

Fuel that outlasts the bytes does not matter, so that reading has equations without it.
-/

namespace ProtoWire

variable {L : Layout} {r : Reader}

/-! ### Progress -/

section Records

variable {read : Reading} (hread : Skippable read) (hL : L.Valid)

include hread hL

theorem advances_readPayload (tag : UInt32) : Advances id (readPayload read L tag) := by
  rintro r ⟨us, more⟩ r' h
  by_cases htag : tag = 0
  · subst htag
    rw [readPayload_zero hL] at h
    cases h
    exact .refl _
  · obtain ⟨r'', hskip, halike, -⟩ := skipField_readPayload hread hL htag h
    exact halike.ahead (advances_skipField tag hskip)

/-! ### Records -/

omit hread in
theorem readFrom_zero (r : Reader) : readFrom read L 0 r = .ok [] r := by
  rw [readFrom, readRecords, bind_of_ok (readPayload_zero hL read r)]
  rfl

theorem readRecords_congr {fuel fuel' : Nat} {tag : UInt32} (h : Outlasts fuel tag r)
    (h' : Outlasts fuel' tag r) :
    readRecords read L fuel tag r = readRecords read L fuel' tag r := by
  induction fuel generalizing fuel' tag r with
  | zero => exact absurd h.1 (Nat.lt_irrefl 0)
  | succ fuel ih =>
    cases fuel' with
    | zero => exact absurd h'.1 (Nat.lt_irrefl 0)
    | succ fuel' =>
      by_cases htag : tag = 0
      · subst htag
        unfold readRecords
        rw [bind_of_ok (readPayload_zero hL read r), bind_of_ok (readPayload_zero hL read r)]
        rfl
      · refine bind_congr_ok fun payload t ht => ?_
        obtain ⟨_, more⟩ := payload
        have hpayload := (advances_readPayload hread hL tag ht).bytesLeft_le
        cases more with
        | false => rfl
        | true =>
          refine bind_congr_ok fun next u hu => ?_
          have hnext := fun hne => Nat.lt_of_lt_of_le (bytesLeft_readTag hu hne) hpayload
          exact bind_congr_left (ih (h.next htag hnext) (h'.next htag hnext))

/-- What records say from a tag on: its payload, and then what follows. -/
theorem readFrom_apply (tag : UInt32) (r : Reader) :
    readFrom read L tag r =
      (do
        let (us, more) ← readPayload read L tag
        if more then
          let us' ← readTag >>= readFrom read L
          return us ++ us'
        else return us) r := by
  by_cases htag : tag = 0
  · subst htag
    rw [readFrom_zero hL, bind_of_ok (readPayload_zero hL read r)]
    rfl
  · refine bind_congr_ok fun ⟨us, more⟩ t ht => ?_
    have hpayload := (advances_readPayload hread hL tag ht).bytesLeft_le
    cases more with
    | false => rfl
    | true =>
      simp only [if_true, bind_assoc]
      refine bind_congr_ok fun next u hu => bind_congr_left ?_
      have hnext := fun hne => Nat.lt_of_lt_of_le (bytesLeft_readTag hu hne) hpayload
      have henough : Outlasts (r.bytesLeft + 2) tag r := ⟨by omega, by omega⟩
      exact readRecords_congr hread hL (henough.next htag hnext) ⟨by omega, by omega⟩

end Records

/-! ### Messages inside each other -/

section Nested

variable {read read' : Reading}

theorem bytesLeft_openMessage {limit : Nat} {r' : Reader} (h : openMessage r = .ok limit r') :
    r'.bytesLeft ≤ r.bytesLeft := by
  obtain ⟨n, r₁, hlength, -, hroom, -, rfl⟩ := openMessage_eq_ok.1 h
  have hle := (advances_readLength hlength).bytesLeft_le
  simp only [Reader.bytesLeft, id] at hroom hle ⊢
  omega

variable
  (h : ∀ (type : TypeId) (t : Reader), t.bytesLeft ≤ r.bytesLeft → read type t = read' type t)

include h in
theorem Field.readContents_congr (f : Field) :
    f.readContents read r = f.readContents read' r := by
  unfold Field.readContents
  cases f.element with
  | message type =>
    refine bind_congr_ok fun limit t ht => bind_congr_left ?_
    exact h type t (bytesLeft_openMessage ht)
  | group type =>
    refine bind_congr_ok fun _ t ht => bind_congr_left ?_
    obtain ⟨-, rfl⟩ := enterNested_eq_ok.1 ht
    exact h type _ (Nat.le_refl _)
  | scalar | enum | text | blob => rfl

include h in
theorem PlacedField.readUpdate_congr (p : PlacedField) :
    p.readUpdate read r = p.readUpdate read' r := by
  unfold PlacedField.readUpdate
  cases p.1.element with
  | message type | group type => exact bind_congr_left (p.1.readContents_congr h)
  | scalar | enum | text | blob => rfl

/-- No messages are read for values that can be packed. -/
theorem PlacedField.readUpdate_of_isPackable {p : PlacedField}
    (hpack : p.1.element.category.isPackable = true) (read read' : Reading) :
    p.readUpdate read = p.readUpdate read' := by
  unfold PlacedField.readUpdate
  cases helement : p.1.element with
  | scalar | enum | text | blob => rfl
  | message | group =>
    rw [helement] at hpack
    cases hpack

theorem PlacedField.readPackedUpdates_of_isPackable {p : PlacedField}
    (hpack : p.1.element.category.isPackable = true) (read read' : Reading) :
    p.readPackedUpdates read = p.readPackedUpdates read' := by
  have hupdates : ∀ fuel, p.readUpdates read fuel = p.readUpdates read' fuel := by
    intro fuel
    induction fuel with
    | zero => rfl
    | succ fuel ih =>
      rw [PlacedField.readUpdates, PlacedField.readUpdates, ih,
        PlacedField.readUpdate_of_isPackable hpack read read']
  simp only [PlacedField.readPackedUpdates, hupdates]

include h in
theorem readPayload_congr (hL : L.Valid) (tag : UInt32) :
    readPayload read L tag r = readPayload read' L tag r := by
  unfold readPayload
  cases hroute : L.route tag with
  | none => rfl
  | some target =>
    obtain ⟨p, form⟩ := target
    cases form with
    | value | element => exact bind_congr_left (p.readUpdate_congr h)
    | run =>
      simp only
      rw [PlacedField.readPackedUpdates_of_isPackable (hL.isPackable_of_route hroute) read read']

include h in
theorem readFrom_congr (hL : L.Valid) (hread : Skippable read) (tag : UInt32) :
    readFrom read L tag r = readFrom read' L tag r := by
  have hrecords : ∀ (fuel : Nat) (tag : UInt32) (t : Reader), t.bytesLeft ≤ r.bytesLeft →
      readRecords read L fuel tag t = readRecords read' L fuel tag t := by
    intro fuel
    induction fuel with
    | zero => exact fun _ _ _ => rfl
    | succ fuel ih =>
      intro tag t ht
      rw [readRecords, readRecords,
        ← bind_congr_left
          (readPayload_congr (fun type u hu => h type u (Nat.le_trans hu ht)) hL tag)]
      refine bind_congr_ok fun ⟨us, more⟩ u hu => ?_
      have hleft := (advances_readPayload hread hL tag hu).bytesLeft_le
      cases more with
      | false => rfl
      | true =>
        refine bind_congr_ok fun next v hv => bind_congr_left (ih next v ?_)
        have hleft' := (advances_readTag hv).bytesLeft_le
        exact Nat.le_trans (Nat.le_trans hleft' hleft) ht
  exact hrecords _ tag r (Nat.le_refl _)

end Nested

section Messages

variable {S : Schema} (hS : S.Valid)

include hS

/-- Fuel above the number of bytes left does not matter. -/
theorem readWithin_congr {fuel fuel' : Nat} {type : TypeId} (h : r.bytesLeft < fuel)
    (h' : r.bytesLeft < fuel') : readWithin S fuel type r = readWithin S fuel' type r := by
  induction fuel generalizing fuel' type r with
  | zero => exact absurd h (Nat.not_lt_zero _)
  | succ fuel ih =>
    cases fuel' with
    | zero => exact absurd h' (Nat.not_lt_zero _)
    | succ fuel' =>
      refine bind_congr_ok fun tag t ht => ?_
      by_cases htag : tag = 0
      · subst htag
        rw [readFrom_zero (hS type), readFrom_zero (hS type)]
      · have hlt := bytesLeft_readTag ht htag
        refine readFrom_congr (fun type u hu => ?_) (hS type) (skippable_readWithin hS fuel) tag
        exact ih (by omega) (by omega)

theorem skippable_readContents : Skippable (readContents S) :=
  fun type _ _ _ h => skippable_readWithin hS _ type h

/-- The contents of a message are its records, with the contents of the messages inside. -/
theorem readContents_apply (type : TypeId) (r : Reader) :
    readContents S type r = (readTag >>= readFrom (readContents S) (S.layout type)) r := by
  refine bind_congr_ok fun tag t ht => ?_
  by_cases htag : tag = 0
  · subst htag
    rw [readFrom_zero (hS type), readFrom_zero (hS type)]
  · have hlt := bytesLeft_readTag ht htag
    refine readFrom_congr (fun type u hu => ?_) (hS type) (skippable_readWithin hS _) tag
    exact readWithin_congr hS (by omega) (Nat.lt_succ_self _)

end Messages

end ProtoWire
