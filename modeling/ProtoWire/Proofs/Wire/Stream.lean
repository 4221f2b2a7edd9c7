import ProtoWire.Proofs.Message.Contents
import ProtoWire.Proofs.Wire.Local

/-!
# Values in a row

* `Datum.length_write`, `Datum.reads_read`: a value has as many bytes as its size says, and is read
  from them, whatever follows.
* `stream_round_trip`: values that are written one after the other are read one after the other.
-/

namespace ProtoWire

/-- A kind of single value. -/
inductive DatumKind where
  | varint32
  | varint64
  | tag
  | scalar (kind : Scalar)
  | enum
  | text
  | blob

/-- Reads a value of a kind. -/
def DatumKind.read : DatumKind → Read Datum
  | varint32 => .varint32 <$> readVarint32
  | varint64 => .varint64 <$> readVarint64
  | tag => .tag <$> readTag
  | scalar kind => .scalar kind <$> readScalar kind
  | enum => .enum <$> readInt32
  | text => .text <$> readText
  | blob => .blob <$> readBlob

/-- Reads a value of each kind. -/
def readAll : List DatumKind → Read (List Datum)
  | [] => return []
  | kind :: kinds => do
    let value ← kind.read
    return value :: (← readAll kinds)

namespace Datum

/-- The kind of a value. -/
def kind : Datum → DatumKind
  | varint32 _ => .varint32
  | varint64 _ => .varint64
  | tag _ => .tag
  | scalar kind _ => .scalar kind
  | enum _ => .enum
  | text _ => .text
  | blob _ => .blob

/-- A tag has a number, and a payload a length of 31 bits. -/
def IsReadable : Datum → Prop
  | tag value => Tag.number value ≠ 0
  | text value => value.utf8ByteSize < 2 ^ 31
  | blob value => value.length < 2 ^ 31
  | varint32 _ | varint64 _ | scalar _ _ | enum _ => True

instance : DecidablePred IsReadable
  | tag value => inferInstanceAs (Decidable (Tag.number value ≠ 0))
  | text value => inferInstanceAs (Decidable (value.utf8ByteSize < 2 ^ 31))
  | blob value => inferInstanceAs (Decidable (value.length < 2 ^ 31))
  | varint32 _ | varint64 _ | scalar _ _ | enum _ => inferInstanceAs (Decidable True)

theorem length_write (v : Datum) : v.write.length = v.size := by
  cases v with
  | varint32 value | tag value => exact Varint.length_encode32 value
  | varint64 value => exact Varint.length_encode value
  | scalar kind value => exact kind.length_write value
  | enum value => exact length_writeInt32 value
  | text value => rw [write, length_writeBlob, length_utf8Bytes, size]
  | blob value => exact length_writeBlob value

theorem reads_read {levels : Nat} {v : Datum} (h : v.IsReadable) :
    Reads levels v.kind.read v.write v := by
  cases v with
  | varint32 value =>
    obtain ⟨full, hfull, rfl⟩ := Scalar.spells_encode32 value
    exact (reads_readVarint32 hfull).map varint32
  | varint64 value => exact (reads_readVarint64 (Varint.spells_encode value)).map varint64
  | tag value => exact (reads_readTag_writeTag h).map tag
  | scalar kind value => exact (reads_readScalar (kind.spells_write value)).map (scalar kind)
  | enum value => exact (reads_readScalar (Scalar.int32.spells_write value)).map enum
  | text value => exact (reads_readText (by rwa [length_utf8Bytes])).map text
  | blob value => exact (reads_readBlob h).map blob

/-- A payload may as well be read over another one. -/
def ReadsOver (v : Datum) (r r' : Reader) : Prop :=
  match v with
  | text value => ∀ old, readTextInto ⟨old, r⟩ = .ok () ⟨value, r'⟩
  | blob value => ∀ old, readBlobInto ⟨old, r⟩ = .ok () ⟨value, r'⟩
  | varint32 _ | varint64 _ | tag _ | scalar _ _ | enum _ => True

theorem readsOver_of_read {v : Datum} {r r' : Reader} (h : v.kind.read r = .ok v r') :
    v.ReadsOver r r' := by
  cases v with
  | text value =>
    obtain ⟨_, htext, ⟨⟩⟩ := map_eq_ok.1 h
    intro old
    obtain ⟨_, hover, rfl⟩ := (follows_readTextInto old r r' value).2 ⟨value, htext, rfl⟩
    exact hover
  | blob value =>
    obtain ⟨_, hblob, ⟨⟩⟩ := map_eq_ok.1 h
    intro old
    obtain ⟨_, hover, rfl⟩ := (follows_readBlobInto old r r' value).2 ⟨value, hblob, rfl⟩
    exact hover
  | varint32 | varint64 | tag | scalar | enum => trivial

end Datum

/-! ### Rows -/

/-- By induction on the values: each is read in front of the bytes of the others. -/
theorem reads_readAll {levels : Nat} {values : List Datum} (h : ∀ v ∈ values, v.IsReadable) :
    Reads levels (readAll (values.map Datum.kind)) (values.flatMap Datum.write) values := by
  induction values with
  | nil => exact .pure []
  | cons v values ih =>
    obtain ⟨hv, hvalues⟩ := List.forall_mem_cons.1 h
    exact (Datum.reads_read hv).bind ((ih hvalues).bind_pure rfl)

theorem length_flatMap_write (values : List Datum) :
    (values.flatMap Datum.write).length = totalSize (values.map Datum.size) := by
  induction values with
  | nil => rfl
  | cons v values ih =>
    rw [List.flatMap_cons, List.length_append, v.length_write, ih]
    rfl

/-- Values that are written one after the other are read one after the other, and nothing is left.
Each takes as many bytes as its size says, when it is written and when it is read, and a payload is
read over any other. -/
theorem stream_round_trip (values : List Datum) (h : ∀ v ∈ values, v.IsReadable) :
    (∃ r, readAll (values.map Datum.kind) (Reader.ofBytes (values.flatMap Datum.write)) =
        .ok values r ∧ r.atEnd = true) ∧
      ∀ before v after, values = before ++ v :: after →
        v.write.length = v.size ∧
        ∃ r r', readAll (before.map Datum.kind)
            (Reader.ofBytes (values.flatMap Datum.write)) = .ok before r ∧
          r.pos = totalSize (before.map Datum.size) ∧
          v.kind.read r = .ok v r' ∧ r'.pos = r.pos + v.size ∧ v.ReadsOver r r' := by
  have hdepth : (0 : UInt32).toNat + 0 ≤ defaultRecursionLimit.toNat := by decide
  have hstart (data : Bytes) : (Reader.ofBytes data).remaining = data := by
    simp [Reader.remaining, Reader.ofBytes]
  refine ⟨?_, ?_⟩
  · obtain ⟨_, hread, tag, rfl⟩ := reads_readAll h (Reader.ofBytes (values.flatMap Datum.write)) []
      (by rw [hstart, List.append_nil]) hdepth
    exact ⟨_, hread, by simp [Reader.atEnd, Reader.advance, Reader.ofBytes]⟩
  · rintro before v after rfl
    obtain ⟨hbefore, hrest⟩ := List.forall_mem_append.1 h
    have hdata : (Reader.ofBytes ((before ++ v :: after).flatMap Datum.write)).remaining =
        before.flatMap Datum.write ++ (v.write ++ after.flatMap Datum.write) := by
      rw [hstart, List.flatMap_append, List.flatMap_cons]
    obtain ⟨r, hread, halike⟩ := reads_readAll hbefore _ _ hdata hdepth
    have hnext : r.remaining = v.write ++ after.flatMap Datum.write := by
      rw [halike.remaining_eq, Reader.remaining_advance_append hdata]
    obtain ⟨tag, rfl⟩ := halike
    obtain ⟨_, hv, tag', rfl⟩ :=
      Datum.reads_read (hrest v List.mem_cons_self) _ _ hnext hdepth
    refine ⟨v.length_write, _, _, hread, ?_, hv, ?_, Datum.readsOver_of_read hv⟩
    · rw [← length_flatMap_write]
      exact Nat.zero_add _
    · simp [Reader.advance, v.length_write]

/-- A negative number, a tag and a text, and the number again as an enum value. -/
theorem stream_round_trip_negative :
    let values : List Datum := [.scalar .int32 (-1 : Int32), .tag 26, .text "x", .enum (-1)]
    values.flatMap Datum.write =
      [255, 255, 255, 255, 255, 255, 255, 255, 255, 1, 26, 1, 120,
        255, 255, 255, 255, 255, 255, 255, 255, 255, 1] ∧
      ∃ r, readAll (values.map Datum.kind) (Reader.ofBytes (values.flatMap Datum.write)) =
        .ok values r ∧ r.atEnd = true := by
  intro values
  exact ⟨by decide +kernel, (stream_round_trip values (by decide +kernel)).1⟩

end ProtoWire
